import FerroLoop.Lib.Machine
import FerroLoop.Vault.Binding

/-!
Histories of a vault: handles that were opened at some time and keep the file and the verified snapshots they saw, set and
remove calls through them, and files that someone without the key puts in the vault's place.
-/

namespace FerroLoop.Vault

open Std Text Checked Word Machine List

structure Acceptance where
  key : MasterKey
  metadata : VaultSecretMetadata
  value : String
  /-- When the lease ends. -/
  ends : Option Nat
  nonce : NonceBytes
  ciphertext : List UInt8

inductive Event where
  | accepted (a : Acceptance)
  | removed (name : String)
  /-- Someone without the key wrote the file. -/
  | overwritten

structure Handle where
  key : MasterKey
  file : VaultFile
  cache : Nat

structure World where
  disk : VaultText
  handles : List Handle
  caches : List VerifiedSnapshotCache
  /-- What happened to the file, the latest first. -/
  log : List Event

def World.initial : World where
  disk := .absent
  handles := []
  caches := []
  log := []

inductive Op where
  | openVault (key : MasterKey)
  /-- A copy of a handle that reads the file again and shares the verified snapshots. -/
  | fresh (handle : Nat)
  | set (handle : Nat) (args : SetSecretArgs) (onlyIfAbsent : Bool) (env : WriteEnv)
  | remove (handle : Nat) (name : String) (env : WriteEnv)
  | snapshot (handle : Nat) (name : String)
  | overwrite (text : VaultText)

def World.hold (w : World) (i : Nat) (h : Handle) (file : VaultFile) : World :=
  { w with handles := w.handles.set i { h with file } }

def World.cacheOf (w : World) (h : Handle) : VerifiedSnapshotCache := (w.caches[h.cache]?).getD ∅

def acceptance (key : MasterKey) (args : SetSecretArgs) (env : WriteEnv) (stored : Stored) : Acceptance where
  key
  metadata := stored.metadata
  value := args.value
  ends := args.leaseTtlSecs.map (leaseEnd env.nowMs)
  nonce := stored.nonce
  ciphertext := stored.ciphertext

section Step

variable (crypto : Crypto) (ours : MasterKey → Prop)

section

variable (w : World)

def World.openVault (key : MasterKey) : World :=
  match readVaultFile w.disk with
  | .error _ => w
  | .ok file => { w with handles := w.handles ++ [⟨key, file, w.caches.length⟩], caches := w.caches ++ [∅] }

def World.fresh (h : Handle) : World :=
  match readVaultFile w.disk with
  | .error _ => w
  | .ok file => { w with handles := w.handles ++ [⟨h.key, file, h.cache⟩] }

def World.set (i : Nat) (h : Handle) (args : SetSecretArgs) (onlyIfAbsent : Bool) (env : WriteEnv) : World :=
  match setInner crypto h.key env w.disk args onlyIfAbsent with
  | .error _ => w
  | .ok (.present _ next) => w.hold i h next
  | .ok (.stored stored) =>
    { w.hold i h stored.next with
      disk := .file stored.next, log := .accepted (acceptance h.key args env stored) :: w.log }

def World.remove (i : Nat) (h : Handle) (name : String) (env : WriteEnv) : World :=
  match normalizeSecretName name, removeInner env w.disk name with
  | .ok _, .ok (next, false) => w.hold i h next
  | .ok key, .ok (next, true) => { w.hold i h next with disk := .file next, log := .removed key :: w.log }
  | _, _ => w

def World.snapshot (h : Handle) (name : String) : World :=
  match authenticatedSnapshotCurrent crypto h.key h.file (w.cacheOf h) name with
  | .error _ => w
  | .ok (_, cache) => { w with caches := w.caches.set h.cache cache }

def World.step : Op → World × Unit
  | .openVault key => (w.openVault key, ())
  | .fresh i => ((w.handles[i]?).elim w fun h => w.fresh h, ())
  | .set i args onlyIfAbsent env => ((w.handles[i]?).elim w fun h => w.set crypto i h args onlyIfAbsent env, ())
  | .remove i name env => ((w.handles[i]?).elim w fun h => w.remove i h name env, ())
  | .snapshot i name => ((w.handles[i]?).elim w fun h => w.snapshot crypto h name, ())
  | .overwrite text => ({ w with disk := text, log := .overwritten :: w.log }, ())

/-! ### What is assumed of the cryptography -/

/-- A ciphertext opens under the key, the nonce and the associated data it was sealed with and under no others, and no two
byte strings have one digest. -/
structure Ideal : Prop where
  opens : ∀ {key nonce aad plaintext ciphertext},
    crypto.sealInPlace key nonce aad plaintext = some ciphertext →
      crypto.openInPlace key nonce aad ciphertext = some plaintext
  exact : ∀ {key nonce aad plaintext ciphertext key' nonce' aad' plaintext'},
    crypto.sealInPlace key nonce aad plaintext = some ciphertext →
      crypto.openInPlace key' nonce' aad' ciphertext = some plaintext' → key' = key ∧ nonce' = nonce ∧ aad' = aad
  collisionFree : ∀ {a b}, crypto.sha256 a = crypto.sha256 b → a = b
  decodes : ∀ bytes, crypto.decode (crypto.encode bytes) = .ok bytes

/-- What opens under a key of the vault's owner was sealed by a call that the vault accepted. -/
def Unforged (log : List Event) (file : VaultFile) : Prop :=
  ∀ ⦃name : String⦄ ⦃record ciphertext key nonce aad plaintext⦄, ours key → file.secrets[name]? = some record →
    crypto.decode record.ciphertextB64 = .ok ciphertext →
      crypto.openInPlace key nonce aad ciphertext = some plaintext →
        ∃ a, Event.accepted a ∈ log ∧ a.ciphertext = ciphertext

def UnforgedText (log : List Event) (text : VaultText) : Prop :=
  ∀ file, text = .file file → Unforged crypto ours log file

def Permitted : Op → Prop
  | .openVault key => ours key
  | .overwrite text => UnforgedText crypto ours w.log text
  | _ => True

end

end Step

def standing : List Event → String → Option Acceptance
  | [], _ => none
  | .accepted a :: earlier, name => if a.metadata.name = name then some a else standing earlier name
  | .removed key :: earlier, name => if key = name then none else standing earlier name
  | .overwritten :: _, _ => none

theorem beBytes_length (n : Nat) : (beBytes n).length = 8 := by
  unfold beBytes
  rw [length_reverse, Bytes.toLe_length]

theorem beBytes_inj {m n : Nat} (small : m < 2 ^ 64) (small' : n < 2 ^ 64) (same : beBytes m = beBytes n) : m = n := by
  have numbers := congrArg Bytes.fromLe (reverse_injective same)
  rwa [Bytes.fromLe_toLe (by omega), Bytes.fromLe_toLe (by omega)] at numbers

theorem framed_inj {a b rest rest' : List UInt8} (small : a.length < 2 ^ 64) (small' : b.length < 2 ^ 64)
    (same : framed a ++ rest = framed b ++ rest') : a = b ∧ rest = rest' := by
  unfold framed at same
  rw [append_assoc, append_assoc] at same
  obtain ⟨lengths, others⟩ := append_inj same (by rw [beBytes_length, beBytes_length])
  exact append_inj others (beBytes_inj small small' lengths)

theorem hexPair_inj {a b : UInt8} (high : Nat.digitChar (a.toNat / 16) = Nat.digitChar (b.toNat / 16))
    (low : Nat.digitChar (a.toNat % 16) = Nat.digitChar (b.toNat % 16)) : a = b := by
  have table : ∀ x < 16, ∀ y < 16, Nat.digitChar x = Nat.digitChar y → x = y := by decide
  have bound := a.toNat_lt
  have bound' := b.toNat_lt
  have highs := table _ (by omega) _ (by omega) high
  have lows := table _ (by omega) _ (by omega) low
  apply UInt8.toNat_inj.mp
  omega

theorem hexText_inj {a b : List UInt8} (same : hexText a = hexText b) : a = b := by
  have chars := congrArg String.toList same
  unfold hexText at chars
  rw [String.toList_ofList, String.toList_ofList] at chars
  clear same
  induction a generalizing b with
  | nil =>
    cases b with
    | nil => rfl
    | cons y ys => cases chars
  | cons x xs ih =>
    rcases b with _ | ⟨y, ys⟩
    · cases chars
    obtain ⟨high, more⟩ := List.cons.inj chars
    obtain ⟨low, others⟩ := List.cons.inj more
    rw [hexPair_inj high low, ih others]

theorem epochOf_inj {crypto : Crypto} (ideal : Ideal crypto) {aad nonce ciphertext aad' nonce' ciphertext' : List UInt8}
    (small : aad.length < 2 ^ 63 ∧ nonce.length < 2 ^ 63 ∧ ciphertext.length < 2 ^ 63)
    (small' : aad'.length < 2 ^ 63 ∧ nonce'.length < 2 ^ 63 ∧ ciphertext'.length < 2 ^ 63)
    (same : epochOf crypto aad nonce ciphertext = epochOf crypto aad' nonce' ciphertext') :
    aad = aad' ∧ nonce = nonce' ∧ ciphertext = ciphertext' := by
  have bytes := ideal.collisionFree (hexText_inj same)
  obtain ⟨aads, rest⟩ := framed_inj (by omega) (by omega) bytes
  obtain ⟨nonces, rest⟩ := framed_inj (by omega) (by omega) rest
  have closed : framed ciphertext ++ [] = framed ciphertext' ++ [] := by rw [append_nil, append_nil, rest]
  exact ⟨aads, nonces, (framed_inj (by omega) (by omega) closed).1⟩

theorem ofUtf8_textBytes (text : String) : ofUtf8 (textBytes text) = some text := by
  have same : (⟨(textBytes text).toArray⟩ : ByteArray) = text.toByteArray := by
    unfold textBytes
    rfl
  unfold ofUtf8
  rw [same, String.fromUTF8?, dif_pos text.isValidUTF8]
  rfl

end FerroLoop.Vault

import FerroLoop.Lib.Base64
import FerroLoop.Vault.History

namespace FerroLoop.Vault

open List hiding getElem?_insert
open Std Text Checked Word Machine Map Except World Option Event Base64

variable {crypto : Crypto} {ours : MasterKey → Prop} {key : MasterKey}

variable {bytes plaintext : List UInt8} {raw name : String} {file : VaultFile} {metadata : VaultSecretMetadata}
  {disk : VaultText} {args : SetSecretArgs} {env : WriteEnv} {log : List Event}

theorem allocated_ok {found : List UInt8} (done : allocated bytes = .ok found) : found = bytes ∧ bytes.length < 2 ^ 63 := by
  unfold allocated at done
  split at done
  · rename_i small
    exact ⟨(ok.inj done).symm, small⟩
  · cases done

theorem decodeOr_ok {what text : String} (done : decodeOr crypto what text = .ok bytes) :
    crypto.decode text = .ok bytes ∧ bytes.length < 2 ^ 63 := by
  unfold decodeOr at done
  split at done
  · cases done
  · rename_i found decoded
    obtain ⟨rfl, small⟩ := allocated_ok done
    exact ⟨decoded, small⟩

theorem genuineRecord_ok {record : EncryptedSecretRecord}
    (named : normalizeSecretName raw = .ok name) (done : genuineRecord file name = .ok record) :
    file.secrets[name]? = some record ∧ record.metadata.name = name ∧ Genuine record.metadata := by
  unfold genuineRecord at done
  split at done
  · cases done
  rename_i found held
  split at done
  · cases done
  rename_i checked
  have same := ok.inj done
  subst same
  rw [not_or, Decidable.not_not, Bool.not_eq_false] at checked
  refine ⟨held, checked.1, ?_, checked.2⟩
  rw [checked.1]
  exact normalizeSecretName_idem named

structure Opened (crypto : Crypto) (key : MasterKey) (file : VaultFile) (raw : String) (metadata : VaultSecretMetadata)
    (nonce ciphertext plaintext : List UInt8) : Prop where
  named : normalizeSecretName raw = .ok metadata.name
  genuine : Genuine metadata
  held : ∃ record, file.secrets[metadata.name]? = some record ∧ record.metadata = metadata ∧
    crypto.decode record.nonceB64 = .ok nonce ∧ crypto.decode record.ciphertextB64 = .ok ciphertext
  small : (textBytes (canonicalAad metadata)).length < 2 ^ 63 ∧ nonce.length < 2 ^ 63 ∧ ciphertext.length < 2 ^ 63
  opens : crypto.openInPlace key nonce (textBytes (canonicalAad metadata)) ciphertext = some plaintext

theorem openRecord_ok {nonce aad ciphertext : List UInt8}
    (done : openRecord crypto key name nonce aad ciphertext = .ok plaintext) :
    crypto.openInPlace key nonce aad ciphertext = some plaintext := by
  unfold openRecord at done
  split at done
  · cases done
  · rename_i found opened
    rw [opened, ok.inj done]

theorem decryptAuthenticatedBytes_ok
    (done : decryptAuthenticatedBytes crypto key file raw = .ok (metadata, plaintext)) :
    ∃ nonce ciphertext, Opened crypto key file raw metadata nonce ciphertext plaintext := by
  obtain ⟨name, named, done⟩ := bind_ok done
  obtain ⟨record, found, done⟩ := bind_ok done
  obtain ⟨nonce, decoded, done⟩ := bind_ok done
  obtain ⟨_, -, done⟩ := bind_ok done
  obtain ⟨ciphertext, decoded', done⟩ := bind_ok done
  obtain ⟨aad, asked, done⟩ := bind_ok done
  obtain ⟨bytes, opened, done⟩ := bind_ok done
  obtain ⟨rfl, rfl⟩ := Prod.mk.inj (ok.inj done)
  obtain ⟨held, bears, genuine⟩ := genuineRecord_ok named found
  obtain ⟨rfl, aadSmall⟩ := allocated_ok asked
  obtain ⟨decoded, nonceSmall⟩ := decodeOr_ok decoded
  obtain ⟨decoded', cipherSmall⟩ := decodeOr_ok decoded'
  refine ⟨nonce, ciphertext, ?_, genuine, ⟨record, ?_, rfl, decoded, decoded'⟩, ⟨aadSmall, nonceSmall, cipherSmall⟩,
    openRecord_ok opened⟩
  · rw [bears]
    exact named
  · rw [bears]
    exact held

def Sound (crypto : Crypto) (cache : VerifiedSnapshotCache) : Prop :=
  ∀ (name : String) (fingerprint : List UInt8) (epoch : String), cache[name]? = some (fingerprint, epoch) →
    ∃ key aad nonce ciphertext plaintext, fingerprint = fingerprintOf crypto key ∧ epoch = epochOf crypto aad nonce ciphertext ∧
      (aad.length < 2 ^ 63 ∧ nonce.length < 2 ^ 63 ∧ ciphertext.length < 2 ^ 63) ∧
      crypto.openInPlace key nonce aad ciphertext = some plaintext

theorem sound_empty : Sound crypto ∅ := by
  intro name fingerprint epoch held
  cases held

theorem authenticatedSnapshotCurrent_ok (ideal : Ideal crypto) {cache after : VerifiedSnapshotCache}
    {snapshot : VerifiedSecretSnapshot} (sound : Sound crypto cache)
    (done : authenticatedSnapshotCurrent crypto key file cache raw = .ok (snapshot, after)) :
    Sound crypto after ∧ ∃ nonce ciphertext plaintext, Opened crypto key file raw snapshot.metadata nonce ciphertext plaintext := by
  obtain ⟨name, named, done⟩ := bind_ok done
  obtain ⟨record, found, done⟩ := bind_ok done
  obtain ⟨nonce, decoded, done⟩ := bind_ok done
  obtain ⟨ciphertext, decoded', done⟩ := bind_ok done
  obtain ⟨aad, asked, done⟩ := bind_ok done
  obtain ⟨kept, verified, done⟩ := bind_ok done
  obtain ⟨rfl, rfl⟩ := Prod.mk.inj (ok.inj done)
  obtain ⟨held, bears, genuine⟩ := genuineRecord_ok named found
  obtain ⟨rfl, aadSmall⟩ := allocated_ok asked
  obtain ⟨decoded, nonceSmall⟩ := decodeOr_ok decoded
  obtain ⟨decoded', cipherSmall⟩ := decodeOr_ok decoded'
  unfold verifyOnce at verified
  split at verified
  · rename_i hit
    have same := ok.inj verified
    subst same
    refine ⟨sound, nonce, ciphertext, ?_⟩
    obtain ⟨⟨fingerprint, epoch⟩, cached, matches_⟩ := (any_eq_true _ _).mp hit
    simp only [Bool.and_eq_true, beq_iff_eq] at matches_
    obtain ⟨key', aad', nonce', ciphertext', plaintext, ofKey, ofRecord, small, opened⟩ := sound _ _ _ cached
    -- The key and the record that were verified before are the ones at hand.
    have keys : key = key' := Vector.toList_inj.mp (ideal.collisionFree (matches_.1.symm.trans ofKey))
    obtain ⟨rfl, rfl, rfl⟩ :=
      epochOf_inj ideal ⟨aadSmall, nonceSmall, cipherSmall⟩ small (matches_.2.symm.trans ofRecord)
    rw [← keys] at opened
    exact ⟨plaintext, by rw [bears]; exact named, genuine, ⟨record, by rw [bears]; exact held, rfl, decoded, decoded'⟩,
      ⟨aadSmall, nonceSmall, cipherSmall⟩, opened⟩
  · obtain ⟨⟨metadata, plaintext⟩, decrypted, verified⟩ := bind_ok verified
    have same := ok.inj verified
    obtain ⟨nonce', ciphertext', opened⟩ := decryptAuthenticatedBytes_ok decrypted
    obtain ⟨record', held', rfl, decodedNonce, decodedCipher⟩ := opened.held
    have names : record'.metadata.name = name := by
      have again := opened.named
      rw [normalizeSecretName_idem named] at again
      exact (ok.inj again).symm
    have records : record' = record := by
      rw [names, held] at held'
      exact (some.inj held').symm
    subst records
    rw [decoded] at decodedNonce
    rw [decoded'] at decodedCipher
    have nonces := ok.inj decodedNonce
    have ciphers := ok.inj decodedCipher
    subst nonces
    subst ciphers
    refine ⟨?_, nonce, ciphertext, plaintext, ?_, genuine, opened.held, opened.small, opened.opens⟩
    · subst same
      intro other fingerprint epoch cached
      rw [getElem?_insert] at cached
      split at cached
      · obtain ⟨rfl, rfl⟩ := Prod.mk.inj (some.inj cached)
        exact ⟨key, _, nonce, ciphertext, plaintext, rfl, rfl, opened.small, opened.opens⟩
      · exact sound other fingerprint epoch cached
    · rw [names]
      exact named

structure Sealed (crypto : Crypto) (a : Acceptance) : Prop where
  genuine : Genuine a.metadata
  small : (textBytes (canonicalAad a.metadata)).length < 2 ^ 63 ∧ a.ciphertext.length < 2 ^ 63
  sealed : crypto.sealInPlace a.key a.nonce.toList (textBytes (canonicalAad a.metadata)) (textBytes a.value) =
    some a.ciphertext
  lease : a.metadata.expiresAt = a.ends.map fromUnixMillis

def Acceptance.record (crypto : Crypto) (a : Acceptance) : EncryptedSecretRecord := recordOf crypto a.metadata a.nonce a.ciphertext

theorem setInner_stored {onlyIfAbsent : Bool} {stored : Stored}
    (done : setInner crypto key env disk args onlyIfAbsent = .ok (.stored stored)) :
    Sealed crypto (acceptance key args env stored) ∧
      ∃ file, readVaultFile disk = .ok file ∧
        stored.next = { file with
          secrets := file.secrets.insert stored.metadata.name ((acceptance key args env stored).record crypto) } := by
  obtain ⟨name, named, done⟩ := bind_ok done
  obtain ⟨policy, checked, done⟩ := bind_ok done
  obtain ⟨_, -, done⟩ := bind_ok done
  obtain ⟨file, read, done⟩ := bind_ok done
  split at done
  · cases ok.inj done
  obtain ⟨nonce, -, done⟩ := bind_ok done
  obtain ⟨aad, asked, done⟩ := bind_ok done
  obtain ⟨ciphertext, sealed, done⟩ := bind_ok done
  obtain ⟨_, -, done⟩ := bind_ok done
  have same := SetOutcome.stored.inj (ok.inj done)
  subst same
  obtain ⟨rfl, aadSmall⟩ := allocated_ok asked
  unfold sealValue at sealed
  split at sealed
  · cases sealed
  rename_i found boxed
  split at sealed
  · rename_i small
    have same := ok.inj sealed
    subst same
    refine ⟨⟨metadataOf_genuine named checked _ _, ⟨aadSmall, small⟩, boxed, ?_⟩, file, read, ?_⟩
    rotate_left
    · rfl
    show args.leaseTtlSecs.map (fun ttl => fromUnixMillis (leaseEnd env.nowMs ttl)) =
      (args.leaseTtlSecs.map (leaseEnd env.nowMs)).map fromUnixMillis
    rw [Option.map_map]
    rfl
  · cases sealed

variable {next : VaultFile}

theorem setInner_present {onlyIfAbsent : Bool}
    (done : setInner crypto key env disk args onlyIfAbsent = .ok (.present metadata next)) : readVaultFile disk = .ok next := by
  obtain ⟨name, -, done⟩ := bind_ok done
  obtain ⟨policy, -, done⟩ := bind_ok done
  obtain ⟨_, -, done⟩ := bind_ok done
  obtain ⟨file, read, done⟩ := bind_ok done
  split at done
  · obtain ⟨-, rfl⟩ := SetOutcome.present.inj (ok.inj done)
    exact read
  obtain ⟨nonce, -, done⟩ := bind_ok done
  obtain ⟨aad, -, done⟩ := bind_ok done
  obtain ⟨ciphertext, -, done⟩ := bind_ok done
  obtain ⟨_, -, done⟩ := bind_ok done
  cases ok.inj done

theorem removeInner_ok {existed : Bool}
    (named : normalizeSecretName raw = .ok name) (done : removeInner env disk raw = .ok (next, existed)) :
    ∃ file, readVaultFile disk = .ok file ∧
      next = if existed then { file with secrets := file.secrets.erase name } else file := by
  obtain ⟨name', named', done⟩ := bind_ok done
  rw [named] at named'
  have names := ok.inj named'
  subst names
  obtain ⟨_, -, done⟩ := bind_ok done
  obtain ⟨file, read, done⟩ := bind_ok done
  refine ⟨file, read, ?_⟩
  split at done
  · obtain ⟨rfl, rfl⟩ := Prod.mk.inj (ok.inj done)
    rfl
  · obtain ⟨_, -, done⟩ := bind_ok done
    obtain ⟨rfl, rfl⟩ := Prod.mk.inj (ok.inj done)
    rfl

theorem Unforged.grow {more : List Event} (unforged : Unforged crypto ours log file)
    (extends_ : ∀ a, accepted a ∈ log → accepted a ∈ more) : Unforged crypto ours more file := by
  intro name record ciphertext key nonce aad plaintext mine held decoded opened
  obtain ⟨a, logged, same⟩ := unforged mine held decoded opened
  exact ⟨a, extends_ a logged, same⟩

theorem unforged_empty : Unforged crypto ours log VaultFile.default := by
  intro name record ciphertext key nonce aad plaintext _ held
  cases held

theorem readVaultFile_unforged
    (unforged : UnforgedText crypto ours log disk) (read : readVaultFile disk = .ok file) : Unforged crypto ours log file := by
  cases disk with
  | absent =>
    have same := ok.inj read
    subst same
    exact unforged_empty
  | garbled cause => cases read
  | file held =>
    rw [readVaultFile] at read
    split at read
    · cases read
    · have same := ok.inj read
      subst same
      exact unforged held rfl

theorem readVaultFile_schema (read : readVaultFile disk = .ok file) :
    file.schemaVersion = vaultSchemaVersion := by
  cases disk with
  | absent =>
    have same := ok.inj read
    subst same
    rfl
  | garbled cause => cases read
  | file held =>
    rw [readVaultFile] at read
    split at read
    · cases read
    rename_i version
    have same := ok.inj read
    subst same
    exact Decidable.not_not.mp version

variable {a : Acceptance}

theorem Unforged.insert (ideal : Ideal crypto)
    (unforged : Unforged crypto ours log file) :
    Unforged crypto ours (.accepted a :: log) { file with secrets := file.secrets.insert name (a.record crypto) } := by
  intro other record ciphertext key nonce aad plaintext mine held decoded opened
  rw [getElem?_insert] at held
  split at held
  · have same := some.inj held
    subst same
    change crypto.decode (crypto.encode a.ciphertext) = _ at decoded
    rw [ideal.decodes] at decoded
    exact ⟨a, mem_cons_self, ok.inj decoded⟩
  · obtain ⟨b, logged, same⟩ := unforged mine held decoded opened
    exact ⟨b, mem_cons_of_mem _ logged, same⟩

theorem Unforged.erase (unforged : Unforged crypto ours log file) :
    Unforged crypto ours log { file with secrets := file.secrets.erase name } := by
  intro other record ciphertext key nonce aad plaintext mine held decoded opened
  rw [getElem?_erase] at held
  split at held
  · cases held
  · exact unforged mine held decoded opened

def Holds (crypto : Crypto) (disk : VaultText) (name : String) (a : Acceptance) : Prop :=
  ∃ file, readVaultFile disk = .ok file ∧ file.secrets[name]? = some (a.record crypto)

structure Inv (crypto : Crypto) (ours : MasterKey → Prop) (w : World) : Prop where
  disk : UnforgedText crypto ours w.log w.disk
  handles : ∀ h ∈ w.handles, Unforged crypto ours w.log h.file
  known : ∀ h ∈ w.handles, ours h.key
  sealed : ∀ a, accepted a ∈ w.log → Sealed crypto a
  caches : ∀ cache ∈ w.caches, Sound crypto cache
  stands : ∀ name a, standing w.log name = some a →
    accepted a ∈ w.log ∧ a.metadata.name = name ∧ Holds crypto w.disk name a

theorem inv_initial : Inv crypto ours initial where
  disk := by
    intro file same
    cases same
  handles := by
    intro h member
    cases member
  known := by
    intro h member
    cases member
  sealed := by
    intro a logged
    cases logged
  caches := by
    intro cache member
    cases member
  stands := by
    intro name a stands
    cases stands

section Steps

variable {w : World} {file : VaultFile}

section

variable (inv : Inv crypto ours w)

include inv

theorem Inv.readable (read : readVaultFile w.disk = .ok file) :
    Unforged crypto ours w.log file := readVaultFile_unforged inv.disk read

theorem Inv.cacheOf (h : Handle) : Sound crypto (w.cacheOf h) := by
  unfold World.cacheOf
  cases found : w.caches[h.cache]? with
  | none => exact sound_empty
  | some cache => exact inv.caches cache (mem_of_getElem? found)

theorem Inv.openVault (mine : ours key) : Inv crypto ours (w.openVault key) := by
  unfold World.openVault
  split
  · exact inv
  rename_i file read
  refine { inv with handles := ?_, known := ?_, caches := ?_ }
  · intro h member
    rcases mem_append.mp member with old | new
    · exact inv.handles h old
    · rw [mem_singleton.mp new]
      exact inv.readable read
  · intro h member
    rcases mem_append.mp member with old | new
    · exact inv.known h old
    · rw [mem_singleton.mp new]
      exact mine
  · intro cache member
    rcases mem_append.mp member with old | new
    · exact inv.caches cache old
    · rw [mem_singleton.mp new]
      exact sound_empty

variable {h : Handle} (mine : ours h.key)

include mine

theorem Inv.fresh : Inv crypto ours (w.fresh h) := by
  unfold World.fresh
  split
  · exact inv
  rename_i file read
  refine { inv with handles := ?_, known := ?_ }
  all_goals
    intro other member
    rcases mem_append.mp member with old | new
  · exact inv.handles other old
  · rw [mem_singleton.mp new]
    exact inv.readable read
  · exact inv.known other old
  · rw [mem_singleton.mp new]
    exact mine

theorem Inv.known_hold (i : Nat) (file : VaultFile) : ∀ other ∈ (w.hold i h file).handles, ours other.key := by
  intro other member
  rcases mem_or_eq_of_mem_set member with old | rfl
  · exact inv.known other old
  · exact mine

theorem Inv.hold {i : Nat} (unforged : Unforged crypto ours w.log file) : Inv crypto ours (w.hold i h file) := by
  refine { inv with handles := ?_, known := inv.known_hold mine i file }
  intro other member
  rcases mem_or_eq_of_mem_set member with old | rfl
  · exact inv.handles other old
  · exact unforged

end

theorem Inv.snapshot (ideal : Ideal crypto) (inv : Inv crypto ours w) (h : Handle) (name : String) :
    Inv crypto ours (w.snapshot crypto h name) := by
  unfold World.snapshot
  split
  · exact inv
  rename_i snapshot after taken
  refine { inv with caches := ?_ }
  intro cache member
  rcases mem_or_eq_of_mem_set member with old | rfl
  · exact inv.caches cache old
  · exact (authenticatedSnapshotCurrent_ok ideal (inv.cacheOf h) taken).1

theorem readVaultFile_file (schema : file.schemaVersion = vaultSchemaVersion) :
    readVaultFile (.file file) = .ok file := by
  rw [readVaultFile, if_neg (by rw [schema]; exact not_not_intro rfl)]

theorem Inv.set (ideal : Ideal crypto) (inv : Inv crypto ours w) (i : Nat) {h : Handle} (mine : ours h.key) (args : SetSecretArgs) (onlyIfAbsent : Bool)
    (env : WriteEnv) : Inv crypto ours (w.set crypto i h args onlyIfAbsent env) := by
  unfold World.set
  split
  · exact inv
  · rename_i metadata next done
    exact inv.hold mine (inv.readable (setInner_present done))
  rename_i stored done
  obtain ⟨sealed, file, read, next⟩ := setInner_stored done
  have schema := readVaultFile_schema read
  have unforged : Unforged crypto ours (.accepted (acceptance h.key args env stored) :: w.log) stored.next := by
    rw [next]
    exact (inv.readable read).insert ideal
  have earlier : ∀ a, accepted a ∈ w.log → accepted a ∈ accepted (acceptance h.key args env stored) :: w.log :=
    fun a logged => mem_cons_of_mem _ logged
  refine ⟨?_, ?_, inv.known_hold mine i _, ?_, inv.caches, ?_⟩
  · intro other same
    cases same
    exact unforged
  · intro other member
    rcases mem_or_eq_of_mem_set member with old | rfl
    · exact (inv.handles other old).grow earlier
    · exact unforged
  · intro a logged
    rcases mem_cons.mp logged with new | old
    · rw [accepted.inj new]
      exact sealed
    · exact inv.sealed a old
  · intro name a stands
    have reread : readVaultFile (.file stored.next) = .ok stored.next := readVaultFile_file (by rw [next]; exact schema)
    rw [standing] at stands
    split at stands
    · rename_i named
      have same := some.inj stands
      subst same
      refine ⟨mem_cons_self, named, stored.next, reread, ?_⟩
      have written : stored.metadata.name = name := named
      rw [next]
      rw [getElem?_insert, if_pos written]
    · rename_i other
      obtain ⟨logged, bears, held, disk, found⟩ := inv.stands name a stands
      rw [read] at disk
      have same := ok.inj disk
      subst same
      refine ⟨mem_cons_of_mem _ logged, bears, stored.next, reread, ?_⟩
      have apart : stored.metadata.name ≠ name := other
      rw [next]
      rw [getElem?_insert, if_neg apart]
      exact found

theorem Inv.remove (inv : Inv crypto ours w) (i : Nat) {h : Handle} (mine : ours h.key) (raw : String) (env : WriteEnv) :
    Inv crypto ours (w.remove i h raw env) := by
  unfold World.remove
  split
  · rename_i name next named done
    obtain ⟨file, read, same⟩ := removeInner_ok named done
    subst same
    exact inv.hold mine (inv.readable read)
  · rename_i name next named done
    obtain ⟨file, read, same⟩ := removeInner_ok named done
    rw [if_pos rfl] at same
    have schema := readVaultFile_schema read
    have unforged : Unforged crypto ours (.removed name :: w.log) next := by
      rw [same]
      exact (inv.readable read).erase.grow fun a logged => mem_cons_of_mem _ logged
    refine ⟨?_, ?_, inv.known_hold mine i _, ?_, inv.caches, ?_⟩
    · intro other held
      cases held
      exact unforged
    · intro other member
      rcases mem_or_eq_of_mem_set member with old | rfl
      · exact (inv.handles other old).grow fun a logged => mem_cons_of_mem _ logged
      · exact unforged
    · intro a logged
      rcases mem_cons.mp logged with new | old
      · cases new
      · exact inv.sealed a old
    intro other a stands
    rw [standing] at stands
    split at stands
    · cases stands
    rename_i apart
    obtain ⟨logged, bears, held, disk, found⟩ := inv.stands other a stands
    rw [read] at disk
    have files := ok.inj disk
    subst files
    refine ⟨mem_cons_of_mem _ logged, bears, next, readVaultFile_file (by rw [same]; exact schema), ?_⟩
    rw [same]
    rw [getElem?_erase, if_neg apart]
    exact found
  · exact inv

theorem Inv.overwrite (inv : Inv crypto ours w) {text : VaultText} (unforged : UnforgedText crypto ours w.log text) :
    Inv crypto ours { w with disk := text, log := .overwritten :: w.log } := by
  refine ⟨?_, ?_, inv.known, ?_, inv.caches, ?_⟩
  · intro file same
    exact (unforged file same).grow fun a logged => mem_cons_of_mem _ logged
  · intro h member
    exact (inv.handles h member).grow fun a logged => mem_cons_of_mem _ logged
  · intro a logged
    rcases mem_cons.mp logged with new | old
    · cases new
    · exact inv.sealed a old
  · intro name a stands
    cases stands

theorem Inv.step (ideal : Ideal crypto) (w : World) (op : Op) (inv : Inv crypto ours w) (permitted : Permitted crypto ours w op) :
    Inv crypto ours (w.step crypto op).1 := by
  have through : ∀ (i : Nat) (f : Handle → World), (∀ h, ours h.key → Inv crypto ours (f h)) →
      Inv crypto ours ((w.handles[i]?).elim w f) := by
    intro i f each
    cases found : w.handles[i]? with
    | none => exact inv
    | some h => exact each h (inv.known h (mem_of_getElem? found))
  cases op with
  | openVault key => exact inv.openVault permitted
  | fresh i => exact through i _ fun h mine => inv.fresh mine
  | set i args onlyIfAbsent env => exact through i _ fun h mine => inv.set ideal i mine args onlyIfAbsent env
  | remove i name env => exact through i _ fun h mine => inv.remove i mine name env
  | snapshot i name => exact through i _ fun h _ => inv.snapshot ideal h name
  | overwrite text => exact inv.overwrite permitted

end Steps

theorem reachable_inv (ideal : Ideal crypto) {ops : List Op}
    (permitted : Throughout (step crypto) (Permitted crypto ours) initial ops) :
    Inv crypto ours (run (step crypto) initial ops) := by
  have kept : Throughout (step crypto) (fun w op => Inv crypto ours w → Inv crypto ours (w.step crypto op).1) initial ops :=
    @Throughout.mono _ _ _ (step crypto) (Inv crypto ours) _ _ (fun w op inv each => inv.step ideal w op each)
      (fun w op _ each inv => inv.step ideal w op each) _ inv_initial _ permitted
  exact kept.keeps inv_initial

theorem Opened.stored (ideal : Ideal crypto)
    {nonce ciphertext : List UInt8}
    (opened : Opened crypto key file raw metadata nonce ciphertext plaintext) (mine : ours key)
    (unforged : Unforged crypto ours log file)
    (sealed : ∀ a, accepted a ∈ log → Sealed crypto a) :
    ∃ a, accepted a ∈ log ∧ a.key = key ∧ normalizeSecretName raw = .ok a.metadata.name ∧
      SamePolicy a.metadata metadata ∧ textBytes a.value = plaintext := by
  obtain ⟨record, held, -, -, decoded⟩ := opened.held
  obtain ⟨a, logged, ciphers⟩ := unforged mine held decoded opened.opens
  have boxed := (sealed a logged).sealed
  rw [ciphers] at boxed
  obtain ⟨keys, nonces, aads⟩ := ideal.exact boxed opened.opens
  have plaintexts := ideal.opens boxed
  rw [← keys, ← nonces, ← aads, opened.opens] at plaintexts
  have policies := canonicalAad_inj (sealed a logged).genuine opened.genuine (textBytes_inj aads.symm)
  refine ⟨a, logged, keys.symm, ?_, policies, (some.inj plaintexts).symm⟩
  rw [policies.name]
  exact opened.named

variable {nowMs : Nat} {value : String}

theorem decryptRaw_ok
    (done : decryptRaw crypto key nowMs file raw = .ok (metadata, value)) :
    ∃ plaintext, decryptAuthenticatedBytes crypto key file raw = .ok (metadata, plaintext) ∧ ofUtf8 plaintext = some value := by
  obtain ⟨⟨found, plaintext⟩, decrypted, done⟩ := bind_ok done
  obtain ⟨opened, authenticated, decrypted⟩ := bind_ok decrypted
  obtain ⟨_, -, decrypted⟩ := bind_ok decrypted
  have same := ok.inj decrypted
  subst same
  split at done
  · cases done
  · rename_i text utf8
    obtain ⟨rfl, rfl⟩ := Prod.mk.inj (ok.inj done)
    exact ⟨plaintext, authenticated, utf8⟩

theorem checkLease_runs (sealed : Sealed crypto a)
    (running : ∀ e, a.ends = some e → nowMs ≤ e) : checkLease nowMs a.metadata = .ok () := by
  unfold checkLease
  rw [sealed.lease]
  rcases ends : a.ends with _ | e
  · rfl
  rw [map_some]
  dsimp only
  rw [if_neg (fromUnixMillis_ordered (running e ends))]

theorem allocated_small (small : bytes.length < 2 ^ 63) : allocated bytes = .ok bytes := by
  unfold allocated
  rw [if_pos small]

theorem decodeOr_encode (ideal : Ideal crypto) {what : String} (small : bytes.length < 2 ^ 63) :
    decodeOr crypto what (crypto.encode bytes) = .ok bytes := by
  unfold decodeOr
  rw [ideal.decodes]
  exact allocated_small small

section ReadsBack

variable {a : Acceptance} {file : VaultFile} {raw name : String}

theorem genuineRecord_stored (sealed : Sealed crypto a) (bears : a.metadata.name = name)
    (held : file.secrets[name]? = some (a.record crypto)) : genuineRecord file name = .ok (a.record crypto) := by
  unfold genuineRecord
  rw [held]
  dsimp only
  rw [if_neg]
  rw [not_or]
  exact ⟨not_not_intro bears, Bool.not_eq_false _ ▸ sealed.genuine.valid⟩

section

variable (ideal : Ideal crypto) (sealed : Sealed crypto a) (named : normalizeSecretName raw = .ok name) (bears : a.metadata.name = name) (held : file.secrets[name]? = some (a.record crypto))

include ideal sealed named bears held

theorem decrypt_stored : decryptAuthenticatedBytes crypto a.key file raw = .ok (a.metadata, textBytes a.value) := by
  have opens : openRecord crypto a.key name a.nonce.toList (textBytes (canonicalAad a.metadata)) a.ciphertext =
      .ok (textBytes a.value) := by
    unfold openRecord
    rw [ideal.opens sealed.sealed]
  have twelve : a.nonce.toList.length = nonceLen := by
    rw [Vector.length_toList]
    rfl
  unfold decryptAuthenticatedBytes
  rw [named]
  show (genuineRecord file name >>= _) = _
  rw [genuineRecord_stored sealed bears held]
  show (decodeOr crypto _ (crypto.encode a.nonce.toList) >>= _) = _
  rw [decodeOr_encode ideal (by rw [twelve]; decide)]
  show (refuseIf _ _ >>= _) = _
  unfold refuseIf
  rw [if_neg (not_not_intro twelve)]
  show (decodeOr crypto _ (crypto.encode a.ciphertext) >>= _) = _
  rw [decodeOr_encode ideal sealed.small.2]
  show (aadBytes a.metadata >>= _) = _
  unfold aadBytes
  rw [allocated_small sealed.small.1]
  show (openRecord crypto a.key name a.nonce.toList (textBytes (canonicalAad a.metadata)) a.ciphertext >>= _) = _
  rw [opens]
  rfl

theorem decryptRaw_stored (running : ∀ e, a.ends = some e → nowMs ≤ e) :
    decryptRaw crypto a.key nowMs file raw = .ok (a.metadata, a.value) := by
  have bytes : decryptBytes crypto a.key nowMs file raw = .ok (a.metadata, textBytes a.value) := by
    unfold decryptBytes
    rw [decrypt_stored ideal sealed named bears held]
    show (checkLease nowMs a.metadata >>= _) = _
    rw [checkLease_runs sealed running]
    rfl
  unfold decryptRaw
  rw [bytes, ok_bind]
  simp only [ofUtf8_textBytes]
  rfl

theorem snapshot_stored (running : ∀ e, a.ends = some e → nowMs ≤ e) (cache : VerifiedSnapshotCache) :
    ∃ snapshot, verifiedSnapshotCurrent crypto a.key nowMs file cache raw = .ok snapshot ∧ snapshot.metadata = a.metadata := by
  have twelve : a.nonce.toList.length < 2 ^ 63 := by
    rw [Vector.length_toList]
    decide
  have verified : ∀ epoch, ∃ after, verifyOnce crypto a.key file cache name epoch = .ok after := by
    intro epoch
    unfold verifyOnce
    split
    · exact ⟨cache, rfl⟩
    · rw [decrypt_stored ideal sealed (normalizeSecretName_idem named) bears held]
      exact ⟨_, rfl⟩
  obtain ⟨after, kept⟩ :=
    verified (epochOf crypto (textBytes (canonicalAad a.metadata)) a.nonce.toList a.ciphertext)
  have taken : authenticatedSnapshotCurrent crypto a.key file cache raw =
      .ok (⟨a.metadata, epochOf crypto (textBytes (canonicalAad a.metadata)) a.nonce.toList a.ciphertext⟩, after) := by
    unfold authenticatedSnapshotCurrent
    rw [named]
    show (genuineRecord file name >>= _) = _
    rw [genuineRecord_stored sealed bears held]
    show (decodeOr crypto _ (crypto.encode a.nonce.toList) >>= _) = _
    rw [decodeOr_encode ideal twelve]
    show (decodeOr crypto _ (crypto.encode a.ciphertext) >>= _) = _
    rw [decodeOr_encode ideal sealed.small.2]
    show (aadBytes a.metadata >>= _) = _
    unfold aadBytes
    rw [allocated_small sealed.small.1]
    show (verifyOnce crypto a.key file cache name _ >>= _) = _
    rw [kept]
    rfl
  refine ⟨⟨a.metadata, epochOf crypto (textBytes (canonicalAad a.metadata)) a.nonce.toList a.ciphertext⟩, ?_, rfl⟩
  unfold verifiedSnapshotCurrent
  rw [taken]
  show (checkLease nowMs a.metadata >>= _) = _
  rw [checkLease_runs sealed running]
  rfl

end

end ReadsBack

/-- After any history of set and remove calls, and with any files that someone without the keys put in the vault's place: a
name is read only with a value and a policy that one accepted set call stored together under it, and what stands under a
name is read back with its own value and policy while its lease runs. -/
theorem policy_stays_bound (ideal : Ideal crypto) {ops : List Op} {w : World}
    (permitted : Throughout (step crypto) (Permitted crypto ours) initial ops)
    (reached : run (step crypto) initial ops = w) :
    (∀ h ∈ w.handles, ∀ raw : String,
      (∀ nowMs metadata value, decryptRaw crypto h.key nowMs h.file raw = .ok (metadata, value) →
        ∃ a, accepted a ∈ w.log ∧ a.key = h.key ∧ normalizeSecretName raw = .ok a.metadata.name ∧
          SamePolicy a.metadata metadata ∧ a.value = value) ∧
      ∀ snapshot cache, authenticatedSnapshotCurrent crypto h.key h.file (w.cacheOf h) raw = .ok (snapshot, cache) →
        ∃ a, accepted a ∈ w.log ∧ a.key = h.key ∧ normalizeSecretName raw = .ok a.metadata.name ∧
          SamePolicy a.metadata snapshot.metadata) ∧
    ∀ name a raw nowMs, standing w.log name = some a → normalizeSecretName raw = .ok name →
      (∀ e, a.ends = some e → nowMs ≤ e) →
        ∃ file, readVaultFile w.disk = .ok file ∧
          decryptRaw crypto a.key nowMs file raw = .ok (a.metadata, a.value) ∧
          ∀ cache, ∃ snapshot, verifiedSnapshotCurrent crypto a.key nowMs file cache raw = .ok snapshot ∧
            snapshot.metadata = a.metadata := by
  have inv := reachable_inv ideal permitted
  rw [reached] at inv
  refine ⟨?_, ?_⟩
  · intro h member raw
    refine ⟨?_, ?_⟩
    · intro nowMs metadata value done
      obtain ⟨plaintext, decrypted, utf8⟩ := decryptRaw_ok done
      obtain ⟨nonce, ciphertext, opened⟩ := decryptAuthenticatedBytes_ok decrypted
      obtain ⟨a, logged, keys, named, policies, bytes⟩ := opened.stored ideal (inv.known h member) (inv.handles h member) inv.sealed
      rw [← bytes, ofUtf8_textBytes] at utf8
      exact ⟨a, logged, keys, named, policies, some.inj utf8⟩
    · intro snapshot cache taken
      obtain ⟨-, nonce, ciphertext, plaintext, opened⟩ := authenticatedSnapshotCurrent_ok ideal (inv.cacheOf h) taken
      obtain ⟨a, logged, keys, named, policies, -⟩ := opened.stored ideal (inv.known h member) (inv.handles h member) inv.sealed
      exact ⟨a, logged, keys, named, policies⟩
  · intro name a raw nowMs stands named running
    obtain ⟨logged, bears, file, read, held⟩ := inv.stands name a stands
    have sealed := inv.sealed a logged
    exact ⟨file, read, decryptRaw_stored ideal sealed named bears held running,
      snapshot_stored ideal sealed named bears held running⟩

/-- A byte string with its end marked. -/
def packed (bytes : List UInt8) : List UInt8 := bytes.flatMap (fun b => [1, b]) ++ [0]

def unpacked : List UInt8 → Option (List UInt8)
  | [0] => some []
  | 1 :: b :: rest => (unpacked rest).map (b :: ·)
  | _ => none

theorem unpacked_packed (bytes : List UInt8) : unpacked (packed bytes) = some bytes := by
  induction bytes with
  | nil => rfl
  | cons b rest ih =>
    show (unpacked (packed rest)).map (b :: ·) = _
    rw [ih]
    rfl

theorem packed_inj {a b rest rest' : List UInt8} (same : packed a ++ rest = packed b ++ rest') : a = b ∧ rest = rest' := by
  induction a generalizing b with
  | nil =>
    cases b with
    | nil => exact ⟨rfl, (List.cons.inj same).2⟩
    | cons y ys => exact absurd (List.cons.inj same).1 (by decide)
  | cons x xs ih =>
    rcases b with _ | ⟨y, ys⟩
    · exact absurd (List.cons.inj same).1 (by decide)
    obtain ⟨-, more⟩ := List.cons.inj same
    obtain ⟨first, others⟩ := List.cons.inj more
    obtain ⟨equal, left⟩ := ih others
    exact ⟨by rw [first, equal], left⟩

def sealedUnder (key : MasterKey) (nonce aad : List UInt8) : List UInt8 := packed key.toList ++ (packed nonce ++ packed aad)

def plainCrypto : Crypto where
  sealInPlace key nonce aad plaintext := some (sealedUnder key nonce aad ++ packed plaintext)
  openInPlace key nonce aad ciphertext :=
    if (sealedUnder key nonce aad).isPrefixOf ciphertext then unpacked (ciphertext.drop (sealedUnder key nonce aad).length)
    else none
  sha256 bytes := bytes
  encode bytes := String.ofList (encode standard bytes)
  decode text := (decode standard text.toList).elim (.error "Invalid symbol") .ok

theorem plainCrypto_ideal : Ideal plainCrypto where
  opens := by
    intro key nonce aad plaintext ciphertext boxed
    have same : sealedUnder key nonce aad ++ packed plaintext = ciphertext := some.inj boxed
    subst same
    show (if _ then unpacked _ else none) = _
    rw [if_pos ( isPrefixOf_iff_prefix.mpr (prefix_append _ _)), drop_left, unpacked_packed]
  exact := by
    intro key nonce aad plaintext ciphertext key' nonce' aad' plaintext' boxed opened
    have same : sealedUnder key nonce aad ++ packed plaintext = ciphertext := some.inj boxed
    subst same
    change (if _ then unpacked _ else none) = _ at opened
    split at opened
    · rename_i starts
      obtain ⟨rest, whole⟩ := isPrefixOf_iff_prefix.mp starts
      unfold sealedUnder at whole
      simp only [append_assoc] at whole
      obtain ⟨keys, whole⟩ := packed_inj whole
      obtain ⟨nonces, whole⟩ := packed_inj whole
      obtain ⟨aads, -⟩ := packed_inj whole
      exact ⟨Vector.toList_inj.mp keys, nonces, aads⟩
    · cases opened
  collisionFree := fun same => same
  decodes := by
    intro bytes
    show (decode standard (String.ofList _).toList).elim _ _ = _
    rw [String.toList_ofList, decode_encode standard_alphabet]
    rfl

def sampleKey : MasterKey := Vector.replicate 32 7

def sampleArgs : SetSecretArgs where
  name := "api_key"
  value := "k-1"
  description := none
  allowedHosts := ["api.example.com"]
  allowedMethods := []
  allowedAgents := []
  allowPrivateNetwork := false
  leaseTtlSecs := some 60
  usage := .proxy
  bundleRequired := false
  appBinding := none

def sampleEnv : WriteEnv where
  locked := .ok ()
  nowMs := 1000
  nonce := some (Vector.replicate 12 3)
  replaced := .ok ()

def sampleOps : List Op := [.openVault sampleKey, .set 0 sampleArgs false sampleEnv]

theorem sample_hosts : normalizeStringList ["api.example.com"] true = ["api.example.com"] := by
  have listed : (["api.example.com"].map fun s => if true then toAsciiLowercase (trim s) else trim s).filter (· ≠ "") =
      ["api.example.com"] := by decide +kernel
  unfold normalizeStringList
  dsimp only
  rw [listed, mergeSort_singleton]
  rfl

theorem sample_none (lowercase : Bool) : normalizeStringList [] lowercase = [] := by
  unfold normalizeStringList
  dsimp only
  rw [map_nil, filter_nil, mergeSort_nil]
  rfl

theorem policyOf_normal {hosts methods agents : List String}
    (filled : args.value ≠ "") (unbound : args.appBinding = none) (isHosts : normalizeStringList args.allowedHosts true = hosts)
    (isMethods : (normalizeStringList args.allowedMethods false).map toAsciiUppercase = methods)
    (isAgents : normalizeStringList args.allowedAgents true = agents)
    (undelimited : (hosts ++ methods ++ agents).find? delimited = none) :
    policyOf args name = .ok ⟨hosts, methods, agents, none⟩ := by
  unfold policyOf
  rw [unbound, isHosts, isMethods, isAgents]
  dsimp only
  rw [undelimited]
  unfold refuseIf
  rw [if_neg filled]
  rfl

theorem setInner_inserts {env : WriteEnv} {args : SetSecretArgs} {name : String} {policy : Policy}
    {nonce : NonceBytes} {ciphertext : List UInt8} {onlyIfAbsent : Bool} (named : normalizeSecretName args.name = .ok name)
    (checked : policyOf args name = .ok policy) (locked : env.locked = .ok ()) (drawn : env.nonce = some nonce)
    (small : (textBytes (canonicalAad (metadataOf args name policy none env.nowMs))).length < 2 ^ 63)
    (boxed : sealValue crypto key nonce (textBytes (canonicalAad (metadataOf args name policy none env.nowMs))) args.value =
      .ok ciphertext)
    (replaced : env.replaced = .ok ()) :
    ∃ stored, setInner crypto key env .absent args onlyIfAbsent = .ok (.stored stored) ∧
      stored.metadata = metadataOf args name policy none env.nowMs := by
  have absent : VaultFile.default.secrets[name]? = none := ExtTreeMap.getElem?_empty
  have drew : drawNonce env = .ok nonce := by
    unfold drawNonce
    rw [drawn]
  have aad : aadBytes (metadataOf args name policy none env.nowMs) =
      .ok (textBytes (canonicalAad (metadataOf args name policy none env.nowMs))) := allocated_small small
  generalize given : metadataOf args name policy none env.nowMs = metadata at *
  have inserted : ∃ stored, insertRecord crypto key env VaultFile.default metadata args.value = .ok (.stored stored) ∧
      stored.metadata = metadata := by
    unfold insertRecord
    rw [drew]
    show ∃ stored, (aadBytes metadata >>= _) = _ ∧ _
    rw [aad]
    show ∃ stored, (sealValue crypto key nonce _ args.value >>= _) = _ ∧ _
    rw [boxed]
    show ∃ stored, (env.replaced >>= _) = _ ∧ _
    rw [replaced]
    exact ⟨_, rfl, rfl⟩
  obtain ⟨stored, done, same⟩ := inserted
  refine ⟨stored, ?_, same⟩
  unfold setInner
  rw [named]
  show (policyOf args name >>= _) = _
  rw [checked]
  show (env.locked >>= _) = _
  rw [locked]
  dsimp only [bind, Except.bind, readVaultFile]
  rw [absent, filter_none]
  dsimp only
  rw [given]
  exact done

theorem set_log {w : World} {i : Nat} {h : Handle} {args : SetSecretArgs} {onlyIfAbsent : Bool} {env : WriteEnv} {stored : Stored}
    (done : setInner crypto h.key env w.disk args onlyIfAbsent = .ok (.stored stored)) :
    (w.set crypto i h args onlyIfAbsent env).log = .accepted (acceptance h.key args env stored) :: w.log := by
  unfold World.set
  rw [done]

theorem sealValue_plain {nonce : NonceBytes} {aad : List UInt8}
    (small : (sealedUnder key nonce.toList aad ++ packed (textBytes value)).length < 2 ^ 63) :
    sealValue plainCrypto key nonce aad value = .ok (sealedUnder key nonce.toList aad ++ packed (textBytes value)) := by
  show (if _ then _ else _) = _
  rw [if_pos small]

theorem sample_set : ∃ stored, setInner plainCrypto sampleKey sampleEnv .absent sampleArgs false = .ok (.stored stored) ∧
    stored.metadata.name = "API_KEY" := by
  have checked : policyOf sampleArgs "API_KEY" = .ok ⟨["api.example.com"], [], [], none⟩ :=
    policyOf_normal (by decide +kernel) rfl sample_hosts (by rw [show sampleArgs.allowedMethods = [] from rfl, sample_none]; rfl)
      (sample_none true) (by decide +kernel)
  obtain ⟨stored, done, same⟩ := @setInner_inserts plainCrypto sampleKey sampleEnv sampleArgs "API_KEY" _ _ _ false
    (by decide +kernel) checked rfl rfl (by decide +kernel) (sealValue_plain (by decide +kernel)) rfl
  refine ⟨stored, done, ?_⟩
  rw [same]
  rfl

/-- A secret with a lease of a minute is read back a second later. -/
theorem sample_reads_back :
    ∃ (file : VaultFile) (a : Acceptance), readVaultFile (run (step plainCrypto) initial sampleOps).disk = .ok file ∧
      a.value = "k-1" ∧ decryptRaw plainCrypto a.key 2000 file "api_key" = .ok (a.metadata, a.value) := by
  obtain ⟨stored, done, bears⟩ := sample_set
  have log : (run (step plainCrypto) initial sampleOps).log =
      [.accepted (acceptance sampleKey sampleArgs sampleEnv stored)] := by
    exact @set_log plainCrypto (initial.openVault sampleKey) 0 ⟨sampleKey, VaultFile.default, 0⟩ sampleArgs false
      sampleEnv stored done
  have stands : standing (run (step plainCrypto) initial sampleOps).log "API_KEY" =
      some (acceptance sampleKey sampleArgs sampleEnv stored) := by
    rw [log, standing]
    exact if_pos bears
  have permitted : Throughout (step plainCrypto) (Permitted plainCrypto (· = sampleKey)) initial sampleOps :=
    ⟨rfl, trivial, trivial⟩
  obtain ⟨file, read, back, -⟩ := (policy_stays_bound plainCrypto_ideal permitted rfl).2 "API_KEY" _ "api_key" 2000 stands
    (by decide +kernel) (by
      intro e ends
      have same : leaseEnd 1000 60 = e := some.inj ends
      rw [← same]
      decide +kernel)
  exact ⟨file, _, read, rfl, back⟩

end FerroLoop.Vault

import FerroLoop.Gate.Errors
import FerroLoop.Governor.Endpoints
import FerroLoop.Lib.Bytes
import FerroLoop.Lib.Ipv6
import FerroLoop.Lib.Map
import FerroLoop.Lib.Word
import FerroLoop.Vault.Instants
import Mathlib.Data.List.Destutter

/-!
Records of the secrets vault (`crates/gate/src/vault.rs`): how a secret and its policy are sealed together, when the
metadata of a record is taken for genuine, and how a record is read. AES-256-GCM, SHA-256 and Base64 are what the
`ring` and `base64` crates compute; a vault file is held as the value its JSON spells.
-/

namespace FerroLoop.Vault

open Std Text Checked Word Gate

inductive SecretUsage where
  | proxy
  | signJwtRs256
  deriving DecidableEq

structure AppBinding where
  issuer : String
  origin : String
  deriving DecidableEq

structure VaultSecretMetadata where
  name : String
  description : Option String
  allowedHosts : List String
  allowedMethods : List String
  allowedAgents : List String
  allowPrivateNetwork : Bool
  createdAt : String
  updatedAt : String
  leaseTtlSecs : Option UInt64
  expiresAt : Option String
  usage : SecretUsage
  bundleRequired : Bool
  appBinding : Option AppBinding
  deriving DecidableEq

structure SetSecretArgs where
  name : String
  value : String
  description : Option String
  allowedHosts : List String
  allowedMethods : List String
  allowedAgents : List String
  allowPrivateNetwork : Bool
  leaseTtlSecs : Option UInt64
  usage : SecretUsage
  bundleRequired : Bool
  appBinding : Option AppBinding

structure EncryptedSecretRecord where
  metadata : VaultSecretMetadata
  nonceB64 : String
  ciphertextB64 : String
  deriving DecidableEq

def vaultSchemaVersion : Nat := 1

structure VaultFile where
  schemaVersion : Nat
  secrets : ExtTreeMap String EncryptedSecretRecord compare

def VaultFile.default : VaultFile where
  schemaVersion := vaultSchemaVersion
  secrets := ∅

inductive VaultText where
  | absent
  /-- No JSON of a vault file, with what the reader objects to. -/
  | garbled (cause : String)
  | file (file : VaultFile)

abbrev MasterKey := Vector UInt8 32

def nonceLen : Nat := 12

abbrev NonceBytes := Vector UInt8 12

/-- What the `ring` and `base64` crates compute. -/
structure Crypto where
  sealInPlace : (key : MasterKey) → (nonce aad plaintext : List UInt8) → Option (List UInt8)
  openInPlace : (key : MasterKey) → (nonce aad ciphertext : List UInt8) → Option (List UInt8)
  sha256 : List UInt8 → List UInt8
  encode : List UInt8 → String
  decode : String → Except String (List UInt8)

def ofUtf8 (bytes : List UInt8) : Option String := String.fromUTF8? ⟨bytes.toArray⟩

def nameChar (c : Char) : Bool := c.isUpper || c.isDigit || c == '_'

def normalizeSecretName (raw : String) : Except GateError String :=
  let trimmed := toAsciiUppercase (trim raw)
  if trimmed = "" ∨ 64 < trimmed.utf8ByteSize then
    .error (.invalidSecret raw "secret name must be 1 to 64 characters")
  else if !trimmed.toList.all nameChar then
    .error (.invalidSecret raw "secret name may contain only ASCII letters, digits, and `_`")
  else .ok trimmed

def normalizeStringList (items : List String) (lowercase : Bool) : List String :=
  let out := (items.map fun s => if lowercase then toAsciiLowercase (trim s) else trim s).filter (· ≠ "")
  (out.mergeSort fun a b => decide (a ≤ b)).destutter (· ≠ ·)

def beyondOrigin (c : Char) : Bool := c == '/' || c == '?' || c == '#' || c == '@'

def writtenOrigin (host : String) (port : UInt16) : String :=
  "https://" ++ ((if ':' ∈ host.toList then "[" ++ host ++ "]" else host) ++ (":" ++ toString port.toNat))

def normalizeSigningOrigin (raw : String) : Except GateError String :=
  if trim raw ≠ raw ∨ raw.toList.any isControl then .error (.invalidUrl raw "origin has whitespace or controls")
  else
    match splitOnce "://" raw with
    | none => .error (.invalidUrl raw "origin needs a scheme")
    | some (_, authority) =>
      if authority.toList.any beyondOrigin then
        .error (.invalidUrl raw "origin must not contain credentials, path, query or fragment")
      else
        match Governor.parseUrlSchemeHostPort Ipv6.isIpv6 raw with
        | .error e => .error (.invalidUrl e.url e.reason)
        | .ok (scheme, host, port) =>
          if scheme ≠ "https" ∨ port = 0 then
            .error (.invalidUrl raw "signing origin requires HTTPS and a valid port")
          else .ok (writtenOrigin host port)

def issuerChar (c : Char) : Bool := c.isAlphanum || c == '.' || c == '_' || c == '-'

def validIssuer (issuer : String) : Bool :=
  issuer ≠ "" && issuer.utf8ByteSize ≤ 64 && issuer.toList.all issuerChar

def boolText (b : Bool) : String := if b then "true" else "false"

def usageText : SecretUsage → String
  | .proxy => "proxy"
  | .signJwtRs256 => "sign-jwt-rs256"

def barred (fields : List String) : String := String.intercalate "|" fields

section

variable (metadata : VaultSecretMetadata)

/-- The associated data of a record: one format for a plain record, another with the fields a plain record has not. -/
def canonicalAad : String :=
  let hosts := String.intercalate "," metadata.allowedHosts
  let methods := String.intercalate "," metadata.allowedMethods
  let agents := String.intercalate "," metadata.allowedAgents
  let exp := metadata.expiresAt.getD "none"
  if metadata.usage = .proxy ∧ metadata.bundleRequired = false ∧ metadata.appBinding = none then
    barred ["ferrogate:v1", metadata.name, hosts, methods, agents, boolText metadata.allowPrivateNetwork, exp]
  else
    barred ["ferrogate:v2", metadata.name, hosts, methods, agents, boolText metadata.allowPrivateNetwork, exp, usageText metadata.usage,
      boolText metadata.bundleRequired, (metadata.appBinding.map AppBinding.issuer).getD "none",
      (metadata.appBinding.map AppBinding.origin).getD "none"]

def delimited (item : String) : Bool := item.toList.any fun c => c == '|' || c == ','

def VaultSecretMetadata.policyItems : List String :=
  metadata.allowedHosts ++ metadata.allowedMethods ++ metadata.allowedAgents

def validBinding (usage : SecretUsage) : Option AppBinding → Bool
  | none => true
  | some binding =>
    usage = .signJwtRs256 && validIssuer binding.issuer &&
      (normalizeSigningOrigin binding.origin).toOption == some binding.origin

def validAuthenticatedMetadata : Bool :=
  !(metadata.policyItems.any fun item => trim item == "" || delimited item) &&
    !(metadata.expiresAt.any fun value => (parse value).isNone) && validBinding metadata.usage metadata.appBinding

/-- A byte string that was asked for. No allocation is longer than `isize::MAX`. -/
def allocated (bytes : List UInt8) : Except GateError (List UInt8) :=
  if bytes.length < 2 ^ 63 then .ok bytes else .error .panicked

def aadBytes : Except GateError (List UInt8) := allocated (textBytes (canonicalAad metadata))

end

section Read

variable (crypto : Crypto) (key : MasterKey)

def readVaultFile : VaultText → Except GateError VaultFile
  | .absent => .ok VaultFile.default
  | .garbled cause => .error (.vaultCorrupt cause)
  | .file file =>
    if file.schemaVersion ≠ vaultSchemaVersion then
      .error (.vaultCorrupt ("unsupported vault schema_version " ++ toString file.schemaVersion))
    else .ok file

def decodeOr (what : String) (text : String) : Except GateError (List UInt8) :=
  match crypto.decode text with
  | .error e => .error (.vaultCorrupt (what ++ e))
  | .ok bytes => allocated bytes

section

variable (file : VaultFile)

def getMetadata (name : String) : Option VaultSecretMetadata :=
  (normalizeSecretName name).toOption.bind fun key => (file.secrets[key]?).map (·.metadata)

def genuineRecord (name : String) : Except GateError EncryptedSecretRecord :=
  match file.secrets[name]? with
  | none => .error (.noSuchSecret name)
  | some record =>
    if record.metadata.name ≠ name ∨ validAuthenticatedMetadata record.metadata = false then .error (.vaultTampered name)
    else .ok record

def openRecord (name : String) (nonce aad ciphertext : List UInt8) : Except GateError (List UInt8) :=
  match crypto.openInPlace key nonce aad ciphertext with
  | none => .error (.vaultTampered name)
  | some plaintext => .ok plaintext

def decryptAuthenticatedBytes (name : String) : Except GateError (VaultSecretMetadata × List UInt8) := do
  let keyName ← normalizeSecretName name
  let record ← genuineRecord file keyName
  let nonce ← decodeOr crypto ("invalid nonce base64 for `" ++ keyName ++ "`: ") record.nonceB64
  refuseIf (nonce.length ≠ nonceLen) (.vaultCorrupt ("nonce for `" ++ keyName ++ "` is not 12 bytes"))
  let ciphertext ← decodeOr crypto ("invalid ciphertext base64 for `" ++ keyName ++ "`: ") record.ciphertextB64
  let aad ← aadBytes record.metadata
  let plaintext ← openRecord crypto key keyName nonce aad ciphertext
  return (record.metadata, plaintext)

def checkLease (nowMs : Nat) (metadata : VaultSecretMetadata) : Except GateError Unit :=
  match metadata.expiresAt with
  | none => .ok ()
  | some exp =>
    if exp < fromUnixMillis nowMs then .error (.policyDenied metadata.name ("secret lease expired at " ++ exp)) else .ok ()

def decryptBytes (nowMs : Nat) (file : VaultFile) (name : String) : Except GateError (VaultSecretMetadata × List UInt8) := do
  let opened ← decryptAuthenticatedBytes crypto key file name
  checkLease nowMs opened.1
  return opened

def decryptRaw (nowMs : Nat) (file : VaultFile) (name : String) : Except GateError (VaultSecretMetadata × String) := do
  let opened ← decryptBytes crypto key nowMs file name
  match ofUtf8 opened.2 with
  | none => .error (.vaultCorrupt ("decrypted secret `" ++ opened.1.name ++ "` is not valid UTF-8"))
  | some value => return (opened.1, value)

abbrev VerifiedSnapshotCache := ExtTreeMap String (List UInt8 × String) compare

structure VerifiedSecretSnapshot where
  metadata : VaultSecretMetadata
  recordEpoch : String
  deriving DecidableEq

/-- The length of a part as a `u64` in big-endian order. -/
def beBytes (n : Nat) : List UInt8 := (Bytes.toLe 8 n).reverse

def framed (part : List UInt8) : List UInt8 := beBytes part.length ++ part

def hexText (bytes : List UInt8) : String :=
  String.ofList (bytes.flatMap fun b => [Nat.digitChar (b.toNat / 16), Nat.digitChar (b.toNat % 16)])

def epochOf (aad nonce ciphertext : List UInt8) : String :=
  hexText (crypto.sha256 (framed aad ++ (framed nonce ++ framed ciphertext)))

def fingerprintOf : List UInt8 := crypto.sha256 key.toList

def verifyOnce (cache : VerifiedSnapshotCache) (name epoch : String) : Except GateError VerifiedSnapshotCache :=
  if (cache[name]?).any fun entry => entry.1 == fingerprintOf crypto key && entry.2 == epoch then .ok cache
  else do
    let _ ← decryptAuthenticatedBytes crypto key file name
    return cache.insert name (fingerprintOf crypto key, epoch)

def authenticatedSnapshotCurrent (cache : VerifiedSnapshotCache) (name : String) :
    Except GateError (VerifiedSecretSnapshot × VerifiedSnapshotCache) := do
  let name ← normalizeSecretName name
  let record ← genuineRecord file name
  let nonce ← decodeOr crypto "invalid nonce: " record.nonceB64
  let ciphertext ← decodeOr crypto "invalid ciphertext: " record.ciphertextB64
  let aad ← aadBytes record.metadata
  let epoch := epochOf crypto aad nonce ciphertext
  let cache ← verifyOnce crypto key file cache name epoch
  return (⟨record.metadata, epoch⟩, cache)

end

def verifiedSnapshotCurrent (nowMs : Nat) (file : VaultFile) (cache : VerifiedSnapshotCache) (name : String) :
    Except GateError VerifiedSecretSnapshot := do
  let taken ← authenticatedSnapshotCurrent crypto key file cache name
  checkLease nowMs taken.1.metadata
  return taken.1

end Read

section Write

variable (crypto : Crypto) (key : MasterKey)

structure WriteEnv where
  /-- The vault lock was taken and is current, and no broker marker refuses direct writes. -/
  locked : Except GateError Unit
  nowMs : UInt64
  /-- The random nonce, or none where the system has no randomness. -/
  nonce : Option NonceBytes
  /-- The new file was written beside the vault and renamed over it. -/
  replaced : Except GateError Unit

def acceptBinding (name : String) (usage : SecretUsage) : Option AppBinding → Except GateError (Option AppBinding)
  | none => .ok none
  | some binding =>
    if usage = .proxy then .error (.invalidSecret name "app binding requires signing usage")
    else if !validIssuer binding.issuer then .error (.invalidSecret name "invalid app issuer")
    else do
      let origin ← normalizeSigningOrigin binding.origin
      return some ⟨binding.issuer, origin⟩

def leaseEnd (nowMs : UInt64) (ttl : UInt64) : Nat :=
  min (nowMs.toNat + min (ttl.toNat * 1000) (2 ^ 64 - 1)) (2 ^ 64 - 1)

/-- The fields of a record that are checked or put into a normal form. -/
structure Policy where
  allowedHosts : List String
  allowedMethods : List String
  allowedAgents : List String
  appBinding : Option AppBinding

def policyOf (args : SetSecretArgs) (name : String) : Except GateError Policy := do
  refuseIf (args.value = "") (.invalidSecret name "secret value must not be empty")
  let appBinding ← acceptBinding name args.usage args.appBinding
  let allowedHosts := normalizeStringList args.allowedHosts true
  let allowedMethods := (normalizeStringList args.allowedMethods false).map toAsciiUppercase
  let allowedAgents := normalizeStringList args.allowedAgents true
  match (allowedHosts ++ allowedMethods ++ allowedAgents).find? delimited with
  | some item =>
    .error (.invalidSecret name
      ("policy item `" ++ item ++ "` must not contain AAD delimiter characters (`|` or `,`)"))
  | none => return { allowedHosts, allowedMethods, allowedAgents, appBinding }

def metadataOf (args : SetSecretArgs) (name : String) (policy : Policy) (existing : Option EncryptedSecretRecord)
    (nowMs : UInt64) : VaultSecretMetadata where
  name
  description := (args.description.map trim).filter (· ≠ "")
  allowedHosts := policy.allowedHosts
  allowedMethods := policy.allowedMethods
  allowedAgents := policy.allowedAgents
  allowPrivateNetwork := args.allowPrivateNetwork
  createdAt := (existing.map fun record => record.metadata.createdAt).getD (fromUnixMillis nowMs.toNat)
  updatedAt := fromUnixMillis nowMs.toNat
  leaseTtlSecs := args.leaseTtlSecs
  expiresAt := args.leaseTtlSecs.map fun ttl => fromUnixMillis (leaseEnd nowMs ttl)
  usage := args.usage
  bundleRequired := args.bundleRequired
  appBinding := policy.appBinding

def drawNonce (env : WriteEnv) : Except GateError NonceBytes :=
  match env.nonce with
  | none => .error (.crypto "failed to generate 96-bit random nonce")
  | some nonce => .ok nonce

def sealValue (nonce : NonceBytes) (aad : List UInt8) (value : String) : Except GateError (List UInt8) :=
  match crypto.sealInPlace key nonce.toList aad (textBytes value) with
  | none => .error (.crypto "AES-256-GCM encryption failed")
  | some ciphertext => if ciphertext.length < 2 ^ 63 then .ok ciphertext else .error (.crypto "secret is too large")

def recordOf (metadata : VaultSecretMetadata) (nonce : NonceBytes) (ciphertext : List UInt8) : EncryptedSecretRecord where
  metadata := metadata
  nonceB64 := crypto.encode nonce.toList
  ciphertextB64 := crypto.encode ciphertext

/-- A set call that went through: what was sealed, and the file that replaced the old one. -/
structure Stored where
  metadata : VaultSecretMetadata
  nonce : NonceBytes
  ciphertext : List UInt8
  next : VaultFile

inductive SetOutcome where
  | stored (stored : Stored)
  /-- The name was there already, and the call only inserts. -/
  | present (metadata : VaultSecretMetadata) (next : VaultFile)

def insertRecord (env : WriteEnv) (file : VaultFile) (metadata : VaultSecretMetadata) (value : String) :
    Except GateError SetOutcome := do
  let nonce ← drawNonce env
  let aad ← aadBytes metadata
  let ciphertext ← sealValue crypto key nonce aad value
  let next := { file with secrets := file.secrets.insert metadata.name (recordOf crypto metadata nonce ciphertext) }
  env.replaced
  return .stored ⟨metadata, nonce, ciphertext, next⟩

def setInner (env : WriteEnv) (disk : VaultText) (args : SetSecretArgs) (onlyIfAbsent : Bool) : Except GateError SetOutcome := do
  let name ← normalizeSecretName args.name
  let policy ← policyOf args name
  env.locked
  let file ← readVaultFile disk
  match (file.secrets[name]?).filter fun _ => onlyIfAbsent with
  | some existing => return .present existing.metadata file
  | none => insertRecord crypto key env file (metadataOf args name policy (file.secrets[name]?) env.nowMs) args.value

def removeInner (env : WriteEnv) (disk : VaultText) (name : String) : Except GateError (VaultFile × Bool) := do
  let name ← normalizeSecretName name
  env.locked
  let file ← readVaultFile disk
  match file.secrets[name]? with
  | none => return (file, false)
  | some _ =>
    env.replaced
    return ({ file with secrets := file.secrets.erase name }, true)

end Write

end FerroLoop.Vault

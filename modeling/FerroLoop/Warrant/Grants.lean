import FerroLoop.Gate.Errors
import FerroLoop.Lib.Checked
import FerroLoop.Lib.Map
import FerroLoop.Lib.Text
import FerroLoop.Lib.Word

/-!
Owner warrants (`crates/gate/src/warrant.rs`): what issuing, checking and revoking a grant make of one version of the
ledger. Base64url, the JSON of a payload, Ed25519 and the spelling of times are parameters; a ledger is held as the value
its file spells.
-/

namespace FerroLoop.Warrant

open Std Text Checked Gate

def rejected {α : Type} (reason : String) : Except GateError α := .error (.warrantRejected reason)

def badInput {α : Type} (reason : String) : Except GateError α := .error (.warrantInput reason)

structure GrantPayload where
  grantId : String
  issuedBy : String
  targetAgent : String
  scope : String
  statement : String
  createdAt : String
  expiresAt : Option String
  singleUse : Bool
  deriving DecidableEq

structure OwnerGrant where
  grantId : String
  issuedBy : String
  targetAgent : String
  scope : String
  statement : String
  createdAt : String
  expiresAt : Option String
  singleUse : Bool
  publicKeyB64 : String
  signatureB64 : String
  compactToken : String
  deriving DecidableEq

def OwnerGrant.payload (grant : OwnerGrant) : GrantPayload where
  grantId := grant.grantId
  issuedBy := grant.issuedBy
  targetAgent := grant.targetAgent
  scope := grant.scope
  statement := grant.statement
  createdAt := grant.createdAt
  expiresAt := grant.expiresAt
  singleUse := grant.singleUse

def GrantPayload.grant (p : GrantPayload) (publicKeyB64 signatureB64 compactToken : String) : OwnerGrant where
  grantId := p.grantId
  issuedBy := p.issuedBy
  targetAgent := p.targetAgent
  scope := p.scope
  statement := p.statement
  createdAt := p.createdAt
  expiresAt := p.expiresAt
  singleUse := p.singleUse
  publicKeyB64
  signatureB64
  compactToken

structure StoredOwnerGrant where
  grant : OwnerGrant
  revokedAt : Option String
  consumedAt : Option String
  consumedBy : Option String
  deriving DecidableEq

structure OwnerWarrantLedger where
  schemaVersion : UInt32
  publicKeyB64 : String
  grants : ExtTreeMap String StoredOwnerGrant compare

def warrantSchemaVersion : UInt32 := 1

structure IssueGrantArgs where
  targetAgent : String
  scope : String
  statement : String
  ttlSecs : Option UInt64
  noExpiry : Bool
  singleUse : Bool
  issuedBy : Option String

structure VerifiedGrant where
  grant : OwnerGrant
  inLedger : Bool
  consumed : Bool
  deriving DecidableEq

/-- What the module takes from elsewhere. -/
structure Outside where
  b64urlDecode : String → Option (List UInt8)
  b64urlEncode : List UInt8 → String
  payloadToVec : GrantPayload → Except String (List UInt8)
  payloadFromSlice : List UInt8 → Option GrantPayload
  ed25519 : (publicKey message signature : List UInt8) → Bool
  atFromUnixMillis : UInt64 → String
  atParse : String → Option UInt64

structure SigningKey where
  publicKey : List UInt8
  sign : List UInt8 → List UInt8

def maxNameLen : Nat := 64

def maxStatementLen : Nat := 2000

def defaultIssuer : String := "lmcfarlin"

def defaultTtlSecs : UInt64 := 3600

def maxTtlSecs : UInt64 := 315360000

def isNameChar (c : Char) : Bool := c.isLower || c.isDigit || c == '_' || c == '-' || c == '.'

def cleanName (what raw : String) (extra : List Char) : Except GateError String :=
  let value := toAsciiLowercase (trim raw)
  if value = "" ∨ maxNameLen < value.utf8ByteSize then badInput (what ++ " must be 1 to 64 characters")
  else if value.toList.all fun c => isNameChar c || extra.contains c then .ok value
  else badInput (what ++ " may only use a-z, 0-9, `_`, `-`, `.`" ++ if extra = [] then "" else " and `:`")

def cleanTarget (raw : String) : Except GateError String :=
  if trim raw = "*" then .ok "*" else cleanName "target agent" (trim raw) []

def cleanIssuer (raw : String) : Except GateError String :=
  let value := trim raw
  if value = "" ∨ maxNameLen < value.utf8ByteSize ∨ value.toList.any isControl = true then
    badInput "issuer must be 1 to 64 characters with no control characters"
  else .ok value

def cleanStatement (raw : String) : Except GateError String :=
  let value := trim raw
  if value = "" ∨ maxStatementLen < value.utf8ByteSize then badInput "statement must be 1 to 2000 bytes"
  else if value.toList.any fun c => isControl c && c != '\n' then badInput "statement must not contain control characters"
  else .ok value

def tokenStart : String := "flw1."

section

variable (outside : Outside)

def expiryOf (args : IssueGrantArgs) (nowMs : UInt64) : Except GateError (Option String) :=
  if args.noExpiry && args.ttlSecs.isSome then badInput "ttl_secs and no_expiry exclude each other"
  else if args.noExpiry then .ok none
  else
    let ttl := args.ttlSecs.getD defaultTtlSecs
    if ttl = 0 ∨ maxTtlSecs < ttl then badInput "ttl_secs must be 1 to 315360000 seconds"
    else .ok (some (outside.atFromUnixMillis (Word.satAdd nowMs (ttl * 1000))))

def requestOf (args : IssueGrantArgs) (nowMs : UInt64) : Except GateError (String → GrantPayload) := do
  let targetAgent ← cleanTarget args.targetAgent
  let scope ← cleanName "scope" args.scope [':']
  let statement ← cleanStatement args.statement
  let issuedBy ← cleanIssuer (args.issuedBy.getD defaultIssuer)
  let expiresAt ← expiryOf outside args nowMs
  pure fun grantId =>
    { grantId, issuedBy, targetAgent, scope, statement, createdAt := outside.atFromUnixMillis nowMs, expiresAt,
      singleUse := args.singleUse }

def canonicalBytes (payload : GrantPayload) : Except GateError (List UInt8) :=
  match outside.payloadToVec payload with
  | .ok bytes => .ok bytes
  | .error e => .error (.crypto ("could not encode the grant payload: " ++ e))

def readLedger (file : Option OwnerWarrantLedger) : Except GateError (Option OwnerWarrantLedger) :=
  match file with
  | none => .ok none
  | some ledger =>
    if ledger.schemaVersion = warrantSchemaVersion then .ok (some ledger)
    else .error (.io "parse" ("unsupported warrant ledger schema " ++ toString ledger.schemaVersion))

def requireLedger (file : Option OwnerWarrantLedger) : Except GateError OwnerWarrantLedger :=
  match readLedger file with
  | .error e => .error e
  | .ok none => rejected "no warrant ledger exists; no grant has been issued"
  | .ok (some ledger) => .ok ledger

def issueUnder (key : SigningKey) (request : String → GrantPayload) (grantId : String) (ledger : OwnerWarrantLedger) :
    Except GateError (StoredOwnerGrant × OwnerWarrantLedger) := do
  let bytes ← canonicalBytes outside (request grantId)
  let signatureB64 := outside.b64urlEncode (key.sign bytes)
  let grant := (request grantId).grant (outside.b64urlEncode key.publicKey) signatureB64
    (tokenStart ++ outside.b64urlEncode bytes ++ "." ++ signatureB64)
  let stored : StoredOwnerGrant := { grant, revokedAt := none, consumedAt := none, consumedBy := none }
  pure (stored, { ledger with grants := ledger.grants.insert grantId stored })

def issueIn (key : SigningKey) (request : String → GrantPayload) (draws : List String) (file : Option OwnerWarrantLedger) :
    Option (Except GateError (StoredOwnerGrant × OwnerWarrantLedger)) :=
  match readLedger file with
  | .error e => some (.error e)
  | .ok found =>
    let ledger := found.getD ⟨warrantSchemaVersion, outside.b64urlEncode key.publicKey, ∅⟩
    if ledger.publicKeyB64 ≠ outside.b64urlEncode key.publicKey then
      some (.error (.crypto
        "the Vault's Owner warrant key does not match the key pinned in the ledger; refusing to sign"))
    else (draws.find? fun id => !ledger.grants.contains id).map fun id => issueUnder outside key request id ledger

def verifySignature (pinnedB64 : String) (message : List UInt8) (signatureB64 : String) : Except GateError Unit :=
  match outside.b64urlDecode pinnedB64 with
  | none => rejected "the ledger's pinned public key is not base64url"
  | some publicKey =>
    match outside.b64urlDecode signatureB64 with
    | none => rejected "the signature is not base64url"
    | some signature =>
      if outside.ed25519 publicKey message signature then .ok ()
      else rejected "the signature does not verify against the pinned Owner key"

structure ParsedToken where
  payload : GrantPayload
  payloadBytes : List UInt8
  signatureB64 : String

def parseToken (token : String) : Except GateError ParsedToken :=
  match stripPrefix token tokenStart with
  | none => rejected "not a flw1 token"
  | some rest =>
    match splitOnce "." rest with
    | none => rejected "malformed flw1 token"
    | some (payloadB64, signatureB64) =>
      match outside.b64urlDecode payloadB64 with
      | none => rejected "the token payload is not base64url"
      | some payloadBytes =>
        match outside.payloadFromSlice payloadBytes with
        | none => rejected "the token payload is not a grant"
        | some payload => do
          let bytes ← canonicalBytes outside payload
          refuseIf (bytes ≠ payloadBytes) (.warrantRejected "the token payload is not in canonical form")
          pure { payload, payloadBytes, signatureB64 }

def expired (expiresAt : Option String) (nowMs : UInt64) : Except GateError Bool :=
  match expiresAt with
  | none => .ok false
  | some text =>
    match outside.atParse text with
    | none => rejected "the grant has an invalid expiry"
    | some millis => .ok (decide (millis ≤ nowMs))

section

variable (ledger : OwnerWarrantLedger)

def matchEntry (token : String) (parsed : ParsedToken) : Except GateError (OwnerGrant × Bool) :=
  match ledger.grants[parsed.payload.grantId]? with
  | some stored =>
    if stored.grant.payload ≠ parsed.payload ∨ stored.grant.signatureB64 ≠ parsed.signatureB64 then
      rejected "the token does not match the ledger entry"
    else .ok (stored.grant, true)
  | none =>
    if parsed.payload.singleUse then rejected "a single-use token that this ledger does not hold cannot be honored"
    else .ok (parsed.payload.grant ledger.publicKeyB64 parsed.signatureB64 token, false)

def tokenGrant (token : String) : Except GateError (OwnerGrant × Bool) := do
  let parsed ← parseToken outside token
  verifySignature outside ledger.publicKeyB64 parsed.payloadBytes parsed.signatureB64
  matchEntry ledger token parsed

def heldGrant (id : String) : Except GateError (OwnerGrant × Bool) :=
  match ledger.grants[id]? with
  | none => rejected ("unknown grant `" ++ id ++ "`")
  | some stored => do
    refuseIf (stored.grant.publicKeyB64 ≠ ledger.publicKeyB64)
      (.warrantRejected "the grant was signed with a key other than the pinned Owner key")
    let bytes ← canonicalBytes outside stored.grant.payload
    verifySignature outside ledger.publicKeyB64 bytes stored.grant.signatureB64
    pure (stored.grant, true)

def namedGrant (idOrToken : String) : Except GateError (OwnerGrant × Bool) :=
  if startsWith idOrToken tokenStart then tokenGrant outside ledger idOrToken else heldGrant outside ledger idOrToken

def checkState (grant : OwnerGrant) (inLedger : Bool) : Except GateError Unit :=
  if !inLedger then .ok ()
  else
    match ledger.grants[grant.grantId]? with
    | none => .error .panicked
    | some stored => do
      refuseIf (stored.revokedAt.isSome = true) (.warrantRejected ("grant `" ++ grant.grantId ++ "` was revoked"))
      refuseIf (stored.consumedAt.isSome = true ∧ grant.singleUse = true)
        (.warrantRejected ("single-use grant `" ++ grant.grantId ++ "` was already consumed"))

end

def checkTarget (grant : OwnerGrant) (targetAgent : Option String) : Except GateError Unit :=
  match targetAgent with
  | none => .ok ()
  | some agent => refuseIf (grant.targetAgent ≠ "*" ∧ eqIgnoreAsciiCase grant.targetAgent (trim agent) = false)
      (.warrantRejected ("grant `" ++ grant.grantId ++ "` is for `" ++ grant.targetAgent ++ "`, not `" ++ trim agent ++ "`"))

def checkGrant (idOrToken : String) (targetAgent : Option String) (nowMs : UInt64) (ledger : OwnerWarrantLedger) :
    Except GateError (OwnerGrant × Bool) := do
  let named ← namedGrant outside ledger idOrToken
  checkState ledger named.1 named.2
  let late ← expired outside named.1.expiresAt nowMs
  refuseIf (late = true) (.warrantRejected ("grant `" ++ named.1.grantId ++ "` has expired"))
  checkTarget named.1 targetAgent
  pure named

def consumedIn (ledger : OwnerWarrantLedger) (grantId : String) (targetAgent : Option String) (nowMs : UInt64) :
    OwnerWarrantLedger :=
  match ledger.grants[grantId]? with
  | none => ledger
  | some stored =>
    { ledger with
      grants := ledger.grants.insert grantId
        { stored with
          consumedAt := some (outside.atFromUnixMillis nowMs)
          consumedBy := targetAgent.map fun agent => toAsciiLowercase (trim agent) } }

def revokeIn (grantId : String) (nowMs : UInt64) (ledger : OwnerWarrantLedger) :
    Except GateError (StoredOwnerGrant × OwnerWarrantLedger) :=
  match ledger.grants[grantId]? with
  | none => rejected ("unknown grant `" ++ grantId ++ "`")
  | some stored =>
    let revoked := { stored with revokedAt := some (stored.revokedAt.getD (outside.atFromUnixMillis nowMs)) }
    .ok (revoked, { ledger with grants := ledger.grants.insert grantId revoked })

end

end FerroLoop.Warrant

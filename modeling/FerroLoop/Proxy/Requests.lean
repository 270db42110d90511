import FerroLoop.Vault.Binding
import FerroLoop.Lib.Search
import Std.Data.ExtTreeSet

/-!
Proxied requests (`prepare_proxied_request` of `crates/gate/src/proxy.rs`, `resolve_vault_secret_current` and
`reject_disappeared_local` of `crates/gate/src/adapter.rs`): the placeholders of a request are collected, each secret they
name is checked against the request, and then they are replaced.
-/

namespace FerroLoop.Proxy

open Std Text Checked Vault Gate

def placeholderOpen : List Char := ['\x7b', '\x7b', 'F', 'E', 'R', 'R', 'O', 'G', 'A', 'T', 'E', ':']

def placeholderClose : List Char := ['\x7d', '\x7d']

structure Next where
  before : List Char
  rawKey : List Char
  rest : List Char

inductive Found where
  | none
  /-- A placeholder that is not closed, with what stands before it. -/
  | unclosed (before after : List Char)
  | next (next : Next)

def findPlaceholder (text : List Char) : Found :=
  match splitAtFirst placeholderOpen text with
  | none => .none
  | some (before, after) =>
    match splitAtFirst placeholderClose after with
    | none => .unclosed before after
    | some (rawKey, rest) => .next ⟨before, rawKey, rest⟩

variable {text : List Char} {found : Next}

theorem findPlaceholder_next (next : findPlaceholder text = .next found) :
    First placeholderOpen text found.before (found.rawKey ++ (placeholderClose ++ found.rest)) ∧
      First placeholderClose (found.rawKey ++ (placeholderClose ++ found.rest)) found.rawKey found.rest := by
  unfold findPlaceholder at next
  split at next
  · cases next
  rename_i before after opened
  split at next
  · cases next
  rename_i rawKey rest closed
  have same := Found.next.inj next
  subst same
  have ends := splitAtFirst_eq_some.mp closed
  rw [← ends.whole]
  exact ⟨splitAtFirst_eq_some.mp opened, ends⟩

theorem findPlaceholder_none (none : findPlaceholder text = .none) : ¬placeholderOpen <:+: text := by
  unfold findPlaceholder at none
  split at none
  · rename_i absent
    exact splitAtFirst_eq_none.mp absent
  · split at none
    · cases none
    · cases none

theorem next_shorter (next : findPlaceholder text = .next found) :
    found.rest.length < text.length := by
  rw [(findPlaceholder_next next).1.whole]
  have opens : placeholderOpen.length = 12 := rfl
  simp only [List.length_append, opens]
  omega

def addKey (keys : List String) (key : String) : List String := if keys.contains key then keys else keys ++ [key]

def unclosedPlaceholder : GateError :=
  .invalidPlaceholder "unclosed `\x7b\x7bFERROGATE:...\x7d\x7d` placeholder"

def extractFrom (text : List Char) (keys : List String) : Except GateError (List String) :=
  match _found : findPlaceholder text with
  | .none => .ok keys
  | .unclosed _ _ => .error unclosedPlaceholder
  | .next next => do
    let key ← normalizeSecretName (String.ofList next.rawKey)
    extractFrom next.rest (addKey keys key)
  termination_by text.length
  decreasing_by exact next_shorter ‹_›

def extractPlaceholderKeys (text : String) : Except GateError (List String) := extractFrom text.toList []

abbrev Values := ExtTreeMap String String compare

def replacement (values : Values) (rawKey : List Char) : List Char :=
  match (normalizeSecretName (String.ofList rawKey)).toOption.bind fun key => values[key]? with
  | some value => value.toList
  | none => placeholderOpen ++ rawKey ++ placeholderClose

def substituteFrom (values : Values) (text : List Char) : List Char :=
  match _found : findPlaceholder text with
  | .none => text
  | .unclosed before after => before ++ (placeholderOpen ++ after)
  | .next next => next.before ++ replacement values next.rawKey ++ substituteFrom values next.rest
  termination_by text.length
  decreasing_by exact next_shorter ‹_›

def substitutePlaceholders (values : Values) (input : String) : String := String.ofList (substituteFrom values input.toList)

def endsWith (s suffix : List Char) : Bool := suffix.isSuffixOf s

def hostMatchesPattern (host pattern : String) : Bool :=
  let h := toAsciiLowercase (trim host)
  let p := toAsciiLowercase (trim pattern)
  if p = "*" then true
  else
    match stripPrefix p "*." with
    | some suffix =>
      h == suffix ||
        (endsWith h.toList suffix.toList &&
          (h.toList.take (h.toList.length - suffix.toList.length)).getLast? == some '.')
    | none => h == p

/-- What the standard library and the network tell. -/
structure Outside where
  /-- An IP literal as it is printed, and whether it is private or a loopback address. -/
  ipLiteral : String → Option (String × Bool)
  /-- The addresses a host name resolves to. -/
  socketAddrs : String → UInt16 → Option (List (String × Bool))
  /-- A list of texts as `:?` formats it. -/
  debugList : List String → String

section Prepare

variable (outside : Outside)

def localName (lower : String) : Bool :=
  lower == "localhost" || endsWith lower.toList ".localhost".toList || endsWith lower.toList ".local".toList ||
    endsWith lower.toList ".internal".toList

def verifyHostSsrf (host : String) (port : UInt16) (allowPrivateNetwork : Bool) : Except GateError Unit :=
  if allowPrivateNetwork then .ok ()
  else
    let lower := toAsciiLowercase (trimEndMatches '.' (trim host))
    if localName lower then
      .error (.ssrfBlocked host "local hostname is blocked unless `allow_private_network = true`")
    else
      match outside.ipLiteral lower with
      | some (ip, isPrivate) =>
        if isPrivate then .error (.ssrfBlocked host ("private or loopback IP `" ++ ip ++ "` is blocked")) else .ok ()
      | none =>
        match ((outside.socketAddrs lower port).getD []).find? (·.2) with
        | some (ip, _) => .error (.ssrfBlocked host ("host resolves to private or loopback IP `" ++ ip ++ "`"))
        | none => .ok ()

structure ProxyRequest where
  method : String
  url : String
  headers : ExtTreeMap String String compare
  body : Option String
  callerAgent : Option String

structure PreparedProxyRequest where
  method : String
  url : String
  host : String
  headers : ExtTreeMap String String compare
  body : Option String
  injectedSecrets : List String

structure PreparedSecrets where
  request : PreparedProxyRequest
  injectedPlaintexts : List (String × String)

structure OpenVault where
  crypto : Crypto
  key : MasterKey
  file : VaultFile
  disk : VaultText
  nowMs : Nat

def rejectDisappearedLocal (previous current : VaultFile) (name : String) : Except GateError Unit :=
  refuseIf ((getMetadata previous name).isSome ∧ (getMetadata current name).isNone)
    (.policyDenied name "local secret disappeared since the vault was opened")

def checkedUse (metadata : VaultSecretMetadata) : Except GateError Unit :=
  if metadata.usage ≠ .proxy then .error (.usageMismatch metadata.name)
  else if metadata.bundleRequired then .error (.policyDenied metadata.name "bundle authority unavailable")
  else .ok ()

def secretText (metadata : VaultSecretMetadata) (bytes : List UInt8) : Except GateError String :=
  match ofUtf8 bytes with
  | none => .error (.vaultCorrupt ("decrypted secret `" ++ metadata.name ++ "` is not valid UTF-8"))
  | some value => .ok value

def resolveVaultSecretCurrent (vault : OpenVault) (current : VaultFile) (name : String) :
    Except GateError (VaultSecretMetadata × String) := do
  let opened ← decryptBytes vault.crypto vault.key vault.nowMs current name
  checkedUse opened.1
  let value ← secretText opened.1 opened.2
  return (opened.1, value)

structure Asked where
  scheme : String
  host : String
  method : String
  caller : Option String

def callerName (caller : Option String) : String := (caller.map fun s => toAsciiLowercase (trim s)).getD ""

def checkPolicy (name : String) (metadata : VaultSecretMetadata) (asked : Asked) : Except GateError Unit := do
  refuseIf (metadata.allowPrivateNetwork = false ∧ asked.scheme ≠ "https")
    (.policyDenied name ("secret `" ++ name ++
      "` requires an `https://` destination unless `allow_private_network = true`"))
  refuseIf (metadata.allowedHosts = [] ∨ ¬metadata.allowedHosts.any (hostMatchesPattern asked.host))
    (.policyDenied name ("destination host `" ++ asked.host ++ "` is not in allowed_hosts " ++
      outside.debugList metadata.allowedHosts))
  refuseIf (metadata.allowedMethods ≠ [] ∧ ¬metadata.allowedMethods.any (eqIgnoreAsciiCase · asked.method))
    (.policyDenied name ("HTTP method `" ++ asked.method ++ "` is not in allowed_methods " ++
      outside.debugList metadata.allowedMethods))
  refuseIf (metadata.allowedAgents ≠ [] ∧
      ¬metadata.allowedAgents.any fun a => a == "*" || eqIgnoreAsciiCase a (callerName asked.caller))
    (.policyDenied name ("caller agent `" ++ callerName asked.caller ++ "` is not in allowed_agents " ++
      outside.debugList metadata.allowedAgents))

structure Taken where
  values : Values
  allowPrivate : Bool

def takeSecret (vault : OpenVault) (current : VaultFile) (asked : Asked) (taken : Taken) (name : String) :
    Except GateError Taken := do
  let resolved ← resolveVaultSecretCurrent vault current name
  checkPolicy outside name resolved.1 asked
  return ⟨taken.values.insert name resolved.2, taken.allowPrivate || resolved.1.allowPrivateNetwork⟩

def ProxyRequest.texts (req : ProxyRequest) : List String :=
  req.url :: (req.headers.toList.map (·.2) ++ req.body.toList)

def referencedKeys (req : ProxyRequest) : Except GateError (ExtTreeSet String compare) := do
  let keys ← req.texts.mapM extractPlaceholderKeys
  return keys.flatten.foldl (fun set key => set.insert key) ∅

def beforeQuery (url : String) : List Char := url.toList.takeWhile (· != '?')

def parsedUrl (url : String) : Except GateError (String × String × UInt16) :=
  match Governor.parseUrlSchemeHostPort Ipv6.isIpv6 url with
  | .error e => .error (.invalidUrl e.url e.reason)
  | .ok parsed => .ok parsed

def allPrivate (current : VaultFile) (names : List String) : Bool :=
  names.all fun name => (getMetadata current name).any (·.allowPrivateNetwork)

def filledRequest (req : ProxyRequest) (method host : String) (names : List String) (values : Values) : PreparedProxyRequest where
  method
  url := substitutePlaceholders values req.url
  host
  headers := req.headers.map fun _ value => substitutePlaceholders values value
  body := req.body.map (substitutePlaceholders values)
  injectedSecrets := names

section

variable (vault : OpenVault) (req : ProxyRequest)

def resolveAll (method : String) (names : List String) (url : String × String × UInt16) :
    Except GateError PreparedSecrets := do
  let current ← readVaultFile vault.disk
  names.forM (rejectDisappearedLocal vault.file current)
  let asked : Asked := ⟨url.1, url.2.1, method, req.callerAgent⟩
  let taken ← names.foldlM (takeSecret outside vault current asked) ⟨∅, false⟩
  verifyHostSsrf outside url.2.1 url.2.2 (taken.allowPrivate && allPrivate current names)
  return ⟨filledRequest req method url.2.1 names taken.values, taken.values.toList⟩

def emptyMethod : String := "HTTP method must not be empty"

def placeholderBeforeQuery : GateError :=
  .invalidPlaceholder "secret placeholders are not permitted in the URL host or path before `?`"

def prepareChecked : Except GateError PreparedSecrets := do
  let method := toAsciiUppercase (trim req.method)
  refuseIf (method = "") (.invalidUrl req.url emptyMethod)
  let referenced ← referencedKeys req
  refuseIf (splitAtFirst placeholderOpen (beforeQuery req.url) ≠ none) placeholderBeforeQuery
  let url ← parsedUrl req.url
  resolveAll outside vault req method referenced.toList url

def prepareProxiedRequest : Except GateError PreparedProxyRequest := do
  let prepared ← prepareChecked outside vault req
  return prepared.request

end

end Prepare

end FerroLoop.Proxy

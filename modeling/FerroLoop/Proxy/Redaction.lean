import FerroLoop.Lib.Base64
import FerroLoop.Lib.Kmp
import FerroLoop.Lib.Utf8
import FerroLoop.Proxy.Requests

/-!
What comes back from an upstream (`redact_pairs`, `find_secret_spans`, `scrub_known_prefixes` and the end of
`send_prepared_inner` of `crates/gate/src/proxy.rs`): secrets are looked for in the text as it came, in every spelling,
and the union of what is found is replaced. A text is held as its bytes.
-/

namespace FerroLoop.Proxy

open Std Text Checked Vault Utf8

def maxSecretScanBytes : Nat := 64 * 1024 * 1024

def maxSecretMatches : Nat := 65536

def maxSecretPatternBytes : Nat := 64 * 1024

/-- What is compared with a byte of a pattern: a byte of the text, or three that stand for one. -/
structure Symbol where
  start : Nat
  stop : Nat
  value : UInt8
  deriving DecidableEq

def hexDigit (b : UInt8) : Option UInt8 :=
  if 0x30 ≤ b ∧ b ≤ 0x39 then some (b - 0x30)
  else if 0x61 ≤ b ∧ b ≤ 0x66 then some (b - 0x61 + 10)
  else if 0x41 ≤ b ∧ b ≤ 0x46 then some (b - 0x41 + 10)
  else none

def escaped (percentDecode : Bool) (percent hi lo : UInt8) : Option UInt8 :=
  if percentDecode ∧ percent = 0x25 then do
    let h ← hexDigit hi
    let l ← hexDigit lo
    return (h <<< 4) ||| l
  else none

def symbolsFrom (percentDecode : Bool) (position : Nat) : List UInt8 → List Symbol
  | [] => []
  | [a] => [⟨position, position + 1, a⟩]
  | [a, b] => [⟨position, position + 1, a⟩, ⟨position + 1, position + 2, b⟩]
  | a :: b :: c :: rest =>
    match escaped percentDecode a b c with
    | some value => ⟨position, position + 3, value⟩ :: symbolsFrom percentDecode (position + 3) rest
    | none => ⟨position, position + 1, a⟩ :: symbolsFrom percentDecode (position + 1) (b :: c :: rest)

def symbols (percentDecode : Bool) (text : List UInt8) : List Symbol := symbolsFrom percentDecode 0 text

def fold (asciiCaseInsensitive : Bool) (b : UInt8) : UInt8 :=
  if asciiCaseInsensitive ∧ 0x41 ≤ b ∧ b ≤ 0x5A then b + 32 else b

structure Span where
  start : Nat
  stop : Nat
  owner : Nat
  deriving DecidableEq

structure Scan where
  matched : Nat
  starts : List Nat
  index : Nat
  hit : Bool
  spans : List Span

def scanSymbol (text pattern : List UInt8) (asciiCaseInsensitive : Bool) (owner : Nat) (scan : Scan) (symbol : Symbol) :
    Except Unit Scan :=
  let starts := scan.starts.set (scan.index % pattern.length) symbol.start
  let index := scan.index + 1
  let fed := Kmp.feed (pattern.map (fold asciiCaseInsensitive)) scan.matched (fold asciiCaseInsensitive symbol.value)
  if fed.1 then
    let start := starts.getD ((index - pattern.length) % pattern.length) 0
    if !isCharBoundary text start || !isCharBoundary text symbol.stop || maxSecretMatches ≤ scan.spans.length then .error ()
    else .ok ⟨fed.2, starts, index, true, scan.spans ++ [⟨start, symbol.stop, owner⟩]⟩
  else .ok ⟨fed.2, starts, index, scan.hit, scan.spans⟩

def findSecretSpans (text pattern : List UInt8) (percentDecode asciiCaseInsensitive : Bool) (owner : Nat) (spans : List Span) :
    Except Unit (Bool × List Span) :=
  if pattern = [] ∨ text.length < pattern.length then .ok (false, spans)
  else do
    let scan ← (symbols percentDecode text).foldlM (scanSymbol text pattern asciiCaseInsensitive owner)
      ⟨0, List.replicate pattern.length 0, 0, false, spans⟩
    return (scan.hit, scan.spans)

def asciiBytes (cs : List Char) : List UInt8 := cs.map fun c => UInt8.ofNat c.toNat

/-- A Base64 text without its padding. -/
def unpadded (cs : List Char) : List Char := (cs.reverse.dropWhile (· == '=')).reverse

def base64Spellings (secret : List UInt8) : List (List UInt8) :=
  let b64 := Base64.encode Base64.standard secret
  let b64Url := Base64.encode Base64.urlSafe secret
  [asciiBytes b64, asciiBytes (unpadded b64), asciiBytes b64Url, asciiBytes (unpadded b64Url)]

def patterns (textLen : Nat) (secret : List UInt8) : List (List UInt8 × Bool) :=
  let spellings := secret :: if (secret.length * 4 + 2) / 3 ≤ textLen then base64Spellings secret else []
  spellings.flatMap fun pattern => [(pattern, false), (pattern, true)]

structure Hits where
  spans : List Span
  names : ExtTreeSet String compare

section

variable (text : List UInt8)

def scanPattern (asciiCaseInsensitive : Bool) (owner : Nat) (name : String) (hits : Hits)
    (pattern : List UInt8 × Bool) : Except Unit Hits := do
  let found ← findSecretSpans text pattern.1 pattern.2 asciiCaseInsensitive owner hits.spans
  return ⟨found.2, if found.1 then hits.names.insert name else hits.names⟩

/-- A name and its value. -/
abbrev Named := String × List UInt8

def scanSecret (asciiCaseInsensitive : Bool) (hits : Hits) (entry : Named × Nat) : Except Unit Hits :=
  if entry.1.2 = [] then .ok hits
  else if maxSecretPatternBytes < entry.1.2.length then .error ()
  else (patterns text.length entry.1.2).foldlM (scanPattern text asciiCaseInsensitive entry.2 entry.1.1) hits

def Span.before (a b : Span) : Bool :=
  a.start < b.start || (a.start == b.start && (b.stop < a.stop || (b.stop == a.stop && a.owner ≤ b.owner)))

def mergeFrom (current : Span) : List Span → List Span
  | [] => [current]
  | next :: rest =>
    if next.start < current.stop then mergeFrom { current with stop := max current.stop next.stop } rest
    else current :: mergeFrom next rest

def merged (spans : List Span) : List Span :=
  match spans.mergeSort Span.before with
  | [] => []
  | first :: rest => mergeFrom first rest

def marker (name : String) : List UInt8 := textBytes ("[REDACTED:FERROGATE:" ++ name ++ "]")

def slice (start stop : Nat) : List UInt8 := (text.take stop).drop start

def renderFrom (text : List UInt8) (external : List Named) (cursor : Nat) : List Span → List UInt8
  | [] => text.drop cursor
  | span :: rest =>
    slice text cursor span.start ++ marker ((external[span.owner]?.map (·.1)).getD "") ++
      renderFrom text external span.stop rest

def failClosed (external : List Named) : List UInt8 × List String :=
  (textBytes "[REDACTED:FERROGATE]",
    ((external.filter (·.2 ≠ [])).foldl (fun names entry => names.insert entry.1) (∅ : ExtTreeSet String compare)).toList)

def redactPairs (external : List Named) (asciiCaseInsensitive : Bool) : List UInt8 × List String :=
  if maxSecretScanBytes < text.length * external.length * 10 then failClosed external
  else
    match external.zipIdx.foldlM (scanSecret text asciiCaseInsensitive) ⟨[], ∅⟩ with
    | .error () => failClosed external
    | .ok hits => (renderFrom text external 0 (merged hits.spans), hits.names.toList)

def tokenByte (b : UInt8) : Bool :=
  (0x30 ≤ b && b ≤ 0x39) || (0x41 ≤ b && b ≤ 0x5A) || (0x61 ≤ b && b ≤ 0x7A) || b == 0x5F || b == 0x2D

def tokenTail : List UInt8 := text.takeWhile tokenByte

end

def redactPrefixedTokens (start replacement : List UInt8) : Nat → List UInt8 → List UInt8 × Bool
  | 0, text => (text, false)
  | fuel + 1, text =>
    match text with
    | [] => ([], false)
    | b :: rest =>
      if start.isPrefixOf (b :: rest) then
        let afterStart := (b :: rest).drop start.length
        if 6 ≤ (tokenTail afterStart).length then
          let later := redactPrefixedTokens start replacement fuel (afterStart.drop (tokenTail afterStart).length)
          (replacement ++ later.1, true)
        else
          let later := redactPrefixedTokens start replacement fuel afterStart
          (start ++ later.1, later.2)
      else
        let later := redactPrefixedTokens start replacement fuel rest
        (b :: later.1, later.2)

def knownPrefixes : List (String × String) :=
  [("sk-ant-", "ANTHROPIC_TOKEN"), ("sk-proj-", "OPENAI_TOKEN"), ("ghp_", "GITHUB_PAT"),
    ("github_pat_", "GITHUB_FINE_PAT"), ("xoxb-", "SLACK_BOT_TOKEN")]

def scrubPrefix (scrubbed : List UInt8 × List String) (known : String × String) : List UInt8 × List String :=
  let redacted := redactPrefixedTokens (textBytes known.1) (marker known.2) scrubbed.1.length scrubbed.1
  if redacted.2 then (redacted.1, if scrubbed.2.contains known.2 then scrubbed.2 else scrubbed.2 ++ [known.2])
  else scrubbed

def scrubKnownPrefixes (scrubbed : List UInt8 × List String) : List UInt8 × List String := knownPrefixes.foldl scrubPrefix scrubbed

def allDecryptedForScrubbing (vault : OpenVault) : List Named :=
  vault.file.secrets.toList.filterMap fun entry =>
    match decryptRaw vault.crypto vault.key vault.nowMs vault.file entry.1 with
    | .error _ => none
    | .ok (_, value) => if value = "" then none else some (entry.1, textBytes value)

def soughtSecrets (vault : OpenVault) (external : List (String × String)) : List Named :=
  external.map (fun entry => (entry.1, textBytes entry.2)) ++
    (allDecryptedForScrubbing vault).filter fun entry => 4 ≤ entry.2.length

section

variable (vault : OpenVault) (text : String) (external : List (String × String))

def redactWithVault (asciiCaseInsensitive : Bool) : List UInt8 × List String :=
  scrubKnownPrefixes (redactPairs (textBytes text) (soughtSecrets vault external) asciiCaseInsensitive)

def scrubWithExternal : List UInt8 × List String :=
  redactWithVault vault text external false

end

structure UpstreamResponse where
  status : UInt16
  headers : List (String × Option String)
  body : String

structure ProxyResponse where
  status : UInt16
  headers : ExtTreeMap String (List UInt8) compare
  body : List UInt8
  scrubbedSecrets : ExtTreeSet String compare

structure CleanHeaders where
  headers : ExtTreeMap String (List UInt8) compare
  scrubbedNames : ExtTreeSet String compare

section

variable (vault : OpenVault) (external : List (String × String))

def scrubHeader (clean : CleanHeaders) (header : String × Option String) : CleanHeaders :=
  let nameHits := (redactWithVault vault header.1 external true).2
  if nameHits ≠ [] then { clean with scrubbedNames := nameHits.foldl (fun set name => set.insert name) clean.scrubbedNames }
  else
    match header.2 with
    | none => clean
    | some value =>
      let scrubbed := scrubWithExternal vault value external
      { headers := clean.headers.insert (toAsciiLowercase header.1) scrubbed.1
        scrubbedNames := scrubbed.2.foldl (fun set name => set.insert name) clean.scrubbedNames }

def scrubResponse (response : UpstreamResponse) : ProxyResponse :=
  let clean := response.headers.foldl (scrubHeader vault external) ⟨∅, ∅⟩
  let body := scrubWithExternal vault response.body external
  { status := response.status
    headers := clean.headers
    body := body.1
    scrubbedSecrets := body.2.foldl (fun set name => set.insert name) clean.scrubbedNames }

def upstreamCause (cause : String) : List UInt8 :=
  (scrubWithExternal vault cause external).1

end

end FerroLoop.Proxy

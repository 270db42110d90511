import FerroLoop.Lib.Checked
import FerroLoop.Lib.Text

namespace FerroLoop.Governor

open Text List

structure EndpointAlias where
  connectorId : String
  tool : String
  host : String
  pathPrefix : String
  deriving DecidableEq

def normalizeHost (host : String) : String :=
  let h := trimEndMatches '.' (toAsciiLowercase (trim host))
  ((stripSuffix h ":443").or (stripSuffix h ":80")).getD h

def normalizePath (path : String) : String :=
  if path = "" then ""
  else
    let p := if startsWith path "/" then path else "/" ++ path
    if 1 < p.utf8ByteSize then trimEndMatches '/' p else p

def canonicalEndpoint (connector tool : Option String) (urlHost path : String) : String :=
  let host := normalizeHost urlHost
  if host = "" then
    match connector, tool with
    | some c, some t => "connector:" ++ c ++ "/" ++ t
    | _, _ => normalizePath path
  else host ++ normalizePath path

def EndpointAlias.named (connector tool : String) (a : EndpointAlias) : Bool :=
  a.connectorId == connector && a.tool == tool

/-- The alias covers a path on a host: the path is its prefix, or extends it past a `/`. -/
def EndpointAlias.covers (host path : String) (a : EndpointAlias) : Bool :=
  normalizeHost a.host == host && normalizePath a.pathPrefix != "" &&
    (path == normalizePath a.pathPrefix || startsWith path (normalizePath a.pathPrefix ++ "/"))

section

variable (aliases : List EndpointAlias) (connector tool : Option String) (urlHost path : String)

def resolveRaw : String :=
  let host := normalizeHost urlHost
  if host ≠ "" then
    let normPath := normalizePath path
    match aliases.find? (EndpointAlias.covers host normPath) with
    | some a => host ++ normalizePath a.pathPrefix
    | none => host ++ normPath
  else canonicalEndpoint connector tool urlHost path

def resolveCanonicalEndpoint : String :=
  match connector, tool with
  | some c, some t =>
    match aliases.find? (EndpointAlias.named c t) with
    | some a => normalizeHost a.host ++ normalizePath a.pathPrefix
    | none => resolveRaw aliases connector tool urlHost path
  | _, _ => resolveRaw aliases connector tool urlHost path

end

structure InvalidUrl where
  url : String
  reason : String
  deriving DecidableEq

/-- One or more ASCII digits that a `u16` holds. -/
def parsePort (raw : String) : Option UInt16 :=
  if raw.toList.isEmpty || !raw.toList.all Char.isDigit then none
  else
    let n := raw.toList.foldl (fun n c => 10 * n + (c.toNat - '0'.toNat)) 0
    if n < 65536 then some (UInt16.ofNat n) else none

def endsAuthority (c : Char) : Bool := c == '/' || c == '?' || c == '#'

def hostByte (c : Char) : Bool := c.isAlphanum || c == '.' || c == '-' || c == '_'

section Parse

variable (isIpv6 : String → Bool)

def parseBracketed (authority : List Char) (defaultPort : UInt16) : Except String (String × UInt16) :=
  match (authority.drop 1).dropWhile (· != ']') with
  | [] => .error "unclosed IPv6 bracket in host"
  | _ :: restPort =>
    let h := toAsciiLowercase (String.ofList ((authority.drop 1).takeWhile (· != ']')))
    if !isIpv6 h then .error "bracketed host must be a plain IPv6 address"
    else
      match restPort with
      | [] => .ok (h, defaultPort)
      | ':' :: digits =>
        match parsePort (String.ofList digits) with
        | some p => .ok (h, p)
        | none => .error "invalid port number"
      | _ => .error "unexpected characters after the IPv6 host"

def parsePlain (authority : String) (defaultPort : UInt16) : Except String (String × UInt16) :=
  match rsplitOnce ':' authority with
  | some (h, digits) =>
    match parsePort digits with
    | some p => .ok (toAsciiLowercase h, p)
    | none => .error "invalid port number"
  | none => .ok (toAsciiLowercase authority, defaultPort)

def parseAuthority (authority : String) (defaultPort : UInt16) : Except String (String × UInt16) :=
  if startsWith authority "[" then parseBracketed isIpv6 authority.toList defaultPort
  else parsePlain authority defaultPort

def parseUrlSchemeHostPort (rawUrl : String) : Except InvalidUrl (String × String × UInt16) :=
  match splitOnce "://" (trim rawUrl) with
  | none => .error ⟨rawUrl, "URL must start with https:// or http://"⟩
  | some (scheme, afterScheme) =>
    let schemeLower := toAsciiLowercase scheme
    if schemeLower ≠ "https" ∧ schemeLower ≠ "http" then
      .error ⟨rawUrl, "unsupported URL scheme `" ++ schemeLower ++ "`"⟩
    else
      let authority := String.ofList (afterScheme.toList.takeWhile fun c => !endsAuthority c)
      if authority = "" ∨ '@' ∈ authority.toList then
        .error ⟨rawUrl, "URL authority must be a valid host without embedded credentials"⟩
      else
        match parseAuthority isIpv6 authority (if schemeLower = "https" then 443 else 80) with
        | .error reason => .error ⟨rawUrl, reason⟩
        | .ok (host, port) =>
          if !startsWith authority "[" && !host.toList.all hostByte then
            .error ⟨rawUrl, "host contains characters that are not valid in a hostname"⟩
          else if host = "" then .error ⟨rawUrl, "empty host in URL"⟩
          else .ok (schemeLower, host, port)

def urlPath (url : String) : String :=
  match splitOnce "://" url with
  | none => ""
  | some (_, after) => String.ofList ((after.toList.dropWhile (· != '/')).takeWhile fun c => c != '?' && c != '#')

def joinUrlPaths (start path : String) : String :=
  let p := trimEndMatches '/' start
  if p = "" then (if startsWith path "/" then path else "/" ++ path)
  else if path = "" then p
  else if startsWith path "/" then p ++ path
  else p ++ "/" ++ path

structure ConnectorToolDef where
  name : String
  path : String
  deriving DecidableEq

structure ConnectorManifest where
  id : String
  baseUrl : String
  tools : List ConnectorToolDef
  deriving DecidableEq

def ConnectorManifest.toolPath (m : ConnectorManifest) (t : ConnectorToolDef) : String :=
  joinUrlPaths (urlPath m.baseUrl) t.path

def ConnectorManifest.aliases (m : ConnectorManifest) : List EndpointAlias :=
  match parseUrlSchemeHostPort isIpv6 m.baseUrl with
  | .error _ => []
  | .ok (_, host, _) => m.tools.map fun t => ⟨m.id, t.name, host, m.toolPath t⟩

def connectorEndpointAliases (manifests : List ConnectorManifest) : List EndpointAlias :=
  manifests.flatMap (ConnectorManifest.aliases isIpv6)

end Parse

theorem mem_authority {after : String} {c : Char}
    (member : c ∈ (String.ofList (after.toList.takeWhile fun c => !endsAuthority c)).toList) : endsAuthority c = false := by
  rw [String.toList_ofList] at member
  simpa using mem_takeWhile_imp member

variable {isIpv6 : String → Bool} {host path : String} {port : UInt16} {a : EndpointAlias}
  {aliases : List EndpointAlias}

variable {default : UInt16}

theorem parseBracketed_host {authority : List Char}
    (parsed : parseBracketed isIpv6 authority default = .ok (host, port)) :
    host = toAsciiLowercase (String.ofList ((authority.drop 1).takeWhile (· != ']'))) := by
  unfold parseBracketed at parsed
  split at parsed
  · cases parsed
  dsimp only at parsed
  split at parsed
  · cases parsed
  split at parsed
  · cases parsed
    rfl
  · split at parsed
    · cases parsed
      rfl
    · cases parsed
  · cases parsed

theorem parseAuthority_host {isIpv6 : String → Bool} {authority host : String} {port : UInt16}
    (parsed : parseAuthority isIpv6 authority default = .ok (host, port)) (bracketed : startsWith authority "[" = true)
    {c : Char} (other : c.isLower = false) (member : c ∈ host.toList) : c ∈ authority.toList := by
  unfold parseAuthority at parsed
  rw [if_pos bracketed] at parsed
  rw [parseBracketed_host parsed] at member
  have within := mem_toAsciiLowercase other member
  rw [String.toList_ofList] at within
  exact mem_of_mem_drop ((takeWhile_sublist _).subset within)

variable {scheme : String}

theorem parse_host_slash {rawUrl : String}
    (parsed : parseUrlSchemeHostPort isIpv6 rawUrl = .ok (scheme, host, port)) : '/' ∉ host.toList := by
  intro member
  unfold parseUrlSchemeHostPort at parsed
  split at parsed
  · cases parsed
  rename_i scheme' afterScheme split'
  dsimp only at parsed
  split at parsed
  · cases parsed
  split at parsed
  · cases parsed
  split at parsed
  · cases parsed
  rename_i host' port' answered
  split at parsed
  · cases parsed
  rename_i checked
  split at parsed
  · cases parsed
  cases parsed
  cases bracketed : startsWith (String.ofList (afterScheme.toList.takeWhile fun c => !endsAuthority c)) "[" with
  | true =>
    have ended := mem_authority (parseAuthority_host answered bracketed (by decide) member)
    revert ended
    decide
  | false =>
    rw [bracketed] at checked
    simp only [Bool.not_false, Bool.true_and, Bool.not_eq_true', Bool.not_eq_false] at checked
    have byte := all_eq_true.mp checked '/' member
    revert byte
    decide

theorem normalizeHost_slash (free : '/' ∉ host.toList) : '/' ∉ (normalizeHost host).toList := by
  intro member
  apply free
  have lowered : ∀ {c : Char}, c.isLower = false → c ∈ (trimEndMatches '.' (toAsciiLowercase (trim host))).toList →
      c ∈ host.toList := fun other here => mem_trim (mem_toAsciiLowercase other (mem_trimEndMatches here))
  apply lowered (by decide)
  unfold normalizeHost at member
  dsimp only at member
  cases https : stripSuffix (trimEndMatches '.' (toAsciiLowercase (trim host))) ":443" with
  | some left =>
    rw [https] at member
    exact mem_stripSuffix https member
  | none =>
    rw [https] at member
    cases http : stripSuffix (trimEndMatches '.' (toAsciiLowercase (trim host))) ":80" with
    | some left =>
      rw [http] at member
      exact mem_stripSuffix http member
    | none =>
      rw [http] at member
      exact member

variable {manifests : List ConnectorManifest}

theorem aliases_host_slash
    (member : a ∈ connectorEndpointAliases isIpv6 manifests) : '/' ∉ a.host.toList := by
  obtain ⟨m, -, here⟩ := mem_flatMap.mp member
  unfold ConnectorManifest.aliases at here
  split at here
  · cases here
  rename_i scheme host port parsed
  obtain ⟨t, -, same⟩ := mem_map.mp here
  subst same
  exact parse_host_slash parsed

def Rooted (path : List Char) : Prop := path = [] ∨ ∃ rest, path = '/' :: rest

theorem trimEndMatches_rooted {s : String} (rooted : Rooted s.toList) (c : Char) : Rooted (trimEndMatches c s).toList := by
  unfold trimEndMatches
  rw [String.toList_ofList]
  have kept : (s.toList.reverse.dropWhile (· == c)).reverse <+: s.toList := by
    have back := dropWhile_suffix (fun d => d == c) (l := s.toList.reverse)
    have front := reverse_prefix.mpr back
    rwa [reverse_reverse] at front
  rcases whole : (s.toList.reverse.dropWhile (· == c)).reverse with _ | ⟨first, rest⟩
  · exact .inl rfl
  rw [whole] at kept
  rcases rooted with none | ⟨others, same⟩
  · rw [none] at kept
    cases prefix_nil.mp kept
  · rw [same] at kept
    obtain ⟨head, -⟩ := cons_prefix_cons.mp kept
    exact .inr ⟨rest, by rw [head]⟩

theorem slash_toList : ("/" : String).toList = ['/'] := by decide

theorem startsWith_rooted {p : String} (starts : startsWith p "/" = true) : Rooted p.toList := by
  obtain ⟨rest, same⟩ := startsWith_iff.mp starts
  refine .inr ⟨rest.toList, ?_⟩
  rw [same, String.toList_append, slash_toList]
  exact singleton_append

theorem rooted_slash_append (path : String) : Rooted ("/" ++ path).toList := by
  refine .inr ⟨path.toList, ?_⟩
  rw [String.toList_append, slash_toList]
  exact singleton_append

theorem rooted_ite {c : Prop} [Decidable c] {p q : String} (left : c → Rooted p.toList) (right : ¬c → Rooted q.toList) :
    Rooted (if c then p else q).toList := by
  by_cases holds : c
  · rw [if_pos holds]
    exact left holds
  · rw [if_neg holds]
    exact right holds

theorem normalizePath_rooted (path : String) : Rooted (normalizePath path).toList := by
  have rooted : Rooted (if startsWith path "/" then path else "/" ++ path).toList :=
    rooted_ite startsWith_rooted fun _ => rooted_slash_append path
  refine rooted_ite (fun _ => .inl ?_) fun _ => rooted_ite (fun _ => trimEndMatches_rooted rooted '/') fun _ => rooted
  decide

theorem takeWhile_host {host path : List Char} (free : '/' ∉ host) (rooted : Rooted path) :
    (host ++ path).takeWhile (· != '/') = host := by
  rw [takeWhile_append_of_pos]
  · rcases rooted with none | ⟨rest, same⟩
    · rw [none]
      exact append_nil host
    · rw [same, takeWhile_cons_of_neg (by decide), append_nil]
  · intro c member
    simp only [bne_iff_ne, ne_eq]
    intro slash
    rw [slash] at member
    exact free member

theorem endpoint_inj {host' path' : String} (free : '/' ∉ host.toList) (free' : '/' ∉ host'.toList)
    (rooted : Rooted path.toList) (rooted' : Rooted path'.toList) (same : host ++ path = host' ++ path') :
    host = host' ∧ path = path' := by
  have chars := congrArg String.toList same
  rw [String.toList_append, String.toList_append] at chars
  have hosts := congrArg (List.takeWhile (· != '/')) chars
  rw [takeWhile_host free rooted, takeWhile_host free' rooted'] at hosts
  rw [hosts] at chars
  exact ⟨String.toList_inj.mp hosts, String.toList_inj.mp (append_cancel_left chars)⟩

theorem own_alias {m : ConnectorManifest}
    {t : ConnectorToolDef} (listed : m ∈ manifests) (offered : t ∈ m.tools)
    (parsed : parseUrlSchemeHostPort isIpv6 m.baseUrl = .ok (scheme, host, port)) :
    ⟨m.id, t.name, host, m.toolPath t⟩ ∈ connectorEndpointAliases isIpv6 manifests := by
  refine mem_flatMap.mpr ⟨m, listed, ?_⟩
  unfold ConnectorManifest.aliases
  rw [parsed]
  exact mem_map.mpr ⟨t, offered, rfl⟩

def rawPath (aliases : List EndpointAlias) (host path : String) : String :=
  if host = "" then path
  else ((aliases.find? (EndpointAlias.covers host path)).map fun a => normalizePath a.pathPrefix).getD path

theorem resolveRaw_eq (aliases : List EndpointAlias) (urlHost path : String) :
    resolveRaw aliases none none urlHost path =
      normalizeHost urlHost ++ rawPath aliases (normalizeHost urlHost) (normalizePath path) := by
  unfold resolveRaw rawPath
  dsimp only
  by_cases blank : normalizeHost urlHost = ""
  · rw [if_neg (not_not_intro blank), if_pos blank]
    unfold canonicalEndpoint
    rw [if_pos blank, blank, String.empty_append]
  · rw [if_pos blank, if_neg blank]
    cases aliases.find? (EndpointAlias.covers (normalizeHost urlHost) (normalizePath path)) with
    | none => rfl
    | some a => rfl

theorem rawPath_rooted (rooted : Rooted path.toList) :
    Rooted (rawPath aliases host path).toList := by
  refine rooted_ite (fun _ => rooted) fun _ => ?_
  cases aliases.find? (EndpointAlias.covers host path) with
  | none => exact rooted
  | some a => exact normalizePath_rooted a.pathPrefix

theorem covers_of_prefix {b : EndpointAlias} (onHost : normalizeHost a.host = host)
    (same : normalizePath a.pathPrefix = normalizePath b.pathPrefix) (covered : b.covers host path = true) :
    a.covers host path = true := by
  unfold EndpointAlias.covers at covered ⊢
  rw [same, onHost, beq_self_eq_true, Bool.true_and]
  rw [Bool.and_assoc] at covered
  exact (Bool.and_eq_true_iff.mp covered).2

/-- A raw call to the path lands on the prefix of `a`: `a` is on its host, `a` covers the path or has it
as its prefix, and an alias that covers the path with another prefix stands behind one with this prefix. -/
structure LandsOn (aliases : List EndpointAlias) (a : EndpointAlias) (host path : String) : Prop where
  onHost : normalizeHost a.host = host
  reaches : normalizePath a.pathPrefix = path ∨ host ≠ "" ∧ a.covers host path = true
  first : host ≠ "" → ∀ (before after : List EndpointAlias) (b : EndpointAlias), aliases = before ++ b :: after →
    b.covers host path = true → normalizePath b.pathPrefix ≠ normalizePath a.pathPrefix →
    ∃ c ∈ before, c.covers host path = true ∧ normalizePath c.pathPrefix = normalizePath a.pathPrefix

theorem rawPath_of_landsOn (member : a ∈ aliases)
    (lands : LandsOn aliases a host path) : rawPath aliases host path = normalizePath a.pathPrefix := by
  unfold rawPath
  by_cases blank : host = ""
  · rw [if_pos blank]
    rcases lands.reaches with same | ⟨named, -⟩
    · exact same.symm
    · exact absurd blank named
  rw [if_neg blank]
  cases found : aliases.find? (EndpointAlias.covers host path) with
  | none =>
    rcases lands.reaches with same | ⟨-, covered⟩
    · exact same.symm
    · exact absurd covered (find?_eq_none.mp found a member)
  | some b =>
    obtain ⟨covered, before, after, split, earlier⟩ := find?_eq_some_iff_append.mp found
    show normalizePath b.pathPrefix = normalizePath a.pathPrefix
    by_cases same : normalizePath b.pathPrefix = normalizePath a.pathPrefix
    · exact same
    obtain ⟨c, here, reached, -⟩ := lands.first blank before after b split covered same
    have refused := earlier c here
    rw [reached] at refused
    cases refused

theorem landsOn_of_rawPath
    (onHost : normalizeHost a.host = host) (same : rawPath aliases host path = normalizePath a.pathPrefix) :
    LandsOn aliases a host path := by
  unfold rawPath at same
  by_cases blank : host = ""
  · rw [if_pos blank] at same
    exact ⟨onHost, .inl same.symm, fun named => absurd blank named⟩
  rw [if_neg blank] at same
  cases found : aliases.find? (EndpointAlias.covers host path) with
  | none =>
    rw [found] at same
    refine ⟨onHost, .inl same.symm, fun _ before after b split covered _ => ?_⟩
    have listed : b ∈ aliases := by
      rw [split]
      exact mem_append_right before mem_cons_self
    exact absurd covered (find?_eq_none.mp found b listed)
  | some b =>
    rw [found] at same
    have covered : b.covers host path = true := find?_some found
    refine ⟨onHost, .inr ⟨blank, covers_of_prefix onHost same.symm covered⟩, ?_⟩
    intro _ before after c split reached other
    rw [split, find?_append] at found
    cases early : before.find? (EndpointAlias.covers host path) with
    | some d =>
      rw [early] at found
      cases found
      exact ⟨b, mem_of_find?_eq_some early, covered, same⟩
    | none =>
      rw [early, Option.none_or, find?_cons_of_pos reached] at found
      cases found
      exact absurd same other

/-- Connector and raw calls to a tool get one endpoint when a raw call lands on the alias of its name. -/
theorem one_endpoint_iff (isIpv6 : String → Bool) (manifests : List ConnectorManifest) (m : ConnectorManifest)
    (t : ConnectorToolDef) (scheme host : String) (port : UInt16) (listed : m ∈ manifests) (offered : t ∈ m.tools)
    (parsed : parseUrlSchemeHostPort isIpv6 m.baseUrl = .ok (scheme, host, port)) :
    let aliases := connectorEndpointAliases isIpv6 manifests
    let path := m.toolPath t
    resolveCanonicalEndpoint aliases (some m.id) (some t.name) host path =
        resolveCanonicalEndpoint aliases none none host path ↔
      ∃ a, aliases.find? (EndpointAlias.named m.id t.name) = some a ∧
        LandsOn aliases a (normalizeHost host) (normalizePath path) := by
  intro aliases path
  have own : (⟨m.id, t.name, host, path⟩ : EndpointAlias) ∈ aliases := own_alias listed offered parsed
  cases found : aliases.find? (EndpointAlias.named m.id t.name) with
  | none =>
    have unnamed := find?_eq_none.mp found _ own
    unfold EndpointAlias.named at unnamed
    simp only [beq_self_eq_true, Bool.and_self, not_true_eq_false] at unnamed
  | some a =>
    have member := mem_of_find?_eq_some found
    have connector : resolveCanonicalEndpoint aliases (some m.id) (some t.name) host path =
        normalizeHost a.host ++ normalizePath a.pathPrefix := by
      unfold resolveCanonicalEndpoint
      dsimp only
      rw [found]
    have raw : resolveCanonicalEndpoint aliases none none host path =
        normalizeHost host ++ rawPath aliases (normalizeHost host) (normalizePath path) :=
      resolveRaw_eq aliases host path
    rw [connector, raw]
    constructor
    · intro same
      obtain ⟨hosts, paths⟩ := endpoint_inj (normalizeHost_slash (aliases_host_slash member))
        (normalizeHost_slash (parse_host_slash parsed)) (normalizePath_rooted _) (rawPath_rooted (normalizePath_rooted _)) same
      exact ⟨a, rfl, landsOn_of_rawPath hosts paths.symm⟩
    · rintro ⟨b, same, lands⟩
      cases same
      rw [rawPath_of_landsOn member lands, lands.onHost]

def searchConnector : ConnectorManifest := ⟨"search", "https://API.example.com:443/v1", [⟨"find", "/find"⟩, ⟨"list", "list"⟩]⟩

theorem one_endpoint_search :
    resolveCanonicalEndpoint (connectorEndpointAliases (fun _ => false) [searchConnector]) (some "search") (some "list")
        "api.example.com" "/v1/list" =
      resolveCanonicalEndpoint (connectorEndpointAliases (fun _ => false) [searchConnector]) none none "api.example.com"
        "/v1/list" := by
  refine (one_endpoint_iff (fun _ => false) [searchConnector] searchConnector ⟨"list", "list"⟩ "https" "api.example.com" 443
    (by decide) (by decide) (Checked.ok_of_toOption (by decide +kernel))).mpr ⟨⟨"search", "list", "api.example.com", "/v1/list"⟩, by decide +kernel, ?_⟩
  apply landsOn_of_rawPath
  · decide +kernel
  · decide +kernel

/-- A tool whose path goes on from that of an earlier tool: a raw call is charged to the earlier one. -/
theorem overlapping_tools_differ :
    let m : ConnectorManifest := ⟨"c", "https://h", [⟨"a", "/a"⟩, ⟨"b", "/a/b"⟩]⟩
    let aliases := connectorEndpointAliases (fun _ => false) [m]
    parseUrlSchemeHostPort (fun _ => false) m.baseUrl = .ok ("https", "h", 443) ∧
    m.toolPath ⟨"b", "/a/b"⟩ = "/a/b" ∧
    resolveCanonicalEndpoint aliases (some "c") (some "b") "h" "/a/b" = "h/a/b" ∧
    resolveCanonicalEndpoint aliases none none "h" "/a/b" = "h/a" := by
  exact ⟨Checked.ok_of_toOption (by decide +kernel), by decide +kernel, by decide +kernel, by decide +kernel⟩

end FerroLoop.Governor

import FerroLoop.Proxy.Filled
import FerroLoop.Vault.StaysBound

namespace FerroLoop.Proxy

open List hiding getElem?_insert
open Std Text Checked Vault Gate Except

/-- Why a policy turns a request away. -/
inductive Refuses (nowMs : Nat) (metadata : VaultSecretMetadata) (asked : Asked) : Prop
  | usage (other : metadata.usage ≠ .proxy)
  | bundle (required : metadata.bundleRequired = true)
  | lease {exp : String} (leased : metadata.expiresAt = some exp) (past : exp < fromUnixMillis nowMs)
  | scheme (guarded : metadata.allowPrivateNetwork = false) (plain : asked.scheme ≠ "https")
  | host (unlisted : ∀ pattern ∈ metadata.allowedHosts, hostMatchesPattern asked.host pattern = false)
  | method (restricted : metadata.allowedMethods ≠ [])
      (unlisted : ∀ method ∈ metadata.allowedMethods, eqIgnoreAsciiCase method asked.method = false)
  | agent (restricted : metadata.allowedAgents ≠ [])
      (unlisted : ∀ agent ∈ metadata.allowedAgents, agent ≠ "*" ∧ eqIgnoreAsciiCase agent (callerName asked.caller) = false)

def ProxyRequest.Names (req : ProxyRequest) (name : String) : Prop := ∃ text ∈ req.texts, Mentions name text.toList

def ProxyRequest.Asks (req : ProxyRequest) (asked : Asked) : Prop :=
  ∃ scheme host port, parsedUrl req.url = .ok (scheme, host, port) ∧
    asked = ⟨scheme, host, toAsciiUppercase (trim req.method), req.callerAgent⟩

def Withheld (nowMs : Nat) (req : ProxyRequest) (name : String) (metadata : VaultSecretMetadata) : Prop :=
  req.Names name → ∀ asked, req.Asks asked → Refuses nowMs metadata asked

def OpenVault.reads (vault : OpenVault) (current : VaultFile) (name : String) : Except GateError (VaultSecretMetadata × List UInt8) :=
  decryptAuthenticatedBytes vault.crypto vault.key current name

structure DifferOnly (req : ProxyRequest) (one other : OpenVault) : Prop where
  clock : one.nowMs = other.nowMs
  opened : ∀ name, getMetadata one.file name = getMetadata other.file name
  unread : ∀ {e}, readVaultFile one.disk = .error e ↔ readVaultFile other.disk = .error e
  policies : ∀ {current current'}, readVaultFile one.disk = .ok current → readVaultFile other.disk = .ok current' →
    ∀ name, getMetadata current name = getMetadata current' name
  values : ∀ {current current'}, readVaultFile one.disk = .ok current → readVaultFile other.disk = .ok current' →
    ∀ name, one.reads current name = other.reads current' name ∨
      ∃ metadata value value', Withheld one.nowMs req name metadata ∧ one.reads current name = .ok (metadata, textBytes value) ∧
        other.reads current' name = .ok (metadata, textBytes value')

section Prepare

variable (outside : Outside)

def Admitted (vault : OpenVault) (req : ProxyRequest) (name value : String) : Prop :=
  ∃ current metadata asked, readVaultFile vault.disk = .ok current ∧ vault.reads current name = .ok (metadata, textBytes value) ∧
    req.Asks asked ∧ ¬Refuses vault.nowMs metadata asked

variable {outside}

variable {name : String} {asked : Asked} {metadata : VaultSecretMetadata} {nowMs : Nat} {taken after : Taken}
  {β α ε : Type} {req : ProxyRequest} {one other vault : OpenVault} {current : VaultFile} {names : List String}

theorem checkPolicy_ok
    (passed : checkPolicy outside name metadata asked = .ok ()) :
    (metadata.allowPrivateNetwork = false → asked.scheme = "https") ∧
      (∃ pattern ∈ metadata.allowedHosts, hostMatchesPattern asked.host pattern = true) ∧
      (metadata.allowedMethods ≠ [] → ∃ method ∈ metadata.allowedMethods, eqIgnoreAsciiCase method asked.method = true) ∧
      (metadata.allowedAgents ≠ [] → ∃ agent ∈ metadata.allowedAgents, agent = "*" ∨
        eqIgnoreAsciiCase agent (callerName asked.caller) = true) := by
  obtain ⟨_, scheme, passed⟩ := bind_ok passed
  obtain ⟨_, host, passed⟩ := bind_ok passed
  obtain ⟨_, method, agent⟩ := bind_ok passed
  have schemeOk := refuseIf_ok scheme
  have hostOk := refuseIf_ok host
  have methodOk := refuseIf_ok method
  have agentOk := refuseIf_ok agent
  refine ⟨?_, ?_, ?_, ?_⟩
  · intro guarded
    by_contra plain
    exact schemeOk ⟨guarded, plain⟩
  · have listed := not_not.mp (not_or.mp hostOk).2
    exact any_eq_true.mp listed
  · intro restricted
    have listed := not_not.mp fun unlisted => methodOk ⟨restricted, unlisted⟩
    exact any_eq_true.mp listed
  intro restricted
  have listed := not_not.mp fun unlisted => agentOk ⟨restricted, unlisted⟩
  obtain ⟨agent, member, fits⟩ := any_eq_true.mp listed
  refine ⟨agent, member, ?_⟩
  rcases (Bool.or_eq_true _ _).mp fits with star | same
  · exact .inl (beq_iff_eq.mp star)
  · exact .inr same

theorem checkedUse_ok (passed : checkedUse metadata = .ok ()) :
    metadata.usage = .proxy ∧ metadata.bundleRequired = false := by
  unfold checkedUse at passed
  split at passed
  · cases passed
  rename_i proxied
  split at passed
  · cases passed
  · rename_i free
    exact ⟨not_not.mp proxied, Bool.eq_false_iff.mpr free⟩

theorem checkLease_ok {exp : String} (passed : checkLease nowMs metadata = .ok ())
    (leased : metadata.expiresAt = some exp) : ¬exp < fromUnixMillis nowMs := by
  unfold checkLease at passed
  rw [leased] at passed
  dsimp only at passed
  split at passed
  · cases passed
  · assumption

theorem Refuses.not_passed
    (refuses : Refuses nowMs metadata asked) (lease : checkLease nowMs metadata = .ok ()) (use : checkedUse metadata = .ok ())
    (policy : checkPolicy outside name metadata asked = .ok ()) : False := by
  obtain ⟨scheme, host, method, agent⟩ := checkPolicy_ok policy
  obtain ⟨proxied, free⟩ := checkedUse_ok use
  cases refuses with
  | usage other => exact other proxied
  | bundle required => exact absurd (free.symm.trans required) (by decide)
  | lease leased past => exact checkLease_ok lease leased past
  | scheme guarded plain => exact plain (scheme guarded)
  | host unlisted =>
    obtain ⟨pattern, member, fits⟩ := host
    exact absurd (fits.symm.trans (unlisted pattern member)) (by decide)
  | method restricted unlisted =>
    obtain ⟨entry, member, fits⟩ := method restricted
    exact absurd (fits.symm.trans (unlisted entry member)) (by decide)
  | agent restricted unlisted =>
    obtain ⟨entry, member, fits⟩ := agent restricted
    rcases fits with star | same
    · exact (unlisted entry member).1 star
    · exact absurd (same.symm.trans (unlisted entry member).2) (by decide)

def settle (nowMs : Nat) (asked : Asked) (taken : Taken) (name : String) (metadata : VaultSecretMetadata) (bytes : List UInt8) :
    Except GateError Taken := do
  checkLease nowMs metadata
  checkedUse metadata
  let value ← secretText metadata bytes
  checkPolicy outside name metadata asked
  return ⟨taken.values.insert name value, taken.allowPrivate || metadata.allowPrivateNetwork⟩

theorem takeSecret_eq (vault : OpenVault) (current : VaultFile) (asked : Asked) (taken : Taken) (name : String) :
    takeSecret outside vault current asked taken name =
      vault.reads current name >>= fun opened => @settle outside vault.nowMs asked taken name opened.1 opened.2 := by
  unfold takeSecret resolveVaultSecretCurrent decryptBytes OpenVault.reads settle
  simp only [bind_assoc, pure_bind]

theorem secretText_text (metadata : VaultSecretMetadata) (value : String) : secretText metadata (textBytes value) = .ok value := by
  unfold secretText
  rw [ofUtf8_textBytes]

theorem settle_refuses
    (refuses : Refuses nowMs metadata asked) (value value' : String) :
    @settle outside nowMs asked taken name metadata (textBytes value) =
      @settle outside nowMs asked taken name metadata (textBytes value') := by
  unfold settle
  rw [secretText_text, secretText_text]
  rcases lease : checkLease nowMs metadata with e | _
  · rfl
  rcases use : checkedUse metadata with e | _
  · rfl
  cases policy : checkPolicy outside name metadata asked with
  | error e => rfl
  | ok => exact absurd policy fun policy => refuses.not_passed lease use policy

variable {bytes : List UInt8} {text : String}

theorem ofUtf8_eq_some (read : ofUtf8 bytes = some text) : textBytes text = bytes := by
  unfold ofUtf8 String.fromUTF8? at read
  split at read
  · have same := Option.some.inj read
    subst same
    rfl
  · cases read

theorem settle_ok
    (done : @settle outside nowMs asked taken name metadata bytes = .ok after) :
    ∃ value, bytes = textBytes value ∧ after.values = taken.values.insert name value ∧ ¬Refuses nowMs metadata asked := by
  obtain ⟨_, lease, done⟩ := bind_ok done
  obtain ⟨_, use, done⟩ := bind_ok done
  obtain ⟨value, text, done⟩ := bind_ok done
  obtain ⟨_, policy, done⟩ := bind_ok done
  have same := ok.inj done
  subst same
  refine ⟨value, ?_, rfl, fun refuses => refuses.not_passed lease use policy⟩
  unfold secretText at text
  split at text
  · cases text
  rename_i found read
  have same := ok.inj text
  subst same
  exact (ofUtf8_eq_some read).symm

theorem error_bind (e : ε) (f : α → Except ε β) : (.error e >>= f) = .error e := rfl

theorem bind_congr_ok {x : Except ε α} {f g : α → Except ε β} (same : ∀ a, x = .ok a → f a = g a) :
    (x >>= f) = x >>= g := by
  cases found : x with
  | error e => rfl
  | ok a => exact same a found

theorem foldlM_same {f g : β → α → Except ε β} {xs : List α} (same : ∀ x ∈ xs, ∀ b, f b x = g b x) (b : β) :
    xs.foldlM f b = xs.foldlM g b := by
  induction xs generalizing b with
  | nil => rfl
  | cons x xs ih =>
    rw [foldlM_cons, foldlM_cons, same x mem_cons_self]
    exact congrArg (g b x >>= ·) (funext fun after => ih (fun y member => same y (mem_cons_of_mem _ member)) after)

theorem forM_same {f g : α → Except ε Unit} {xs : List α} (same : ∀ x ∈ xs, f x = g x) : xs.forM f = xs.forM g := by
  induction xs with
  | nil => rfl
  | cons x xs ih =>
    show (f x >>= fun _ => xs.forM f) = (g x >>= fun _ => xs.forM g)
    rw [same x mem_cons_self, ih fun y member => same y (mem_cons_of_mem _ member)]

theorem mem_collected {keys : List String} {set : ExtTreeSet String compare} :
    name ∈ keys.foldl (fun set key => set.insert key) set ↔ name ∈ set ∨ name ∈ keys := by
  induction keys generalizing set with
  | nil => simp
  | cons key keys ih =>
    rw [foldl_cons, ih, ExtTreeSet.mem_insert, Std.compare_eq_iff_eq, mem_cons]
    constructor
    · rintro ((rfl | member) | later)
      · exact .inr (.inl rfl)
      · exact .inl member
      · exact .inr (.inr later)
    · rintro (member | rfl | later)
      · exact .inl (.inr member)
      · exact .inl (.inl rfl)
      · exact .inr later

theorem mapM_complete {f : α → Except ε β} {xs : List α} {ys : List β} (done : xs.mapM f = .ok ys) :
    ∀ x ∈ xs, ∃ y ∈ ys, f x = .ok y := by
  induction xs generalizing ys with
  | nil =>
    intro x member
    cases member
  | cons first rest ih =>
    rw [mapM_cons] at done
    obtain ⟨head, here, done⟩ := bind_ok done
    obtain ⟨tail, later, done⟩ := bind_ok done
    have same := ok.inj done
    subst same
    intro x member
    rcases mem_cons.mp member with rfl | others
    · exact ⟨head, mem_cons_self, here⟩
    · obtain ⟨y, memY, found⟩ := ih later x others
      exact ⟨y, mem_cons_of_mem _ memY, found⟩

theorem referencedKeys_ok {set : ExtTreeSet String compare} (done : referencedKeys req = .ok set) :
    (∀ name, name ∈ set.toList ↔ req.Names name) ∧
      ∀ text ∈ req.texts, ∃ out, extractFrom text.toList [] = .ok out ∧ ∀ name ∈ out, name ∈ set.toList := by
  obtain ⟨keys, scanned, done⟩ := bind_ok done
  have same := ok.inj done
  have member : ∀ name, name ∈ set.toList ↔ name ∈ keys.flatten := by
    intro name
    rw [ExtTreeSet.mem_toList, ← same, mem_collected]
    simp
  constructor
  · intro name
    rw [member, mem_flatten]
    constructor
    · rintro ⟨out, memOut, found⟩
      obtain ⟨text, memText, here⟩ := mapM_ok scanned out memOut
      have mentions := ((extractFrom_mem here name).mp found).resolve_left not_mem_nil
      exact ⟨text, memText, mentions⟩
    · rintro ⟨text, memText, mentions⟩
      obtain ⟨out, memOut, here⟩ := mapM_complete scanned text memText
      exact ⟨out, memOut, (extractFrom_mem here name).mpr (.inr mentions)⟩
  · intro text memText
    obtain ⟨out, memOut, here⟩ := mapM_complete scanned text memText
    refine ⟨out, here, fun name found => ?_⟩
    rw [member]
    exact mem_flatten.mpr ⟨out, memOut, found⟩

theorem takeSecret_same {current' : VaultFile}
    (differ : DifferOnly req one other) (read : readVaultFile one.disk = .ok current)
    (read' : readVaultFile other.disk = .ok current') (asks : req.Asks asked) (named : req.Names name) (taken : Taken) :
    takeSecret outside one current asked taken name = takeSecret outside other current' asked taken name := by
  rw [takeSecret_eq, takeSecret_eq, ← differ.clock]
  rcases differ.values read read' name with same | ⟨metadata, value, value', withheld, here, there⟩
  · rw [same]
  · rw [here, there]
    exact settle_refuses (withheld named asked asks) value value'

theorem resolveAll_same (differ : DifferOnly req one other)
    (named : ∀ name ∈ names, req.Names name) {scheme host : String} {port : UInt16} (parsed : parsedUrl req.url = .ok (scheme, host, port)) :
    resolveAll outside one req (toAsciiUppercase (trim req.method)) names (scheme, host, port) =
      resolveAll outside other req (toAsciiUppercase (trim req.method)) names (scheme, host, port) := by
  unfold resolveAll
  rcases read : readVaultFile one.disk with e | current
  · rw [differ.unread.mp read, error_bind, error_bind]
  rcases read' : readVaultFile other.disk with e | current'
  · rw [differ.unread.mpr read'] at read
    cases read
  have policies := differ.policies read read'
  have asks : req.Asks ⟨scheme, host, toAsciiUppercase (trim req.method), req.callerAgent⟩ :=
    ⟨scheme, host, port, parsed, rfl⟩
  have disappeared : ∀ name ∈ names, rejectDisappearedLocal one.file current name =
      rejectDisappearedLocal other.file current' name := by
    intro name member
    unfold rejectDisappearedLocal
    rw [differ.opened name, policies name]
  have network : allPrivate current names = allPrivate current' names := by
    unfold allPrivate
    exact congrArg _ (funext fun name => by rw [policies name])
  have takes : ∀ name ∈ names, ∀ taken,
      takeSecret outside one current ⟨scheme, host, toAsciiUppercase (trim req.method), req.callerAgent⟩ taken name =
        takeSecret outside other current' ⟨scheme, host, toAsciiUppercase (trim req.method), req.callerAgent⟩ taken name :=
    fun name member taken => takeSecret_same differ read read' asks (named name member) taken
  rw [ok_bind, ok_bind, forM_same disappeared, network]
  dsimp only
  rw [foldlM_same takes]

theorem prepareChecked_same (differ : DifferOnly req one other) :
    prepareChecked outside one req = prepareChecked outside other req := by
  refine bind_congr fun _ => ?_
  rcases collected : referencedKeys req with e | set
  · rw [error_bind, error_bind]
  rw [ok_bind, ok_bind]
  refine bind_congr fun _ => ?_
  rcases parsed : parsedUrl req.url with e | url
  · rw [error_bind, error_bind]
  rw [ok_bind, ok_bind]
  exact resolveAll_same differ (fun name => ((referencedKeys_ok collected).1 name).mp) parsed

def Collects (vault : OpenVault) (req : ProxyRequest) (values : Values) : Prop :=
  ∀ (name value : String), values[name]? = some value → Admitted vault req name value

theorem takeSecret_ok
    (read : readVaultFile vault.disk = .ok current) (asks : req.Asks asked)
    (done : takeSecret outside vault current asked taken name = .ok after) :
    ∃ value, Admitted vault req name value ∧ after.values = taken.values.insert name value := by
  rw [takeSecret_eq] at done
  obtain ⟨⟨metadata, bytes⟩, opened, done⟩ := bind_ok done
  obtain ⟨value, rfl, inserted, passes⟩ := settle_ok done
  exact ⟨value, ⟨current, metadata, asked, read, opened, asks, passes⟩, inserted⟩

theorem foldlM_takeSecret
    (read : readVaultFile vault.disk = .ok current) (asks : req.Asks asked)
    (done : names.foldlM (takeSecret outside vault current asked) taken = .ok after) (collected : Collects vault req taken.values) :
    Collects vault req after.values ∧
      ∀ (name : String), name ∈ names ∨ (taken.values[name]?).isSome → (after.values[name]?).isSome := by
  induction names generalizing taken with
  | nil =>
    have same := ok.inj done
    subst same
    exact ⟨collected, fun name known => known.resolve_left not_mem_nil⟩
  | cons first rest ih =>
    obtain ⟨mid, here, done⟩ := bind_ok done
    obtain ⟨value, admitted, inserted⟩ := takeSecret_ok read asks here
    have found : ∀ (name : String), mid.values[name]? = if first = name then some value else taken.values[name]? := by
      intro name
      rw [inserted, ExtTreeMap.getElem?_insert]
      simp only [Std.compare_eq_iff_eq]
    have next : Collects vault req mid.values := by
      intro name other held
      rw [found] at held
      split at held
      · rename_i same
        subst same
        rw [← Option.some.inj held]
        exact admitted
      · exact collected name other held
    obtain ⟨all, known⟩ := ih done next
    refine ⟨all, fun name sought => known name ?_⟩
    rw [found]
    rcases sought with member | held
    · rcases mem_cons.mp member with same | later
      · refine .inr ?_
        rw [if_pos same.symm]
        rfl
      · exact .inl later
    · refine .inr ?_
      split
      · rfl
      · exact held

structure Prepared (vault : OpenVault) (req : ProxyRequest) (result : PreparedProxyRequest) : Prop where
  /-- The scheme, the host and the port of the URL are those that were checked. -/
  destination : ∃ scheme port, parsedUrl req.url = .ok (scheme, result.host, port) ∧ parsedUrl result.url = .ok (scheme, result.host, port)
  method : result.method = toAsciiUppercase (trim req.method)
  url : Filled (Admitted vault req) req.url.toList result.url.toList
  /-- No placeholder stands before the query, and nothing else does. -/
  authority : ¬placeholderOpen <:+: beforeQuery req.url ∧ beforeQuery result.url = beforeQuery req.url
  headers : ∀ (name : String), Option.Rel (fun before after => Filled (Admitted vault req) before.toList after.toList)
    req.headers[name]? result.headers[name]?
  body : Option.Rel (fun before after => Filled (Admitted vault req) before.toList after.toList) req.body result.body
  injected : ∀ name, name ∈ result.injectedSecrets ↔ req.Names name

variable {holds : String → String → Prop}

theorem substitutePlaceholders_filled {values : Values} {out : List String}
    (scanned : extractFrom text.toList [] = .ok out) (within : ∀ name ∈ out, name ∈ names)
    (known : ∀ name ∈ names, ∃ value, values[name]? = some value ∧ holds name value) :
    Filled holds text.toList (substitutePlaceholders values text).toList := by
  unfold substitutePlaceholders
  rw [String.toList_ofList]
  exact substituteFrom_filled scanned fun name member => known name (within name member)

variable {url : String} {parsed : String × String × UInt16}

theorem parsedUrl_ok (done : parsedUrl url = .ok parsed) :
    Governor.parseUrlSchemeHostPort Ipv6.isIpv6 url = .ok parsed := by
  unfold parsedUrl at done
  split at done
  · cases done
  · rename_i found read
    rw [read, ok.inj done]

theorem Filled.destination {url' : String}
    (filled : Filled holds url.toList url'.toList) (free : ¬placeholderOpen <:+: Proxy.beforeQuery url)
    (done : parsedUrl url = .ok parsed) : parsedUrl url' = .ok parsed ∧ Proxy.beforeQuery url' = Proxy.beforeQuery url := by
  rcases filled.beforeQuery free with same | ⟨head, query, query', agree⟩
  · rw [String.toList_inj.mp same]
    exact ⟨done, rfl⟩
  refine ⟨?_, ?_⟩
  · unfold parsedUrl
    rw [parseUrl_query agree (parsedUrl_ok done)]
  · unfold Proxy.beforeQuery
    rw [agree.one, agree.other, takeWhile_stop (by decide), takeWhile_stop (by decide)]

theorem prepareChecked_ok {prepared : PreparedSecrets}
    (done : prepareChecked outside vault req = .ok prepared) : Prepared vault req prepared.request := by
  obtain ⟨_, _, done⟩ := bind_ok done
  obtain ⟨set, collected, done⟩ := bind_ok done
  obtain ⟨_, free, done⟩ := bind_ok done
  obtain ⟨⟨scheme, host, port⟩, parsed, done⟩ := bind_ok done
  obtain ⟨current, read, done⟩ := bind_ok done
  obtain ⟨_, _, done⟩ := bind_ok done
  obtain ⟨taken, loop, done⟩ := bind_ok done
  obtain ⟨_, _, done⟩ := bind_ok done
  have same := ok.inj done
  subst same
  obtain ⟨names, scans⟩ := referencedKeys_ok collected
  have asks : req.Asks ⟨scheme, host, toAsciiUppercase (trim req.method), req.callerAgent⟩ := ⟨scheme, host, port, parsed, rfl⟩
  obtain ⟨all, known⟩ := foldlM_takeSecret read asks loop (by
    intro name value held
    cases held)
  have valued : ∀ name ∈ set.toList, ∃ value, taken.values[name]? = some value ∧ Admitted vault req name value := by
    intro name member
    obtain ⟨value, held⟩ := Option.isSome_iff_exists.mp (known name (.inl member))
    exact ⟨value, held, all name value held⟩
  have fills : ∀ text ∈ req.texts, Filled (Admitted vault req) text.toList (substitutePlaceholders taken.values text).toList := by
    intro text member
    obtain ⟨out, scanned, within⟩ := scans text member
    exact substitutePlaceholders_filled scanned within valued
  have filledUrl := fills req.url mem_cons_self
  have clear : ¬placeholderOpen <:+: beforeQuery req.url :=
    splitAtFirst_eq_none.mp (not_not.mp (refuseIf_ok free))
  obtain ⟨destination, authority⟩ := filledUrl.destination clear parsed
  exact {
    destination := ⟨scheme, port, parsed, destination⟩
    method := rfl
    url := filledUrl
    authority := ⟨clear, authority⟩
    headers := by
      intro name
      show Option.Rel _ req.headers[name]? (req.headers.map fun _ value => substitutePlaceholders taken.values value)[name]?
      rw [ExtTreeMap.getElem?_map]
      cases held : req.headers[name]? with
      | none => exact .none
      | some value =>
        refine .some (fills value (mem_cons_of_mem _ (mem_append_left _ (mem_map.mpr ⟨(name, value), ?_, rfl⟩))))
        exact ExtTreeMap.mem_toList_iff_getElem?_eq_some.mpr held
    body := by
      show Option.Rel _ req.body (req.body.map (substitutePlaceholders taken.values))
      rcases held : req.body with _ | value
      · exact .none
      refine .some (fills value (mem_cons_of_mem _ (mem_append_right _ ?_)))
      rw [held]
      exact mem_singleton_self value
    injected := names }

/-- The values of secrets on which a request has no claim have no part in what is prepared, and what is prepared is the
request with admitted values in the places of its placeholders. -/
theorem request_carries_only_admitted_secrets :
    (∀ (req : ProxyRequest) (one other : OpenVault), DifferOnly req one other →
      prepareProxiedRequest outside one req = prepareProxiedRequest outside other req) ∧
    ∀ (req : ProxyRequest) (vault : OpenVault) (result : PreparedProxyRequest), prepareProxiedRequest outside vault req = .ok result →
      Prepared vault req result := by
  refine ⟨?_, ?_⟩
  · intro req one other differ
    unfold prepareProxiedRequest
    rw [prepareChecked_same differ]
  · intro req vault result done
    unfold prepareProxiedRequest at done
    obtain ⟨prepared, checked, done⟩ := bind_ok done
    have same := ok.inj done
    subst same
    exact prepareChecked_ok checked

end Prepare

def samplePolicy (name : String) (hosts : List String) : VaultSecretMetadata where
  name
  description := none
  allowedHosts := hosts
  allowedMethods := []
  allowedAgents := []
  allowPrivateNetwork := false
  createdAt := fromUnixMillis 1000
  updatedAt := fromUnixMillis 1000
  leaseTtlSecs := none
  expiresAt := none
  usage := .proxy
  bundleRequired := false
  appBinding := none

def sampleAcceptance (name : String) (hosts : List String) (value : String) : Acceptance where
  key := Vector.replicate 32 0
  metadata := samplePolicy name hosts
  value
  ends := none
  nonce := Vector.replicate 12 0
  ciphertext := sealedUnder (Vector.replicate 32 0) (Vector.replicate 12 (0 : UInt8)).toList
    (textBytes (canonicalAad (samplePolicy name hosts))) ++ packed (textBytes value)

def VaultFile.storing (crypto : Crypto) (file : VaultFile) (a : Acceptance) : VaultFile :=
  { file with secrets := file.secrets.insert a.metadata.name (a.record crypto) }

def OpenVault.onDisk (crypto : Crypto) (key : MasterKey) (file : VaultFile) (nowMs : Nat) : OpenVault :=
  ⟨crypto, key, file, .file file, nowMs⟩

variable {name : String}

section Storing

variable {crypto : Crypto} {file : VaultFile} {a b : Acceptance}

theorem storing_other (differs : name ≠ a.metadata.name) :
    (VaultFile.storing crypto file a).secrets[name]? = file.secrets[name]? := by
  unfold VaultFile.storing
  rw [ExtTreeMap.getElem?_insert, if_neg]
  intro same
  exact differs (Std.compare_eq_iff_eq.mp same).symm

theorem storing_self : (VaultFile.storing crypto file a).secrets[a.metadata.name]? = some (a.record crypto) :=
  ExtTreeMap.getElem?_insert_self

theorem storing_metadata (same : a.metadata = b.metadata) (name : String) :
    getMetadata (VaultFile.storing crypto file a) name = getMetadata (VaultFile.storing crypto file b) name := by
  unfold getMetadata
  rcases named : normalizeSecretName name with e | key
  · rfl
  show ((VaultFile.storing crypto file a).secrets[key]?).map _ = ((VaultFile.storing crypto file b).secrets[key]?).map _
  by_cases held : key = a.metadata.name
  · subst held
    rw [storing_self]
    rw [same, storing_self]
    show some a.metadata = some b.metadata
    rw [same]
  · rw [storing_other held, storing_other (same ▸ held)]

theorem DifferOnly.storing (ideal : Ideal crypto) (sealedA : Sealed crypto a) (sealedB : Sealed crypto b)
    (same : a.metadata = b.metadata) (keys : a.key = b.key) (unlisted : a.metadata.allowedHosts = [])
    (version : file.schemaVersion = vaultSchemaVersion) (req : ProxyRequest) (nowMs : Nat) :
    DifferOnly req (.onDisk crypto a.key (VaultFile.storing crypto file a) nowMs)
      (.onDisk crypto b.key (VaultFile.storing crypto file b) nowMs) := by
  have read : ∀ c : Acceptance, readVaultFile (.file (VaultFile.storing crypto file c)) = .ok (VaultFile.storing crypto file c) :=
    fun c => if_neg (not_not_intro version)
  refine ⟨rfl, storing_metadata same, ?_, ?_, ?_⟩
  · intro e
    show readVaultFile (.file _) = _ ↔ readVaultFile (.file _) = _
    rw [read, read]
    exact ⟨nofun, nofun⟩
  · intro current current' here there name
    rw [← ok.inj ((read a).symm.trans here), ← ok.inj ((read b).symm.trans there)]
    exact storing_metadata same name
  intro current current' here there name
  rw [← ok.inj ((read a).symm.trans here), ← ok.inj ((read b).symm.trans there)]
  by_cases held : normalizeSecretName name = .ok a.metadata.name
  · refine .inr ⟨a.metadata, a.value, b.value, ?_, decrypt_stored ideal sealedA held rfl storing_self, ?_⟩
    · intro _ asked _
      refine .host fun pattern member => ?_
      rw [unlisted] at member
      cases member
    · rw [same] at held ⊢
      exact decrypt_stored ideal sealedB held rfl storing_self
  · left
    show decryptAuthenticatedBytes crypto a.key _ name = decryptAuthenticatedBytes crypto b.key _ name
    rw [keys]
    refine bind_congr_ok fun key named => ?_
    have apart : key ≠ a.metadata.name := fun isOther => held (isOther ▸ named)
    have records : genuineRecord (VaultFile.storing crypto file a) key = genuineRecord (VaultFile.storing crypto file b) key := by
      unfold genuineRecord
      rw [storing_other apart, storing_other (same ▸ apart)]
    rw [records]

end Storing

def sampleFile : VaultFile := VaultFile.storing plainCrypto VaultFile.default (sampleAcceptance "API_KEY" ["api.example.com"] "k-1")

def sampleOther (value : String) : Acceptance := sampleAcceptance "OTHER" [] value

def sampleVault (other : String) : OpenVault :=
  .onDisk plainCrypto (sampleOther other).key (VaultFile.storing plainCrypto sampleFile (sampleOther other)) 2000

def sampleRequest : ProxyRequest where
  method := "post"
  url := "https://api.example.com/v1?key=\x7b\x7bFERROGATE:api_key\x7d\x7d"
  headers := ∅
  body := none
  callerAgent := none

def sampleOutside : Outside where
  ipLiteral _ := none
  socketAddrs _ _ := some [("93.184.215.14", false)]
  debugList _ := ""

theorem sampleAcceptance_sealed {value : String} {hosts : List String} (genuine : Genuine (samplePolicy name hosts))
    (small : (textBytes (canonicalAad (samplePolicy name hosts))).length < 2 ^ 63)
    (fits : (sampleAcceptance name hosts value).ciphertext.length < 2 ^ 63) : Sealed plainCrypto (sampleAcceptance name hosts value) :=
  ⟨genuine, ⟨small, fits⟩, rfl, rfl⟩

/-- The value of the admitted secret is in the query, whatever the value of the other one is. -/
theorem sample_carries_its_secret :
    ∃ result, prepareProxiedRequest sampleOutside (sampleVault "first") sampleRequest = .ok result ∧
      result.url = "https://api.example.com/v1?key=k-1" ∧ Prepared (sampleVault "first") sampleRequest result ∧
      prepareProxiedRequest sampleOutside (sampleVault "second") sampleRequest = .ok result := by
  have filled : (prepareProxiedRequest sampleOutside (sampleVault "first") sampleRequest).toOption.map (·.url) =
      some "https://api.example.com/v1?key=k-1" := by decide +kernel
  obtain ⟨result, done, url⟩ := Option.map_eq_some_iff.mp filled
  have returned := ok_of_toOption done
  have genuine : Genuine (samplePolicy "OTHER" []) := ⟨ok_of_toOption (by decide +kernel), by decide +kernel⟩
  have differ : DifferOnly sampleRequest (sampleVault "first") (sampleVault "second") :=
    @DifferOnly.storing plainCrypto sampleFile (sampleOther "first") (sampleOther "second") plainCrypto_ideal
      (sampleAcceptance_sealed genuine (by decide +kernel) (by decide +kernel))
      (sampleAcceptance_sealed genuine (by decide +kernel) (by decide +kernel)) rfl rfl rfl rfl sampleRequest 2000
  refine ⟨result, returned, url, request_carries_only_admitted_secrets.2 _ _ _ returned, ?_⟩
  rw [← request_carries_only_admitted_secrets.1 _ _ _ differ]
  exact returned

end FerroLoop.Proxy

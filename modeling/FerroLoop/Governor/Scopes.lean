import FerroLoop.Governor.Accounting
import FerroLoop.Lib.Text

namespace FerroLoop.Governor

open Std Word Machine Text List ScopeKey Inner

def ScopeKey.Overlaps (a b : ScopeKey) : Prop :=
  ∃ project between endpoint, a = .projectEndpointScope project (between ++ "|" ++ endpoint) ∧
    b = .projectEndpointScope (project ++ "|" ++ between) endpoint

def ScopeKey.Collide (a b : ScopeKey) : Prop := a.Overlaps b ∨ b.Overlaps a

variable {a b : ScopeKey}

theorem overlaps_string (overlaps : a.Overlaps b) : a.scopeString = b.scopeString ∧ a ≠ b := by
  obtain ⟨project, between, endpoint, first, second⟩ := overlaps
  rw [first, second]
  refine ⟨?_, ?_⟩
  · change "project_endpoint:" ++ project ++ "|" ++ (between ++ "|" ++ endpoint) =
      "project_endpoint:" ++ (project ++ "|" ++ between) ++ "|" ++ endpoint
    simp only [String.append_assoc]
  · intro same
    have lengths := congrArg String.length (projectEndpointScope.inj same).1
    have one : "|".length = 1 := rfl
    rw [String.length_append, String.length_append] at lengths
    omega

variable {left right : List Char}

/-- Two texts around a bar are one text where they are the same, or where one left side goes on into the other right
side. -/
theorem around_bar {left' right' : List Char} (same : left ++ '|' :: right = left' ++ '|' :: right') :
    (left = left' ∧ right = right') ∨ (∃ between, left' = left ++ '|' :: between ∧ right = between ++ '|' :: right') ∨
      ∃ between, left = left' ++ '|' :: between ∧ right' = between ++ '|' :: right := by
  rcases append_eq_append_iff.mp same with ⟨more, further, rest⟩ | ⟨more, further, rest⟩
  · rcases more with _ | ⟨c, between⟩
    · rw [append_nil] at further
      exact .inl ⟨further.symm, (List.cons.inj rest).2⟩
    obtain ⟨bar, onward⟩ := List.cons.inj rest
    subst bar
    exact .inr (.inl ⟨between, further, onward⟩)
  · rcases more with _ | ⟨c, between⟩
    · rw [append_nil] at further
      exact .inl ⟨further, (List.cons.inj rest).2.symm⟩
    obtain ⟨bar, onward⟩ := List.cons.inj rest
    subst bar
    exact .inr (.inr ⟨between, further, onward⟩)

theorem ofList_bar {s : String} (same : s.toList = left ++ '|' :: right) :
    s = String.ofList left ++ "|" ++ String.ofList right := by
  apply String.toList_inj.mp
  rw [same, String.toList_append, String.toList_append, String.toList_ofList, String.toList_ofList]
  simp

theorem projectEndpoint_string {project endpoint project' endpoint' : String}
    (same : (projectEndpointScope project endpoint).scopeString = (projectEndpointScope project' endpoint').scopeString) :
    projectEndpointScope project endpoint = .projectEndpointScope project' endpoint' ∨
      (projectEndpointScope project endpoint).Collide (.projectEndpointScope project' endpoint') := by
  have lists : project.toList ++ '|' :: endpoint.toList = project'.toList ++ '|' :: endpoint'.toList := by
    change "project_endpoint:" ++ project ++ "|" ++ endpoint = "project_endpoint:" ++ project' ++ "|" ++ endpoint' at same
    have spelled := congrArg String.toList same
    simp only [String.toList_append, append_assoc] at spelled
    exact append_cancel_left spelled
  rcases around_bar lists with ⟨first, second⟩ | ⟨between, first, second⟩ | ⟨between, first, second⟩
  · rw [String.toList_inj.mp first, String.toList_inj.mp second]
    exact .inl rfl
  · refine .inr (.inl ⟨project, String.ofList between, endpoint', ?_, ?_⟩)
    · rw [ofList_bar second, String.ofList_toList]
    · rw [ofList_bar first, String.ofList_toList]
  · refine .inr (.inr ⟨project', String.ofList between, endpoint, ?_, ?_⟩)
    · rw [ofList_bar second, String.ofList_toList]
    · rw [ofList_bar first, String.ofList_toList]

theorem principal_string {a b : Principal} (same : a.scopeString = b.scopeString) : a = b := by
  cases a with
  | owner =>
    cases b with
    | owner => rfl
    | warrant id => exact absurd same (@append_ne "principal:owner" "principal:warrant:" "" id (by decide))
    | bundle id => exact absurd same (@append_ne "principal:owner" "principal:bundle:" "" id (by decide))
  | warrant id =>
    cases b with
    | owner => exact absurd same.symm (@append_ne "principal:owner" "principal:warrant:" "" id (by decide))
    | warrant other => exact congrArg _ ((String.append_right_inj _).mp same)
    | bundle other => exact absurd same (append_ne (by decide))
  | bundle id =>
    cases b with
    | owner => exact absurd same.symm (@append_ne "principal:owner" "principal:bundle:" "" id (by decide))
    | warrant other => exact absurd same (append_ne (by decide))
    | bundle other => exact congrArg _ ((String.append_right_inj _).mp same)

def ScopeKey.tag : ScopeKey → String
  | .principalScope _ => "principal:"
  | .projectScope _ => "project:"
  | .endpointScope _ => "endpoint:"
  | .projectEndpointScope _ _ => "project_endpoint:"

theorem scopeString_tagged (key : ScopeKey) : ∃ rest, key.scopeString = key.tag ++ rest := by
  cases key with
  | principalScope principal => exact principal.scopeString_starts
  | projectScope project => exact ⟨project, rfl⟩
  | endpointScope endpoint => exact ⟨endpoint, rfl⟩
  | projectEndpointScope project endpoint =>
    refine ⟨project ++ "|" ++ endpoint, ?_⟩
    change "project_endpoint:" ++ project ++ "|" ++ endpoint = "project_endpoint:" ++ (project ++ "|" ++ endpoint)
    simp only [String.append_assoc]

theorem tag_differs (first second : String) (tagged : a.tag = first) (tagged' : b.tag = second)
    (differ : first.toList.zip second.toList |>.any fun pair => pair.1 != pair.2) : a.scopeString ≠ b.scopeString := by
  obtain ⟨rest, spelled⟩ := scopeString_tagged a
  obtain ⟨rest', spelled'⟩ := scopeString_tagged b
  rw [spelled, spelled', tagged, tagged']
  exact append_ne differ

theorem scopeString_cases (same : a.scopeString = b.scopeString) : a = b ∨ a.Collide b := by
  cases a with
  | principalScope principal =>
    cases b with
    | principalScope other => exact .inl (congrArg _ (principal_string same))
    | projectScope other => exact absurd same (tag_differs "principal:" "project:" rfl rfl (by decide))
    | endpointScope other => exact absurd same (tag_differs "principal:" "endpoint:" rfl rfl (by decide))
    | projectEndpointScope p e => exact absurd same (tag_differs "principal:" "project_endpoint:" rfl rfl (by decide))
  | projectScope project =>
    cases b with
    | principalScope other => exact absurd same (tag_differs "project:" "principal:" rfl rfl (by decide))
    | projectScope other => exact .inl (congrArg _ ((String.append_right_inj _).mp same))
    | endpointScope other => exact absurd same (tag_differs "project:" "endpoint:" rfl rfl (by decide))
    | projectEndpointScope p e => exact absurd same (tag_differs "project:" "project_endpoint:" rfl rfl (by decide))
  | endpointScope endpoint =>
    cases b with
    | principalScope other => exact absurd same (tag_differs "endpoint:" "principal:" rfl rfl (by decide))
    | projectScope other => exact absurd same (tag_differs "endpoint:" "project:" rfl rfl (by decide))
    | endpointScope other => exact .inl (congrArg _ ((String.append_right_inj _).mp same))
    | projectEndpointScope p e => exact absurd same (tag_differs "endpoint:" "project_endpoint:" rfl rfl (by decide))
  | projectEndpointScope project endpoint =>
    cases b with
    | principalScope other => exact absurd same (tag_differs "project_endpoint:" "principal:" rfl rfl (by decide))
    | projectScope other => exact absurd same (tag_differs "project_endpoint:" "project:" rfl rfl (by decide))
    | endpointScope other => exact absurd same (tag_differs "project_endpoint:" "endpoint:" rfl rfl (by decide))
    | projectEndpointScope p e => exact projectEndpoint_string same

theorem scopeString_iff (a b : ScopeKey) : (a.scopeString = b.scopeString → a = b) ↔ ¬ a.Collide b := by
  constructor
  · rintro injective (overlaps | overlaps)
    · exact (overlaps_string overlaps).2 (injective (overlaps_string overlaps).1)
    · exact (overlaps_string overlaps).2 (injective (overlaps_string overlaps).1.symm).symm
  · intro apart same
    exact (scopeString_cases same).resolve_right apart

def AdmissionRequest.keys (req : AdmissionRequest) : List ScopeKey := scopesFor req.principal req.project req.endpoint

def requests (calls : List Call) : List AdmissionRequest :=
  calls.filterMap fun
    | .reserve req _ => some req
    | .settle _ => none

def ScopeKey.Clear (key : ScopeKey) (reqs : List AdmissionRequest) : Prop :=
  ∀ req ∈ reqs, ¬ key.Collide (.projectEndpointScope req.project req.endpoint)

/-- The call is made under the key: it asks for the key's scope, or settles a permit that was granted to a request that
did. -/
def Under (past : List (Call × Answer)) (key : ScopeKey) : Call → Prop
  | .reserve req _ => key ∈ req.keys
  | .settle req => ∃ asked now permit, (.reserve asked now, .reserved (.admitted permit)) ∈ past ∧ permit.id = req.permitId ∧
      key ∈ asked.keys

variable {key : ScopeKey} {req : AdmissionRequest}

theorem keys_of_scopes (clear : ¬ key.Collide (.projectEndpointScope req.project req.endpoint))
    (member : key.scopeString ∈ req.scopes) : key ∈ req.keys := by
  obtain ⟨other, listed, same⟩ := mem_map.mp member
  rcases scopeString_cases same with equal | collide
  · exact equal ▸ listed
  exfalso
  have named : other = .projectEndpointScope req.project req.endpoint := by
    rcases collide with ⟨p, x, e, first, second⟩ | ⟨p, x, e, first, second⟩
    · simpa [scopesFor, first] using listed
    · simpa [scopesFor, second] using listed
  rw [named] at collide
  exact clear (collide.symm)

def Granted (past : List (Call × Answer)) (g : Inner) : Prop :=
  ∀ (id : String) (rec : PermitRecord), g.permits[id]? = some rec → ∃ asked now permit,
    (.reserve asked now, .reserved (.admitted permit)) ∈ past ∧ permit.id = id ∧ rec.permit.scopes = asked.scopes

theorem stepCall_granted (past : List (Call × Answer)) (g : Inner) (call : Call) (granted : Granted past g) :
    Granted (past ++ [(call, (stepCall g call).2)]) (stepCall g call).1 := by
  have before : ∀ (id : String) (rec : PermitRecord), g.permits[id]? = some rec → ∃ asked now permit,
      (.reserve asked now, .reserved (.admitted permit)) ∈ past ++ [(call, (stepCall g call).2)] ∧ permit.id = id ∧
        rec.permit.scopes = asked.scopes := by
    intro id rec held
    obtain ⟨asked, now, permit, member, named, scopes⟩ := granted id rec held
    exact ⟨asked, now, permit, mem_append_left _ member, named, scopes⟩
  intro id rec held
  cases call with
  | reserve req now =>
    cases open' : refusal g req now with
    | some outcome =>
      have same : (stepCall g (.reserve req now)).1 = g := by
        show (reserve g req now).1 = g
        rw [reserve, open']
      rw [same] at held
      exact before id rec held
    | none =>
      have next : stepCall g (.reserve req now) = (g.granted req now, .reserved (.admitted (g.permitFor req now))) := by
        show ((reserve g req now).1, Answer.reserved (reserve g req now).2) = _
        rw [reserve, open']
      rw [next] at held
      have found : (g.permits.insert (g.permitFor req now).id
          { permit := g.permitFor req now, completed := false, settled := false })[id]? = some rec := held
      rcases Map.insert_cases found with ⟨same, rfl⟩ | ⟨_, found⟩
      · refine ⟨req, now, g.permitFor req now, ?_, same, rfl⟩
        rw [next]
        exact mem_append_right _ (mem_singleton.mpr rfl)
      · exact before id rec found
  | settle req =>
    have held : (settle g req).1.permits[id]? = some rec := held
    unfold settle at held
    split at held
    · exact before id rec held
    rename_i old there
    split at held
    · exact before id rec held
    have found : (g.permits.insert req.permitId
        { old with settled := true, completed := old.completed || releases req })[id]? = some rec := held
    rcases Map.insert_cases found with ⟨rfl, rfl⟩ | ⟨_, found⟩
    · exact before _ old there
    · exact before id rec found

variable {g : Inner} {scope : String}

theorem reserve_frame {now : UInt64} (other : scope ∉ req.scopes) :
    (stepCall g (.reserve req now)).1.state scope = g.state scope := by
  show (reserve g req now).1.state scope = g.state scope
  unfold reserve
  cases refusal g req now with
  | some outcome => rfl
  | none =>
    show (g.granted req now).state scope = g.state scope
    rw [granted_state, if_neg other]

theorem settle_frame {req : SettleRequest}
    (other : ∀ rec, g.permits[req.permitId]? = some rec → rec.permit.scopes.Nodup ∧ scope ∉ rec.permit.scopes) :
    (stepCall g (.settle req)).1.state scope = g.state scope := by
  show (settle g req).1.state scope = g.state scope
  unfold settle
  rcases there : g.permits[req.permitId]? with _ | rec
  · rfl
  obtain ⟨distinct, apart⟩ := other rec there
  dsimp only
  split
  · rfl
  · show Scopes.state (Scopes.changeHeld (release rec.permit req) g.scopes rec.permit.scopes) scope = g.state scope
    rw [Scopes.state_changeHeld distinct, if_neg (fun both => apart both.1)]

variable {past : List (Call × Answer)}

theorem Granted.under (granted : Granted past g) {call : Call}
    (clear : key.Clear (requests (past.map Prod.fst ++ [call])))
    (changed : (stepCall g call).1.state key.scopeString ≠ g.state key.scopeString) : Under past key call := by
  cases call with
  | reserve req now =>
    have apart := clear req (mem_filterMap.mpr ⟨.reserve req now, by simp, rfl⟩)
    exact keys_of_scopes apart (Classical.not_not.mp fun other => changed (reserve_frame other))
  | settle req =>
    rcases there : g.permits[req.permitId]? with _ | rec
    · exact absurd (settle_frame fun rec held => by cases there.symm.trans held) changed
    obtain ⟨asked, now, permit, member, named, scopes⟩ := granted _ rec there
    refine ⟨asked, now, permit, member, named, ?_⟩
    have earlier : Call.reserve asked now ∈ past.map Prod.fst ++ [Call.settle req] :=
      mem_append_left _ (mem_map.mpr ⟨_, member, rfl⟩)
    apply keys_of_scopes (clear asked (mem_filterMap.mpr ⟨_, earlier, rfl⟩))
    refine Classical.not_not.mp fun other => changed (settle_frame fun rec' held => ?_)
    cases there.symm.trans held
    rw [scopes]
    exact ⟨asked.scopes_nodup, other⟩

theorem trace_calls (g : Inner) (calls : List Call) : (trace stepCall g calls).map Prod.fst = calls := by
  induction calls generalizing g with
  | nil => rfl
  | cons call rest ih => exact congrArg (List.cons call) (ih _)

def ScopeKey.project : ScopeKey → Option String
  | .projectScope project => some project
  | .projectEndpointScope project _ => some project
  | .principalScope _ => none
  | .endpointScope _ => none

def MadeIn (past : List (Call × Answer)) (project : String) : Call → Prop
  | .reserve req _ => req.project = project
  | .settle req => ∃ asked now permit, (.reserve asked now, .reserved (.admitted permit)) ∈ past ∧ permit.id = req.permitId ∧
      asked.project = project

theorem keys_project {project : String} (member : key ∈ req.keys)
    (counts : key.project = some project) : req.project = project := by
  simp only [AdmissionRequest.keys, scopesFor, mem_cons, not_mem_nil, or_false] at member
  rcases member with rfl | rfl | rfl | rfl
  · cases counts
  · exact Option.some.inj counts
  · cases counts
  · exact Option.some.inj counts

theorem Under.madeIn {call : Call} (under : Under past key call)
    {project : String} (counts : key.project = some project) : MadeIn past project call := by
  cases call with
  | reserve req now => exact keys_project under counts
  | settle req =>
    obtain ⟨asked, now, permit, member, named, listed⟩ := under
    exact ⟨asked, now, permit, member, named, keys_project listed counts⟩

/-- Two keys have one string only where they are one key, unless they collide; and in every run, what changes the
counters of a key that no request of the run collides with is a call made under the key, and so in its project. -/
theorem scopes_apart (policy : GovernorPolicy) (past : List Call) :
    (∀ a b : ScopeKey, (a.scopeString = b.scopeString → a = b) ↔ ¬ a.Collide b) ∧
      ∀ (call : Call) (key : ScopeKey), key.Clear (requests (past ++ [call])) →
        (stepCall (run stepCall (new policy) past) call).1.state key.scopeString ≠
          (run stepCall (new policy) past).state key.scopeString →
        Under (trace stepCall (new policy) past) key call ∧
          ∀ project, key.project = some project → MadeIn (trace stepCall (new policy) past) project call := by
  refine ⟨scopeString_iff, ?_⟩
  intro call key clear changed
  have granted : Granted (trace stepCall (new policy) past) (run stepCall (new policy) past) := by
    apply history_invariant stepCall_granted
    intro id rec held
    have empty : (new policy).permits[id]? = none := ExtTreeMap.getElem?_empty
    cases empty.symm.trans held
  rw [← trace_calls (new policy) past] at clear
  have under := granted.under clear changed
  exact ⟨under, fun project counts => under.madeIn counts⟩

theorem scopes_apart_sample :
    Under [] (.projectEndpointScope "p" "e") (.reserve sampleRequest 5) ∧ MadeIn [] "p" (.reserve sampleRequest 5) := by
  obtain ⟨under, inside⟩ := (scopes_apart {} []).2 (.reserve sampleRequest 5) (.projectEndpointScope "p" "e")
    (by
      intro req member
      cases mem_singleton.mp member
      rintro (overlaps | overlaps)
      · exact (overlaps_string overlaps).2 rfl
      · exact (overlaps_string overlaps).2 rfl)
    (by decide +kernel)
  exact ⟨under, inside "p" rfl⟩

def barredProject : AdmissionRequest :=
  { principal := .warrant "w1", project := "a|b", endpoint := "c", requestedUnits := 10 }

def barredEndpoint : AdmissionRequest :=
  { principal := .warrant "w2", project := "a", endpoint := "b|c", requestedUnits := 10 }

def oneAtATime : GovernorPolicy := { concurrencyPerScope := 1 }

/-- Two keys of different projects have one string, so that a call in one project changes the counters of the other and
takes the one slot the other has there. -/
theorem barred_names_collide :
    (projectEndpointScope "a|b" "c").scopeString = (projectEndpointScope "a" "b|c").scopeString ∧
      projectEndpointScope "a|b" "c" ≠ .projectEndpointScope "a" "b|c" ∧
      ((stepCall (new oneAtATime) (.reserve barredProject 5)).1.state
          (projectEndpointScope "a" "b|c").scopeString).concurrencyLive ≠
        ((new oneAtATime).state (projectEndpointScope "a" "b|c").scopeString).concurrencyLive ∧
      ¬ Under [] (.projectEndpointScope "a" "b|c") (.reserve barredProject 5) ∧
      ¬ MadeIn [] "a" (.reserve barredProject 5) ∧
      (∃ permit, (reserve (new oneAtATime) barredEndpoint 6).2 = .admitted permit) ∧
      ∀ permit, (reserve (reserve (new oneAtATime) barredProject 5).1 barredEndpoint 6).2 ≠ .admitted permit := by
  refine ⟨by decide, by decide, by decide +kernel, ?_, ?_, ?_, ?_⟩
  · show projectEndpointScope "a" "b|c" ∉ barredProject.keys
    decide
  · show ¬ ("a|b" = "a")
    decide
  · exact ⟨(new oneAtATime).permitFor barredEndpoint 6, by decide +kernel⟩
  · have deferred : ∃ ms reason, (reserve (reserve (new oneAtATime) barredProject 5).1 barredEndpoint 6).2 =
        .deferred ms reason := ⟨_, _, rfl⟩
    obtain ⟨ms, reason, outcome⟩ := deferred
    rw [outcome]
    intro permit admitted
    cases admitted

end FerroLoop.Governor

import FerroLoop.FerroState.Convergence

namespace FerroLoop.FerroState

open Std Text Checked Machine List Registry Directory
open Agents
open Workflow (At)

/-! ### Stores that only registered their own -/

structure Registry.Local (r : Registry) : Prop where
  sound : r.directory.Sound
  keyed : AreasKeyed r.events
  areas : ∀ key : String, r.areas[key]? = (lastEffect r.events key).join
  follows : ∀ base x, base.Sound → base.Foreign r.events → base.importAll r.events = .ok x →
    Follows base r.directory r.events x

namespace Registry

variable {r next : Registry} {ev : RegistryEvent}

theorem Local.empty : Local .empty := by
  refine ⟨.empty, fun _ member => absurd member not_mem_nil, ?_, ?_⟩
  · intro key
    exact ExtTreeMap.getElem?_empty
  · intro base x _ _ done
    cases done
    exact .start base

theorem Local.area (held : Local r) {areas : ExtTreeMap String AreaRecord compare} (kind : ev.kind.isArea = true)
    (keyed : ∀ area, ev.kind = .areaUpsert area → area.Keyed)
    (told : ∀ key : String, areas[key]? = ((ev.kind.effect key).or (some (r.areas[key]?))).join) :
    Local ({ r with areas }.log ev) := by
  refine ⟨held.sound, ?_, ?_, ?_⟩
  · intro logged member area upsert
    rcases mem_append.mp member with old | new
    · exact held.keyed logged old area upsert
    · rw [mem_singleton.mp new] at upsert
      exact keyed area upsert
  · intro key
    change areas[key]? = (lastEffect (r.events ++ [ev]) key).join
    rw [lastEffect_append, told, held.areas]
    cases ev.kind.effect key with
    | none =>
      rfl
    | some effect => rfl
  · intro base x sound foreign done
    obtain ⟨before, first, second⟩ := importAll_append done
    exact (held.follows base before sound foreign.front first).area kind second

theorem Local.upserted (held : Local r) {area : AreaRecord} (keyed : area.Keyed) (kind : ev.kind = .areaUpsert area) :
    Local ({ r with areas := r.areas.insert area.areaKey area }.log ev) := by
  refine held.area (by rw [kind]; rfl) ?_ ?_
  · intro other upsert
    rw [kind] at upsert
    cases upsert
    exact keyed
  · intro key
    rw [kind, Map.getElem?_insert]
    unfold RegistryEventKind.effect
    dsimp only
    split
    · rfl
    · rfl

variable {areaKey : String}

theorem Local.deleted (held : Local r) (kind : ev.kind = .areaDelete areaKey) :
    Local ({ r with areas := r.areas.erase areaKey }.log ev) := by
  refine held.area (by rw [kind]; rfl) (fun area upsert => by rw [kind] at upsert; cases upsert) ?_
  intro key
  rw [kind, Map.getElem?_erase]
  unfold RegistryEventKind.effect
  dsimp only
  split
  · rfl
  · rfl

theorem Local.agent (held : Local r) {directory : Directory} (kind : ev.kind.isArea = false) (sound : directory.Sound)
    (follows : ∀ base x y, base.Sound → (∀ record, ev.kind = .agentUpsert record → base.ids.rows[record.id]? = none) →
      Follows base r.directory r.events x → x.importKind ev.at_ ev.by_ ev.kind = .ok y →
        Follows base directory (r.events ++ [ev]) y) : Local ({ r with directory }.log ev) := by
  refine ⟨sound, ?_, ?_, ?_⟩
  · intro logged member area upsert
    rcases mem_append.mp member with old | new
    · exact held.keyed logged old area upsert
    · rw [mem_singleton.mp new] at upsert
      rw [upsert] at kind
      cases kind
  · intro key
    change r.areas[key]? = (lastEffect (r.events ++ [ev]) key).join
    rw [lastEffect_append, effect_of_agent kind, Option.none_or, held.areas]
  · intro base x clean foreign done
    obtain ⟨before, first, second⟩ := importAll_append done
    refine follows base before x clean ?_ (held.follows base before clean foreign.front first) second
    exact fun record upsert => foreign ev (mem_append_right _ (mem_singleton.mpr rfl)) record upsert

theorem Local.retired (held : Local r) {id : Iri} {agent : AgentRecord} (there : r.directory.agents[id]? = some agent)
    (kind : ev.kind = .agentRetire id) :
    Local ({ r with directory := { r.directory with
      agents := r.directory.agents.insert id (agent.retired ev.at_ ev.by_) } }.log ev) := by
  refine held.agent (by rw [kind]; rfl) (held.sound.retire there ev.at_ ev.by_) ?_
  intro base x y _ _ follows done
  exact follows.retire there kind done

theorem Local.registered (held : Local r) {record : AgentRecord} (admits : r.directory.Admits record) {ids : Ids}
    (row : ids.rows[record.id]? = some (.kind .agent))
    (kept : ∀ (id : Iri) row, r.directory.ids.rows[id]? = some row → ids.rows[id]? = some row)
    (kind : ev.kind = .agentUpsert record) : Local ({ r with directory := r.directory.registered ids record }.log ev) := by
  refine held.agent (by rw [kind]; rfl) (held.sound.upsert admits row kept) ?_
  intro base x y clean foreign follows done
  exact follows.upsert clean held.sound admits (foreign record kind) kind done ids

variable {eventId : Iri} {args : RegisterAgentArgs At}

theorem Local.upsertArea (held : Local r) {area : AreaRecord} (done : r.upsertArea area eventId = .ok next) :
    Local next := by
  obtain ⟨norm, normal, done⟩ := bind_ok done
  have same := Except.ok.inj done
  rw [← same]
  exact held.upserted (AreaRecord.normalized_keyed (mapError_ok normal)) rfl

variable {by_ : String}

theorem Local.deleteArea (held : Local r) {at_ : At}
    (done : r.deleteArea areaKey at_ by_ eventId = .ok next) : Local next := by
  obtain ⟨key, _, done⟩ := bind_ok done
  cases there : r.areas[key]? with
  | none =>
    rw [there] at done
    have same : r = next := Except.ok.inj done
    rw [← same]
    exact held
  | some area =>
    rw [there] at done
    have same := Except.ok.inj done
    rw [← same]
    exact held.deleted rfl

theorem Local.retireAgent (held : Local r) {id : Iri} {at_ : At}
    (done : r.retireAgent id at_ by_ eventId = .ok next) : Local next := by
  obtain ⟨⟨resolved, kind⟩, _, done⟩ := bind_ok done
  obtain ⟨_, _, done⟩ := bind_ok done
  rcases there : r.directory.agents[resolved]? with _ | agent
  · simp only [there] at done
    cases done
  simp only [there] at done
  have same := Except.ok.inj done
  rw [← same]
  exact @Local.retired r ⟨eventId, at_, trim by_, .agentRetire resolved⟩ held resolved agent there rfl

variable {minted : Minted Iri}

theorem Local.createAreas (held : Local r) {keys : List String}
    (slugs : ∀ key ∈ keys, ∃ raw, validateSlug raw = .ok key) (done : createAreas args minted r keys = .ok next) :
    Local next ∧ next.directory = r.directory := by
  induction keys generalizing r with
  | nil =>
    cases done
    exact ⟨held, rfl⟩
  | cons key rest ih =>
    have later : ∀ other ∈ rest, ∃ raw, validateSlug raw = .ok other :=
      fun other member => slugs other (mem_cons_of_mem _ member)
    unfold createAreas at done
    split at done
    · exact ih held later done
    split at done
    · cases done
    have stored := @Local.upserted r ⟨minted.areaEvent key, args.at_, args.by_, .areaUpsert (registeredArea key args)⟩ held
      (registeredArea key args) (slugs key mem_cons_self) rfl
    have after := ih stored later done
    exact after

theorem Local.replaceLead (held : Local r) {project nameKey : String}
    (done : r.replaceLead args project nameKey eventId = .ok next) :
    Local next ∧ next.directory.byName = r.directory.byName ∧ next.directory.ids = r.directory.ids ∧
      (args.role = .lead → ∀ (id : Iri) agent, next.directory.agents[id]? = some agent →
        agent.isActiveLead project = true → agent.nameKey = nameKey) := by
  unfold Registry.replaceLead at done
  by_cases lead : args.role = .lead
  · rw [if_pos lead] at done
    split at done
    · rename_i nobody
      cases done
      refine ⟨held, rfl, rfl, ?_⟩
      intro _ id agent there active
      have passed := find?_eq_none.mp nobody agent (mem_agentsInOrder.mpr ⟨id, there⟩)
      rw [active, Bool.true_and, decide_eq_true_iff] at passed
      exact not_not.mp passed
    · rename_i found taken
      split at done
      · cases done
      cases done
      obtain ⟨key, there⟩ := mem_agentsInOrder.mp (mem_of_find?_eq_some taken)
      have own := held.sound.owner key found there
      have active : found.isActiveLead project = true := by
        have both := find?_some taken
        rw [Bool.and_eq_true] at both
        exact both.1
      rw [← own] at there
      refine ⟨?_, rfl, rfl, ?_⟩
      · exact @Local.retired r ⟨eventId, args.at_, args.by_, .agentRetire found.id⟩ held found.id found there rfl
      intro _ id agent now leads
      change (r.directory.agents.insert found.id (found.retired args.at_ args.by_))[id]? = some agent at now
      rcases Map.insert_cases now with ⟨_, rfl⟩ | ⟨apart, now⟩
      · obtain ⟨status, _⟩ := isActiveLead_iff.mp leads
        cases status
      · exact absurd (held.sound.leads found.id id found agent project there now active leads) apart
  · rw [if_neg lead] at done
    cases done
    exact ⟨held, rfl, rfl, fun is => absurd is lead⟩

theorem Local.registerAgent (held : Local r)
    (done : r.registerAgent args minted = .ok next) : Local next := by
  obtain ⟨⟨nameKey, displayName, email⟩, _, done⟩ := bind_ok done
  obtain ⟨project, projectSlug, done⟩ := bind_ok done
  obtain ⟨extra, extraSlugs, done⟩ := bind_ok done
  obtain ⟨withAreas, areas, done⟩ := bind_ok done
  obtain ⟨_, _, done⟩ := bind_ok done
  obtain ⟨freed, replaced, done⟩ := bind_ok done
  obtain ⟨⟨directory, id⟩, identified, done⟩ := bind_ok done
  have slugs : ∀ key ∈ project :: (extra.mergeSort fun a b => decide (a ≤ b)).eraseDups,
      ∃ raw, validateSlug raw = .ok key := by
    intro key member
    rcases mem_cons.mp member with same | inside
    · exact ⟨args.project, same ▸ mapError_ok projectSlug⟩
    · obtain ⟨raw, _, valid⟩ := mapM_ok extraSlugs key (mem_mergeSort.mp (mem_eraseDups.mp inside))
      exact ⟨raw, mapError_ok valid⟩
  obtain ⟨stored, _⟩ := held.createAreas slugs areas
  obtain ⟨vacant, names, rows, only⟩ := stored.replaceLead replaced
  have same := Except.ok.inj done
  rw [← same]
  have found : withAreas.directory.byName[nameKey]? = freed.directory.byName[nameKey]? := by rw [names]
  -- The directory with the id, and that the name and the id belong together in it.
  have placed : directory.agents = freed.directory.agents ∧ directory.byName = freed.directory.byName ∧
      directory.ids.rows[id]? = some (.kind .agent) ∧
      (∀ (other : Iri) row, freed.directory.ids.rows[other]? = some row → directory.ids.rows[other]? = some row) ∧
      (freed.directory.byName[nameKey]? = some id ∨
        freed.directory.byName[nameKey]? = none ∧ freed.directory.agents[id]? = none) := by
    unfold named at identified
    rw [found] at identified
    cases name : freed.directory.byName[nameKey]? with
    | some existing =>
      obtain ⟨agent, there, _⟩ := stored.sound.named nameKey existing (found.trans name)
      rw [name] at identified
      simp only [there] at identified
      cases identified
      have own := stored.sound.owner existing agent there
      have row := stored.sound.primary existing agent there
      rw [← rows] at row
      rw [own]
      exact ⟨rfl, rfl, row, fun _ _ held => held, .inl rfl⟩
    | none =>
      rw [name] at identified
      obtain ⟨ids, indexed, identified⟩ := bind_ok identified
      cases identified
      obtain ⟨unused, _, after⟩ := Ids.indexNew_ok (mapError_ok indexed)
      refine ⟨rfl, rfl, by rw [after, if_pos rfl], ?_, .inr ⟨rfl, ?_⟩⟩
      · intro other row there
        change ids.rows[other]? = some row
        rw [after, if_neg, there]
        intro same
        rw [← same, unused] at there
        cases there
      · rcases there : freed.directory.agents[minted.agent]? with _ | agent
        · rfl
        have row := vacant.sound.primary _ agent there
        rw [unused] at row
        cases row
  obtain ⟨agents, byName, row, kept, belongs⟩ := placed
  generalize made : ({
    id, nameKey, displayName, email, project, role := args.role
    extraAreas := (extra.mergeSort fun a b => decide (a ≤ b)).eraseDups, status := .active, updatedAt := args.at_
    by_ := args.by_ } : AgentRecord) = record
  have ownId : record.id = id := by rw [← made]
  have ownName : record.nameKey = nameKey := by rw [← made]
  have admits : freed.directory.Admits record := by
    refine ⟨by rw [ownId, ownName]; exact belongs, ?_⟩
    intro other agent there now active
    have lead : args.role = .lead ∧ agent.project = project := by
      obtain ⟨_, same, role⟩ := isActiveLead_iff.mp now
      rw [← made] at same role
      exact ⟨role, same.symm⟩
    rw [lead.2] at active
    have listed := vacant.sound.listed other agent there
    rw [only lead.1 other agent there active] at listed
    have own := vacant.sound.owner other agent there
    rw [own, ownId]
    rcases belongs with mine | ⟨none, _⟩
    · rw [mine] at listed
      exact (Option.some.inj listed).symm
    · rw [none] at listed
      cases listed
  have shape : { directory.putAgent record with byName := directory.byName.insert nameKey id } =
      freed.directory.registered directory.ids record := by
    unfold Directory.putAgent Directory.registered
    rw [agents, byName, ownName, ownId]
  rw [shape]
  rw [← ownId] at row
  exact vacant.registered admits row kept rfl

theorem Local.apply (held : Local r) {op : RegistryOp} (done : r.apply op = .ok next) : Local next := by
  cases op with
  | upsertArea area eventId => exact held.upsertArea done
  | deleteArea areaKey at_ by_ eventId => exact held.deleteArea done
  | registerAgent args minted => exact held.registerAgent done
  | retireAgent id at_ by_ eventId => exact held.retireAgent done

theorem local_run (ops : List RegistryOp) : Local (run step .empty ops) := by
  refine run_invariant ?_ Local.empty ops
  intro r op held
  unfold step
  split
  · exact held.apply ‹_›
  · exact held

end Registry

def Delivers (arrivals log : List RegistryEvent) : Prop :=
  ∀ area : Bool, (arrivals.filter fun ev => ev.kind.isArea == area) = log.filter fun ev => ev.kind.isArea == area

theorem Delivers.perm {arrivals log : List RegistryEvent} (delivered : Delivers arrivals log) : arrivals.Perm log := by
  have parted : ∀ events : List RegistryEvent,
      ((events.filter fun ev => ev.kind.isArea == true) ++ events.filter fun ev => ev.kind.isArea == false).Perm events := by
    intro events
    have split := filter_append_perm (fun ev : RegistryEvent => ev.kind.isArea == true) events
    have same : (fun ev : RegistryEvent => !(ev.kind.isArea == true)) = fun ev => ev.kind.isArea == false := by
      funext ev
      cases ev.kind.isArea <;> rfl
    rw [same] at split
    exact split
  refine (parted arrivals).symm.trans ?_
  rw [delivered true, delivered false]
  exact parted log

theorem importAll_filter (d : Directory) (events : List RegistryEvent) :
    d.importAll (events.filter fun ev => ev.kind.isArea == false) = d.importAll events := by
  unfold importAll
  induction events generalizing d with
  | nil => rfl
  | cons ev rest ih =>
    rcases area : ev.kind.isArea with _ | _
    · rw [filter_cons_of_pos (by rw [area]; rfl), foldlM_cons, foldlM_cons]
      exact bind_congr fun next => ih next
    rw [filter_cons_of_neg (by rw [area]; exact nofun), foldlM_cons]
    have idle : d.importKind ev.at_ ev.by_ ev.kind = .ok d := by
      cases kind : ev.kind with
      | areaUpsert record => rfl
      | areaDelete key => rfl
      | agentUpsert record | agentRetire id =>
        rw [kind] at area
        cases area
    rw [idle]
    exact ih d

theorem importAreas_filter (areas : ExtTreeMap String AreaRecord compare) (events : List RegistryEvent) :
    importAreas areas (events.filter fun ev => ev.kind.isArea == true) = importAreas areas events := by
  induction events generalizing areas with
  | nil => rfl
  | cons ev rest ih =>
    cases area : ev.kind.isArea with
    | true =>
      rw [filter_cons_of_pos (by rw [area]; rfl)]
      exact bind_congr fun next => ih next
    | false =>
      rw [filter_cons_of_neg (by rw [area]; exact nofun)]
      have idle : importArea areas ev.kind = .ok areas := by
        cases kind : ev.kind with
        | areaUpsert record | areaDelete key =>
          rw [kind] at area
          cases area
        | agentUpsert record => rfl
        | agentRetire id => rfl
      have first : importAreas areas (ev :: rest) = (importArea areas ev.kind >>= fun next => importAreas next rest) := rfl
      rw [first, idle]
      exact ih areas

variable {events : List RegistryEvent}

theorem importRegistryEvents_ok {r next : Registry}
    (distinct : ((r.events ++ events).map RegistryEvent.eventId).Nodup) (done : r.importRegistryEvents events = .ok next) :
    r.directory.importAll events = .ok next.directory ∧ importAreas r.areas events = .ok next.areas := by
  induction events generalizing r with
  | nil =>
    cases done
    exact ⟨rfl, rfl⟩
  | cons ev rest ih =>
    obtain ⟨mid, one, done⟩ := bind_ok done
    have new : (r.events.find? fun held => decide (held.eventId = ev.eventId)) = none := by
      rw [find?_eq_none]
      intro held member
      rw [decide_eq_true_iff]
      rw [map_append, nodup_append] at distinct
      exact distinct.2.2 _ (mem_map_of_mem member) _ (mem_map_of_mem mem_cons_self)
    unfold importEvent at one
    rw [new] at one
    obtain ⟨directory, agents, one⟩ := bind_ok one
    obtain ⟨areas, stored, one⟩ := bind_ok one
    have same := Except.ok.inj one
    subst same
    obtain ⟨people, places⟩ := ih (by
      change (((r.events ++ [ev]) ++ rest).map RegistryEvent.eventId).Nodup
      rw [append_assoc]
      exact distinct) done
    refine ⟨?_, ?_⟩
    · unfold importAll
      rw [foldlM_cons, agents]
      exact people
    · unfold importAreas
      rw [stored]
      exact places

/-- Ids that two stores minted are different. -/
structure Apart (a b : Registry) : Prop where
  events : ((a.events ++ b.events).map RegistryEvent.eventId).Nodup
  ours : a.directory.Foreign b.events
  theirs : b.directory.Foreign a.events

def AgentRecord.standing (agent : AgentRecord) : String × String × AgentRole × AgentStatus :=
  (agent.nameKey, agent.project, agent.role, agent.status)

structure Converged (a b : Registry) : Prop where
  areas : ∀ key : String, a.areas[key]? = b.areas[key]?
  agents : ∀ id : Iri, (a.directory.agents[id]?).map AgentRecord.standing = (b.directory.agents[id]?).map AgentRecord.standing

def SameWord : Option (Option AreaRecord) → Option (Option AreaRecord) → Prop
  | some ours, some theirs => normalEffect ours = normalEffect theirs
  | some word, none => normalEffect word = word
  | none, some word => normalEffect word = word
  | none, none => True

/-- What two stores may have done on their own so that an exchange makes them agree. -/
structure Compatible (a b : Registry) : Prop where
  areas : ∀ key, SameWord (lastEffect a.events key) (lastEffect b.events key)
  names : ∀ name : String, a.directory.byName[name]? = none ∨ b.directory.byName[name]? = none
  ours : ∀ (id : Iri) agent, a.directory.agents[id]? = some agent → agent.isActiveLead agent.project = true →
    ¬ Led b.events agent.project
  theirs : ∀ (id : Iri) agent, b.directory.agents[id]? = some agent → agent.isActiveLead agent.project = true →
    ¬ Led a.events agent.project

section Exchange

variable {a b a' b' : Registry} {fromA fromB : List RegistryEvent}

theorem Apart.symm (apart : Apart a b) : Apart b a := by
  refine ⟨?_, apart.theirs, apart.ours⟩
  rw [map_append]
  have both := apart.events
  rw [map_append] at both
  exact (perm_append_comm.nodup_iff).mp both

theorem exchange_ok (ours : a.Local) (theirs : b.Local) (apart : Apart a b) (delivered : Delivers fromB b.events)
    (imported : a.importRegistryEvents fromB = .ok a') :
    (∀ id : Iri, a'.directory.agents[id]? = mergedAgent a.directory b.directory b.events id) ∧
      (∀ (id : Iri) agent, b.directory.agents[id]? = some agent → a.directory.agents[id]? = none) ∧
      ∀ key : String, a'.areas[key]? = ((lastEffect b.events key).map normalEffect).getD (lastEffect a.events key).join := by
  have distinct : ((a.events ++ fromB).map RegistryEvent.eventId).Nodup :=
    ((delivered.perm.append_left a.events).map _).nodup_iff.mpr apart.events
  obtain ⟨people, places⟩ := importRegistryEvents_ok distinct imported
  rw [← importAll_filter, delivered false, importAll_filter] at people
  rw [← importAreas_filter, delivered true, importAreas_filter] at places
  have follows := theirs.follows _ _ ours.sound apart.ours people
  refine ⟨follows.agents, ?_, ?_⟩
  · intro id agent held
    rcases mine : a.directory.agents[id]? with _ | other
    · rfl
    have row := ours.sound.primary id other mine
    rw [follows.foreign id agent held] at row
    cases row
  · intro key
    rw [importAreas_get theirs.keyed places, ours.areas]

theorem sameWord_iff (x y : Option (Option AreaRecord)) :
    ((y.map normalEffect).getD x.join = (x.map normalEffect).getD y.join) ↔ SameWord x y := by
  cases x with
  | none =>
    cases y with
    | none => exact ⟨fun _ => trivial, fun _ => rfl⟩
    | some word => exact Iff.rfl
  | some word =>
    cases y with
    | none | some other => exact ⟨fun same => same.symm, fun same => same.symm⟩

variable {agent : AgentRecord} {id : Iri}

/-- A store's own agent after the exchange: gone if the other store has its name, and no lead any more if the
other store had a lead of its project. -/
theorem mergedAgent_own (mine : a.directory.agents[id]? = some agent)
    (absent : b.directory.agents[id]? = none) :
    mergedAgent a.directory b.directory b.events id =
      if (b.directory.byName[agent.nameKey]?).isSome then none else some (demoted b.events agent) := by
  unfold mergedAgent
  rw [absent, mine]
  rfl

theorem mergedAgent_other (theirs : b.directory.agents[id]? = some agent) :
    mergedAgent a.directory b.directory b.events id = some agent := by
  unfold mergedAgent
  rw [theirs]

theorem mergedAgent_stays (ours : a.Local) (mine : a.directory.agents[id]? = some agent)
    (absent : b.directory.agents[id]? = none)
    (names : ∀ name : String, a.directory.byName[name]? = none ∨ b.directory.byName[name]? = none)
    (lead : agent.isActiveLead agent.project = true → ¬ Led b.events agent.project) :
    mergedAgent a.directory b.directory b.events id = some agent := by
  have listed := ours.sound.listed id agent mine
  have unknown : b.directory.byName[agent.nameKey]? = none := by
    rcases names agent.nameKey with none | none
    · rw [none] at listed
      cases listed
    · exact none
  have kept : demoted b.events agent = agent := by
    unfold demoted
    rw [if_neg fun both => lead both.1 both.2]
  rw [mergedAgent_own mine absent, unknown, kept]
  rfl

theorem compatible_of_agents (ours : a.Local)
    (disjoint : ∀ (id : Iri) agent, b.directory.agents[id]? = some agent → a.directory.agents[id]? = none)
    (agree : ∀ id : Iri, (mergedAgent a.directory b.directory b.events id).map AgentRecord.standing =
      (mergedAgent b.directory a.directory a.events id).map AgentRecord.standing) :
    (∀ name : String, a.directory.byName[name]? = none ∨ b.directory.byName[name]? = none) ∧
      ∀ (id : Iri) agent, a.directory.agents[id]? = some agent → agent.isActiveLead agent.project = true →
        ¬ Led b.events agent.project := by
  have absent : ∀ (id : Iri) agent, a.directory.agents[id]? = some agent → b.directory.agents[id]? = none := by
    intro id agent mine
    cases held : b.directory.agents[id]? with
    | none => rfl
    | some other =>
      rw [disjoint id other held] at mine
      cases mine
  have names : ∀ name : String, a.directory.byName[name]? = none ∨ b.directory.byName[name]? = none := by
    intro name
    rcases mine : a.directory.byName[name]? with _ | id
    · exact .inl rfl
    right
    obtain ⟨agent, there, its⟩ := ours.sound.named name id mine
    have same := agree id
    rw [mergedAgent_other there, mergedAgent_own there (absent id agent there), its] at same
    cases held : b.directory.byName[name]? with
    | none => rfl
    | some other =>
      rw [held] at same
      cases same
  refine ⟨names, ?_⟩
  intro id agent there active led
  have listed := ours.sound.listed id agent there
  have unknown : b.directory.byName[agent.nameKey]? = none := by
    rcases names agent.nameKey with none | none
    · rw [none] at listed
      cases listed
    · exact none
  have same := agree id
  rw [mergedAgent_other there, mergedAgent_own there (absent id agent there), unknown] at same
  have lost : demoted b.events agent = { agent with status := .retired } := by
    unfold demoted
    rw [if_pos ⟨active, led⟩]
  rw [lost] at same
  have status : AgentStatus.retired = agent.status := congrArg (fun standing => standing.2.2.2) (Option.some.inj same)
  rw [(isActiveLead_iff.mp active).1] at status
  cases status

/-- Two stores that registered areas and agents on their own and then imported each other's events agree on
all of them exactly when what they did was compatible. -/
theorem registries_converge_iff (opsA opsB : List RegistryOp) (runA : a = run Registry.step .empty opsA)
    (runB : b = run Registry.step .empty opsB) (apart : Apart a b) (toA : Delivers fromB b.events)
    (toB : Delivers fromA a.events) (importedA : a.importRegistryEvents fromB = .ok a')
    (importedB : b.importRegistryEvents fromA = .ok b') : Converged a' b' ↔ Compatible a b := by
  have ours : a.Local := runA ▸ local_run opsA
  have theirs : b.Local := runB ▸ local_run opsB
  obtain ⟨peopleA, disjointA, placesA⟩ := exchange_ok ours theirs apart toA importedA
  obtain ⟨peopleB, disjointB, placesB⟩ := exchange_ok theirs ours apart.symm toB importedB
  constructor
  · intro converged
    have agree : ∀ id : Iri, (mergedAgent a.directory b.directory b.events id).map AgentRecord.standing =
        (mergedAgent b.directory a.directory a.events id).map AgentRecord.standing := by
      intro id
      rw [← peopleA, ← peopleB]
      exact converged.agents id
    obtain ⟨names, leads⟩ := compatible_of_agents ours disjointA agree
    obtain ⟨_, leads'⟩ := compatible_of_agents theirs disjointB fun id => (agree id).symm
    refine ⟨?_, names, leads, leads'⟩
    intro key
    rw [← sameWord_iff, ← placesA, ← placesB]
    exact converged.areas key
  · intro compatible
    refine ⟨?_, ?_⟩
    · intro key
      rw [placesA, placesB]
      exact (sameWord_iff _ _).mpr (compatible.areas key)
    · intro id
      rw [peopleA, peopleB]
      cases mine : a.directory.agents[id]? with
      | some agent =>
        have absent : b.directory.agents[id]? = none := disjointB id agent mine
        rw [mergedAgent_other mine, mergedAgent_stays ours mine absent compatible.names (compatible.ours id agent mine)]
      | none =>
        cases held : b.directory.agents[id]? with
        | some agent =>
          rw [mergedAgent_other held, mergedAgent_stays theirs held mine (fun name => (compatible.names name).symm)
            (compatible.theirs id agent held)]
        | none =>
          unfold mergedAgent
          rw [mine, held]
          rfl

end Exchange

def leadArgs (name project : String) : RegisterAgentArgs At := ⟨name, none, project, .lead, [], true, false, "t0", "fl"⟩

def annOps : List RegistryOp := [.registerAgent (leadArgs "Ann" "core") ⟨fun _ => "ev1", "ev2", "agent-a", "ev3"⟩]

def bobOps : List RegistryOp := [.registerAgent (leadArgs "Bob" "web") ⟨fun _ => "ev4", "ev5", "agent-b", "ev6"⟩]

theorem exists_ok {ε α : Type} {x : Except ε α} (done : x.toOption.isSome = true) : ∃ a, x = .ok a := by
  cases x with
  | ok a => exact ⟨a, rfl⟩
  | error e => cases done

theorem foreign_of_check {base : Directory}
    (checked : ∀ ev ∈ events, (match ev.kind with
      | .agentUpsert record => decide (base.ids.rows[record.id]? = none)
      | _ => true) = true) : base.Foreign events := by
  intro ev member record kind
  have here := checked ev member
  rw [kind] at here
  exact of_decide_eq_true here

theorem annBob_converge :
    ∃ a' b', (run Registry.step .empty annOps).importRegistryEvents (run Registry.step .empty bobOps).events = .ok a' ∧
      (run Registry.step .empty bobOps).importRegistryEvents (run Registry.step .empty annOps).events = .ok b' ∧
      (Converged a' b' ↔ Compatible (run Registry.step .empty annOps) (run Registry.step .empty bobOps)) ∧
      a'.directory.agents["agent-b"]?.map AgentRecord.standing = some ("bob", "web", .lead, .active) := by
  obtain ⟨a', doneA⟩ := @exists_ok _ _ ((run Registry.step .empty annOps).importRegistryEvents
    (run Registry.step .empty bobOps).events) (by decide +kernel)
  obtain ⟨b', doneB⟩ := @exists_ok _ _ ((run Registry.step .empty bobOps).importRegistryEvents
    (run Registry.step .empty annOps).events) (by decide +kernel)
  have apart : Apart (run Registry.step .empty annOps) (run Registry.step .empty bobOps) :=
    ⟨by decide +kernel, foreign_of_check (by decide +kernel), foreign_of_check (by decide +kernel)⟩
  have standing : ((run Registry.step .empty annOps).importRegistryEvents
      (run Registry.step .empty bobOps).events).toOption.bind (fun a' => a'.directory.agents["agent-b"]?.map AgentRecord.standing) =
        some ("bob", "web", .lead, .active) := by decide +kernel
  rw [doneA] at standing
  exact ⟨a', b', doneA, doneB, registries_converge_iff annOps bobOps rfl rfl apart (fun _ => rfl) (fun _ => rfl) doneA doneB, standing⟩

def docsOps (purpose : String) (eventId : Iri) : List RegistryOp :=
  [.upsertArea ⟨"docs", "Docs", none, purpose, "t0", "fl"⟩ eventId]

/-- Each store ends with what the other one wrote. -/
theorem docs_diverge :
    ∃ a' b', (run Registry.step .empty (docsOps "ours" "ev1")).importRegistryEvents
        (run Registry.step .empty (docsOps "theirs" "ev2")).events = .ok a' ∧
      (run Registry.step .empty (docsOps "theirs" "ev2")).importRegistryEvents
        (run Registry.step .empty (docsOps "ours" "ev1")).events = .ok b' ∧
      a'.areas["docs"]?.map AreaRecord.purpose = some "theirs" ∧ b'.areas["docs"]?.map AreaRecord.purpose = some "ours" ∧
      ¬ Converged a' b' := by
  obtain ⟨a', doneA⟩ := @exists_ok _ _ ((run Registry.step .empty (docsOps "ours" "ev1")).importRegistryEvents
    (run Registry.step .empty (docsOps "theirs" "ev2")).events) (by decide +kernel)
  obtain ⟨b', doneB⟩ := @exists_ok _ _ ((run Registry.step .empty (docsOps "theirs" "ev2")).importRegistryEvents
    (run Registry.step .empty (docsOps "ours" "ev1")).events) (by decide +kernel)
  have first : ((run Registry.step .empty (docsOps "ours" "ev1")).importRegistryEvents
      (run Registry.step .empty (docsOps "theirs" "ev2")).events).toOption.bind
        (fun a' => a'.areas["docs"]?.map AreaRecord.purpose) = some "theirs" := by decide +kernel
  have second : ((run Registry.step .empty (docsOps "theirs" "ev2")).importRegistryEvents
      (run Registry.step .empty (docsOps "ours" "ev1")).events).toOption.bind
        (fun b' => b'.areas["docs"]?.map AreaRecord.purpose) = some "ours" := by decide +kernel
  rw [doneA] at first
  rw [doneB] at second
  refine ⟨a', b', doneA, doneB, first, second, ?_⟩
  intro converged
  have same := congrArg (Option.map AreaRecord.purpose) (converged.areas "docs")
  have wrong : some "theirs" = some "ours" := first.symm.trans (same.trans second)
  revert wrong
  decide

/-- However agents and areas come and go in one store, names and ids stay one to one, a project has one active lead
at most, and the table of areas is what the log of events says of each key. -/
theorem registry_follows_log (ops : List RegistryOp) : (run Registry.step .empty ops).directory.Sound ∧
    ∀ key : String, (run Registry.step .empty ops).areas[key]? = (lastEffect (run Registry.step .empty ops).events key).join :=
  ⟨(local_run ops).sound, (local_run ops).areas⟩

end FerroLoop.FerroState

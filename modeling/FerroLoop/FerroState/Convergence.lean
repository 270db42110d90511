import FerroLoop.FerroState.Registry
import FerroLoop.Lib.Machine
import FerroLoop.Workflow.Independence

namespace FerroLoop.Agents

variable {Id At : Type}

def RegistryEventKind.effect (kind : RegistryEventKind Id At) (key : String) : Option (Option (AreaRecord At)) :=
  match kind with
  | .areaUpsert area => if area.areaKey = key then some (some area) else none
  | .areaDelete areaKey => if areaKey = key then some none else none
  | _ => none

def RegistryEventKind.isArea : RegistryEventKind Id At → Bool
  | .areaUpsert _ => true
  | .areaDelete _ => true
  | _ => false

end FerroLoop.Agents

namespace FerroLoop.FerroState

open List hiding getElem?_insert map_id'
open Std Text Checked Map
open Option hiding map_id'
open ExtTreeMap hiding getElem?_erase getElem?_insert
open Agents
open Workflow (At)

def lastEffect (events : List RegistryEvent) (key : String) : Option (Option AreaRecord) :=
  events.foldl (fun held ev => (ev.kind.effect key).or held) none

theorem lastEffect_append (events : List RegistryEvent) (ev : RegistryEvent) (key : String) :
    lastEffect (events ++ [ev]) key = (ev.kind.effect key).or (lastEffect events key) := by
  unfold lastEffect
  rw [foldl_append, foldl_cons, foldl_nil]

theorem effect_of_agent {kind : RegistryEventKind} (agent : kind.isArea = false) (key : String) : kind.effect key = none := by
  cases kind with
  | areaUpsert area | areaDelete areaKey => cases agent
  | agentUpsert record => rfl
  | agentRetire id => rfl

/-- The contents as an import stores them. -/
def normalEffect : Option AreaRecord → Option AreaRecord
  | none => none
  | some area =>
    match area.normalized with
    | .ok norm => some norm
    | .error _ => some area

theorem normalEffect_ok {area norm : AreaRecord} (done : area.normalized = .ok norm) : normalEffect (some area) = some norm := by
  unfold normalEffect
  dsimp only
  rw [done]

def AreasKeyed (events : List RegistryEvent) : Prop := ∀ ev ∈ events, ∀ area, ev.kind = .areaUpsert area → area.Keyed

def importAreas (areas : ExtTreeMap String AreaRecord compare) :
    List RegistryEvent → Except RegistryError (ExtTreeMap String AreaRecord compare)
  | [] => .ok areas
  | ev :: rest => do
    let next ← importArea areas ev.kind
    importAreas next rest

variable {events : List RegistryEvent}

section Areas

variable {areas next : ExtTreeMap String AreaRecord compare} {kind : RegistryEventKind}

theorem importArea_get (keyed : ∀ area, kind = .areaUpsert area → area.Keyed) (done : importArea areas kind = .ok next)
    (key : String) : next[key]? = ((kind.effect key).map normalEffect).getD (areas[key]?) := by
  cases kind with
  | areaUpsert area =>
    obtain ⟨norm, normal, done⟩ := bind_ok done
    cases done
    have same := (keyed area rfl).normalized (mapError_ok normal)
    rw [getElem?_insert, same]
    unfold RegistryEventKind.effect
    dsimp only
    by_cases own : area.areaKey = key
    · rw [if_pos own, if_pos own, map_some, getD_some, normalEffect_ok (mapError_ok normal)]
    · rw [if_neg own, if_neg own]
      rfl
  | areaDelete areaKey =>
    have same : areas.erase areaKey = next := Except.ok.inj done
    rw [← same, getElem?_erase]
    unfold RegistryEventKind.effect
    dsimp only
    split
    · rfl
    · rfl
  | agentUpsert record | agentRetire id =>
    have same : areas = next := Except.ok.inj done
    rw [← same]
    rfl

theorem importAreas_get (keyed : AreasKeyed events) (done : importAreas areas events = .ok next)
    (key : String) : next[key]? = ((lastEffect events key).map normalEffect).getD (areas[key]?) := by
  have along : ∀ (events : List RegistryEvent) (areas : ExtTreeMap String AreaRecord compare)
      (held : Option (Option AreaRecord)), AreasKeyed events →
      importAreas areas events = .ok next →
      ∀ before : Option AreaRecord, areas[key]? = (held.map normalEffect).getD before →
        next[key]? = ((events.foldl (fun held ev => (ev.kind.effect key).or held) held).map normalEffect).getD before := by
    intro events
    induction events with
    | nil =>
      intro areas held _ done before now
      cases done
      exact now
    | cons ev rest ih =>
      intro areas held keyed done before now
      obtain ⟨mid, one, done⟩ := bind_ok done
      refine ih mid _ (fun later member => keyed later (mem_cons_of_mem _ member)) done before ?_
      rw [importArea_get (keyed ev mem_cons_self) one, now]
      dsimp only
      cases ev.kind.effect key with
      | none => rfl
      | some effect => rfl
  exact along events areas none keyed done (areas[key]?) rfl

end Areas

def Led (events : List RegistryEvent) (project : String) : Prop :=
  ∃ ev ∈ events, ∃ record, ev.kind = .agentUpsert record ∧ record.isActiveLead project = true

open Classical in
noncomputable def demoted (events : List RegistryEvent) (agent : AgentRecord) : AgentRecord :=
  if agent.isActiveLead agent.project = true ∧ Led events agent.project then { agent with status := .retired } else agent

variable {agent : AgentRecord}

theorem isActiveLead_iff {project : String} :
    agent.isActiveLead project = true ↔ agent.status = .active ∧ agent.project = project ∧ agent.role = .lead := by
  unfold AgentRecord.isActiveLead
  rw [decide_eq_true_iff]

/-- The agents of a store that only registered its own: names and ids belong together, and a project has one
active lead at most. -/
structure Directory.Sound (d : Directory) : Prop where
  owner : ∀ (id : Iri) agent, d.agents[id]? = some agent → agent.id = id
  named : ∀ (name : String) id, d.byName[name]? = some id → ∃ agent, d.agents[id]? = some agent ∧ agent.nameKey = name
  listed : ∀ (id : Iri) agent, d.agents[id]? = some agent → d.byName[agent.nameKey]? = some id
  primary : ∀ (id : Iri) agent, d.agents[id]? = some agent → d.ids.rows[id]? = some (.kind .agent)
  leads : ∀ (id other : Iri) agent lead project, d.agents[id]? = some agent → d.agents[other]? = some lead →
    agent.isActiveLead project = true → lead.isActiveLead project = true → id = other

namespace Directory

variable {d : Directory} {record : AgentRecord}

theorem mem_agentsInOrder : agent ∈ d.agentsInOrder ↔ ∃ id : Iri, d.agents[id]? = some agent := by
  unfold agentsInOrder
  rw [List.mem_map]
  constructor
  · rintro ⟨⟨id, held⟩, member, rfl⟩
    exact ⟨id, mem_toList_iff_getElem?_eq_some.mp member⟩
  · rintro ⟨id, held⟩
    exact ⟨(id, agent), mem_toList_iff_getElem?_eq_some.mpr held, rfl⟩

section Loop

variable {agents : ExtTreeMap Iri AgentRecord compare} {others : List AgentRecord} {id : Iri}

theorem retireAll_other (absent : ∀ other ∈ others, other.id ≠ id) :
    (others.foldl (fun agents other => agents.insert other.id { other with status := .retired }) agents)[id]? = agents[id]? := by
  induction others generalizing agents with
  | nil => rfl
  | cons other rest ih =>
    rw [foldl_cons, ih fun later member => absent later (mem_cons_of_mem _ member), getElem?_insert,
      if_neg (absent other mem_cons_self)]

theorem retireAll_named (only : ∀ other ∈ others, other.id = id → other = agent) (member : agent ∈ others)
    (own : agent.id = id) :
    (others.foldl (fun agents other => agents.insert other.id { other with status := .retired }) agents)[id]? =
      some { agent with status := .retired } := by
  induction others generalizing agents with
  | nil => cases member
  | cons other rest ih =>
    rw [foldl_cons]
    by_cases later : agent ∈ rest
    · exact ih (fun held inside => only held (mem_cons_of_mem _ inside)) later
    have first : agent = other := by
      rcases mem_cons.mp member with same | inside
      · exact same
      · exact absurd inside later
    subst first
    rw [retireAll_other, getElem?_insert, if_pos own]
    intro held inside same
    exact later (only held (mem_cons_of_mem _ inside) same ▸ inside)

end Loop

def yielding (record agent : AgentRecord) : AgentRecord :=
  if record.isActiveLead agent.project = true ∧ agent.isActiveLead agent.project = true ∧ agent.id ≠ record.id then
    { agent with status := .retired }
  else agent

theorem demoteLeads_ids : (d.demoteLeads record).ids = d.ids ∧ (d.demoteLeads record).byName = d.byName := by
  unfold demoteLeads
  split
  · exact ⟨rfl, rfl⟩
  · exact ⟨rfl, rfl⟩

theorem demoteLeads_get (owner : ∀ (id : Iri) agent, d.agents[id]? = some agent → agent.id = id) (id : Iri) :
    (d.demoteLeads record).agents[id]? = (d.agents[id]?).map (yielding record) := by
  unfold demoteLeads
  by_cases lead : record.role = .lead ∧ record.status = .active
  · rw [if_pos lead]
    dsimp only
    have among : ∀ other, other ∈ d.agentsInOrder.filter (fun agent => agent.isActiveLead record.project && decide (agent.id ≠ record.id)) ↔
        d.agents[other.id]? = some other ∧ other.isActiveLead record.project = true ∧ other.id ≠ record.id := by
      intro other
      rw [mem_filter, mem_agentsInOrder, Bool.and_eq_true, decide_eq_true_iff]
      constructor
      · rintro ⟨⟨key, held⟩, active, apart⟩
        have own := owner key other held
        exact ⟨own ▸ held, active, apart⟩
      · rintro ⟨held, active, apart⟩
        exact ⟨⟨other.id, held⟩, active, apart⟩
    have sameLead : ∀ agent : AgentRecord, agent.isActiveLead record.project = true ↔
        record.isActiveLead agent.project = true ∧ agent.isActiveLead agent.project = true := by
      intro agent
      rw [isActiveLead_iff, isActiveLead_iff, isActiveLead_iff]
      constructor
      · rintro ⟨active, same, role⟩
        exact ⟨⟨lead.2, same.symm, lead.1⟩, active, rfl, role⟩
      · rintro ⟨⟨_, same, _⟩, active, _, role⟩
        exact ⟨active, same.symm, role⟩
    cases held : d.agents[id]? with
    | none =>
      rw [retireAll_other, held]
      · rfl
      · intro other member same
        have there := ((among other).mp member).1
        rw [same, held] at there
        cases there
    | some agent =>
      have own := owner id agent held
      rw [map_some]
      unfold yielding
      by_cases gives : record.isActiveLead agent.project = true ∧ agent.isActiveLead agent.project = true ∧ agent.id ≠ record.id
      · rw [if_pos gives]
        refine retireAll_named ?_ ((among agent).mpr ⟨own ▸ held, (sameLead agent).mpr ⟨gives.1, gives.2.1⟩, gives.2.2⟩) own
        intro other member same
        have there := ((among other).mp member).1
        rw [same, held] at there
        exact (Option.some.inj there).symm
      · rw [if_neg gives, retireAll_other, held]
        intro other member same
        obtain ⟨there, active, apart⟩ := (among other).mp member
        rw [same, held] at there
        cases there
        obtain ⟨both, mine⟩ := (sameLead agent).mp active
        exact gives ⟨both, mine, apart⟩
  · rw [if_neg lead]
    have kept : yielding record = fun agent => agent := by
      funext agent
      unfold yielding
      rw [if_neg]
      rintro ⟨active, _⟩
      obtain ⟨status, _, role⟩ := isActiveLead_iff.mp active
      exact lead ⟨role, status⟩
    rw [kept, Option.map_id']

/-- What a store has of an agent once it has imported another store's log. -/
noncomputable def mergedAgent (base : Directory) (source : Directory) (events : List RegistryEvent) (id : Iri) :
    Option AgentRecord :=
  match source.agents[id]? with
  | some agent => some agent
  | none => (base.agents[id]?).bind fun agent =>
    if (source.byName[agent.nameKey]?).isSome then none else some (demoted events agent)

/-- The directory `x` is `base` after the import of the log of `source`, whose ids are all its own. -/
structure Follows (base source : Directory) (events : List RegistryEvent) (x : Directory) : Prop where
  agents : ∀ id : Iri, x.agents[id]? = mergedAgent base source events id
  byName : ∀ name : String, x.byName[name]? = (source.byName[name]?).or (base.byName[name]?)
  primary : ∀ (id : Iri) agent, source.agents[id]? = some agent → x.ids.rows[id]? = some (.kind .agent)
  foreign : ∀ (id : Iri) agent, source.agents[id]? = some agent → base.ids.rows[id]? = none
  aliased : ∀ id : Iri, x.ids.rows[id]? = some .aliased → base.ids.rows[id]? ≠ none

variable {base source x y : Directory} {events : List RegistryEvent} {ev : RegistryEvent}

theorem Follows.start (base : Directory) : Follows base .empty [] base := by
  have nobody : ∀ id : Iri, Directory.empty.agents[id]? = none := fun id => getElem?_empty
  have noName : ∀ name : String, Directory.empty.byName[name]? = none := fun name => getElem?_empty
  refine ⟨?_, ?_, ?_, ?_, ?_⟩
  · intro id
    unfold mergedAgent
    rw [nobody]
    rcases base.agents[id]? with _ | agent
    · rfl
    have kept : demoted [] agent = agent := by
      unfold demoted
      rw [if_neg]
      rintro ⟨_, ev, member, _⟩
      cases member
    simp only [bind_some, noName, isSome_none, Bool.false_eq_true, if_false, kept]
  · intro name
    rw [noName, none_or]
  · intro id agent held
    cases held
  · intro id agent held
    cases held
  · intro id held
    rw [held]
    exact nofun

theorem demoted_append (quiet : ∀ record, ev.kind = .agentUpsert record → record.isActiveLead agent.project = false) :
    demoted (events ++ [ev]) agent = demoted events agent := by
  have same : Led (events ++ [ev]) agent.project ↔ Led events agent.project := by
    constructor
    · rintro ⟨held, member, record, kind, lead⟩
      rcases mem_append.mp member with old | new
      · exact ⟨held, old, record, kind, lead⟩
      · rw [mem_singleton.mp new] at kind
        rw [quiet record kind] at lead
        cases lead
    · rintro ⟨held, member, rest⟩
      exact ⟨held, mem_append_left _ member, rest⟩
  unfold demoted
  by_cases leads : agent.isActiveLead agent.project = true ∧ Led events agent.project
  · rw [if_pos leads, if_pos ⟨leads.1, same.mpr leads.2⟩]
  · rw [if_neg leads, if_neg fun both => leads ⟨both.1, same.mp both.2⟩]

theorem mergedAgent_quiet (quiet : ∀ record, ev.kind ≠ .agentUpsert record) (id : Iri) :
    mergedAgent base source (events ++ [ev]) id = mergedAgent base source events id := by
  have same : ∀ agent, demoted (events ++ [ev]) agent = demoted events agent :=
    fun agent => demoted_append fun record kind => absurd kind (quiet record)
  unfold mergedAgent
  cases source.agents[id]? with
  | some agent => rfl
  | none =>
    cases base.agents[id]? with
    | none => rfl
    | some agent => rw [bind_some, bind_some, same]

theorem Follows.area (follows : Follows base source events x) (area : ev.kind.isArea = true)
    (done : x.importKind ev.at_ ev.by_ ev.kind = .ok y) : Follows base source (events ++ [ev]) y := by
  have same : x = y := by
    cases kind : ev.kind with
    | areaUpsert record | areaDelete key =>
      rw [kind] at done
      exact Except.ok.inj done
    | agentUpsert record | agentRetire id =>
      rw [kind] at area
      cases area
  subst same
  refine ⟨?_, follows.byName, follows.primary, follows.foreign, follows.aliased⟩
  intro id
  rw [mergedAgent_quiet, follows.agents]
  intro record kind
  rw [kind] at area
  cases area

variable {id : Iri}

theorem Follows.retire (follows : Follows base source events x)
    (held : source.agents[id]? = some agent) (kind : ev.kind = .agentRetire id)
    (done : x.importKind ev.at_ ev.by_ ev.kind = .ok y) :
    Follows base { source with agents := source.agents.insert id (agent.retired ev.at_ ev.by_) } (events ++ [ev]) y := by
  have there : x.agents[id]? = some agent := by
    rw [follows.agents]
    unfold mergedAgent
    rw [held]
  have after : y = { x with agents := x.agents.insert id (agent.retired ev.at_ ev.by_) } := by
    rw [kind] at done
    obtain ⟨resolved, found, done⟩ := bind_ok done
    have primary := Ids.resolve_of_kind (follows.primary id agent held)
    rw [mapError_ok found] at primary
    cases primary
    rw [there] at done
    exact (Except.ok.inj done).symm
  subst after
  have same : ∀ (key : Iri) record, (source.agents.insert id (agent.retired ev.at_ ev.by_))[key]? = some record →
      ∃ before, source.agents[key]? = some before := by
    intro key record found
    rw [getElem?_insert] at found
    split at found
    · rename_i equal
      exact ⟨agent, equal ▸ held⟩
    · exact ⟨record, found⟩
  refine ⟨?_, follows.byName, ?_, ?_, follows.aliased⟩
  · intro key
    rw [mergedAgent_quiet (fun record upsert => by rw [kind] at upsert; cases upsert)]
    change (x.agents.insert id _)[key]? = _
    unfold mergedAgent
    rw [getElem?_insert, getElem?_insert]
    by_cases equal : id = key
    · rw [if_pos equal, if_pos equal]
    · rw [if_neg equal, if_neg equal, follows.agents]
      rfl
  · intro key record found
    obtain ⟨before, there⟩ := same key record found
    exact follows.primary key before there
  · intro key record found
    obtain ⟨before, there⟩ := same key record found
    exact follows.foreign key before there

structure Admits (source : Directory) (record : AgentRecord) : Prop where
  name : source.byName[record.nameKey]? = some record.id ∨
    source.byName[record.nameKey]? = none ∧ source.agents[record.id]? = none
  lead : ∀ (id : Iri) agent, source.agents[id]? = some agent → record.isActiveLead agent.project = true →
    agent.isActiveLead agent.project = true → agent.id = record.id

def registered (source : Directory) (ids : Ids) (record : AgentRecord) : Directory :=
  ⟨ids, source.agents.insert record.id record, source.byName.insert record.nameKey record.id⟩

theorem Follows.owner (follows : Follows base source events x) (ours : base.Sound) (theirs : source.Sound) (id : Iri)
    (agent : AgentRecord) (held : x.agents[id]? = some agent) : agent.id = id := by
  rw [follows.agents] at held
  unfold mergedAgent at held
  split at held
  · rename_i own
    cases held
    exact theirs.owner id _ own
  rw [bind_eq_some_iff] at held
  obtain ⟨before, there, held⟩ := held
  split at held
  · cases held
  cases held
  have own := ours.owner id before there
  unfold demoted
  split
  · exact own
  · exact own

variable {record : AgentRecord}

theorem Follows.adoptName (follows : Follows base source events x) (ours : base.Sound)
    (admits : Admits source record) (fresh : base.ids.rows[record.id]? = none) :
    (∀ id : Iri, (x.adoptName record).agents[id]? =
        if source.byName[record.nameKey]? = none ∧ base.byName[record.nameKey]? = some id then none else x.agents[id]?) ∧
      (x.adoptName record).byName = x.byName ∧
      (∀ (id : Iri) agent, source.agents[id]? = some agent → (x.adoptName record).ids.rows[id]? = some (.kind .agent)) ∧
      (∀ id : Iri, (x.adoptName record).ids.rows[id]? = some .aliased → base.ids.rows[id]? ≠ none) := by
  have unchanged : (x.byName[record.nameKey]? = none ∨ x.byName[record.nameKey]? = some record.id) → x.adoptName record = x := by
    unfold Directory.adoptName
    rintro (none | own)
    · rw [none]
    · rw [own]
      exact if_pos rfl
  have name := follows.byName record.nameKey
  rcases admits.name with own | ⟨unknown, _⟩
  · rw [own, some_or] at name
    rw [unchanged (.inr name)]
    refine ⟨?_, rfl, follows.primary, follows.aliased⟩
    intro id
    rw [if_neg]
    rintro ⟨absent, _⟩
    rw [own] at absent
    cases absent
  · rw [unknown, none_or] at name
    cases before : base.byName[record.nameKey]? with
    | none =>
      rw [before] at name
      rw [unchanged (.inl name)]
      refine ⟨?_, rfl, follows.primary, follows.aliased⟩
      intro id
      rw [if_neg]
      rintro ⟨_, absent⟩
      cases absent
    | some existing =>
      rw [before] at name
      obtain ⟨agent, there, _⟩ := ours.named _ _ before
      have row := ours.primary existing agent there
      have apart : existing ≠ record.id := by
        intro same
        rw [same, fresh] at row
        cases row
      have shape : x.adoptName record =
          { x with ids := x.ids.aliasUnpublished .agent existing record.id, agents := x.agents.erase existing } := by
        unfold Directory.adoptName
        rw [name]
        exact if_neg apart
      rw [shape]
      refine ⟨?_, rfl, ?_, ?_⟩
      · intro id
        change (x.agents.erase existing)[id]? = _
        rw [getElem?_erase]
        by_cases same : existing = id
        · rw [if_pos same, if_pos ⟨unknown, congrArg some same⟩]
        · rw [if_neg same, if_neg fun both => same (Option.some.inj both.2)]
      · intro id held found
        change (x.ids.aliasUnpublished .agent existing record.id).rows[id]? = _
        rw [Ids.aliasUnpublished_rows apart]
        have foreign := follows.foreign id held found
        split
        · rfl
        rw [if_neg, follows.primary id held found]
        intro same
        rw [same, foreign] at row
        cases row
      · intro id found
        change (x.ids.aliasUnpublished .agent existing record.id).rows[id]? = _ at found
        rw [Ids.aliasUnpublished_rows apart] at found
        split at found
        · cases found
        split at found
        · rename_i same
          rw [← same, row]
          exact nofun
        · exact follows.aliased id found

theorem indexImported_aliased {ids next : Ids} {other : Iri} {kind : Kind} (done : ids.indexImported kind id = .ok next)
    (found : next.rows[other]? = some .aliased) : ids.rows[other]? = some .aliased := by
  unfold Ids.indexImported at done
  split at done
  · cases done
    exact found
  · split at done
    · cases done
      exact found
    · cases done
  · obtain ⟨_, _, rows⟩ := Ids.indexNew_ok done
    rw [rows] at found
    split at found
    · cases found
    · exact found

theorem yielding_demoted (kind : ev.kind = .agentUpsert record) (apart : agent.id ≠ record.id) :
    yielding record (demoted events agent) = demoted (events ++ [ev]) agent := by
  have led : Led (events ++ [ev]) agent.project ↔ Led events agent.project ∨ record.isActiveLead agent.project = true := by
    constructor
    · rintro ⟨held, member, other, named, lead⟩
      rcases mem_append.mp member with old | new
      · exact .inl ⟨held, old, other, named, lead⟩
      · rw [mem_singleton.mp new, kind] at named
        cases named
        exact .inr lead
    · rintro (⟨held, member, rest⟩ | lead)
      · exact ⟨held, mem_append_left _ member, rest⟩
      · exact ⟨ev, mem_append_right _ (mem_singleton.mpr rfl), record, kind, lead⟩
  unfold demoted
  by_cases active : agent.isActiveLead agent.project = true
  · by_cases before : Led events agent.project
    · rw [if_pos ⟨active, before⟩, if_pos ⟨active, led.mpr (.inl before)⟩]
      unfold yielding
      rw [if_neg]
      rintro ⟨_, still, _⟩
      obtain ⟨status, _⟩ := isActiveLead_iff.mp still
      cases status
    · rw [if_neg fun both => before both.2]
      unfold yielding
      by_cases now : record.isActiveLead agent.project = true
      · rw [if_pos ⟨now, active, apart⟩, if_pos ⟨active, led.mpr (.inr now)⟩]
      · rw [if_neg fun both => now both.1, if_neg]
        rintro ⟨_, after⟩
        exact (led.mp after).elim before now
  · rw [if_neg fun both => active both.1, if_neg fun both => active both.1]
    unfold yielding
    rw [if_neg fun both => active both.2.1]

theorem Follows.upsert (follows : Follows base source events x) (ours : base.Sound) (theirs : source.Sound)
    (admits : Admits source record) (fresh : base.ids.rows[record.id]? = none)
    (kind : ev.kind = .agentUpsert record) (done : x.importKind ev.at_ ev.by_ ev.kind = .ok y) (ids : Ids) :
    Follows base (registered source ids record) (events ++ [ev]) y := by
  obtain ⟨kept, names, primary, aliased⟩ := follows.adoptName ours admits fresh
  rw [kind] at done
  obtain ⟨rows, indexed, done⟩ := bind_ok done
  have after : y = ⟨rows, ((x.adoptName record).demoteLeads record).agents.insert record.id record,
      ((x.adoptName record).demoteLeads record).byName.insert record.nameKey record.id⟩ := (Except.ok.inj done).symm
  have indexed := mapError_ok indexed
  rw [(@demoteLeads_ids (x.adoptName record) record).1] at indexed
  obtain ⟨_, row, stay⟩ := Ids.indexImported_ok indexed
  have owner : ∀ (id : Iri) agent, (x.adoptName record).agents[id]? = some agent → agent.id = id := by
    intro id agent held
    rw [kept] at held
    split at held
    · cases held
    · exact follows.owner ours theirs id agent held
  have apart : ∀ (id : Iri) agent, source.agents[id]? = some agent → base.byName[record.nameKey]? ≠ some id := by
    intro id agent held named
    obtain ⟨other, there, _⟩ := ours.named _ _ named
    have primary := ours.primary id other there
    rw [follows.foreign id agent held] at primary
    cases primary
  subst after
  refine ⟨?_, ?_, ?_, ?_, ?_⟩
  · intro id
    change (((x.adoptName record).demoteLeads record).agents.insert record.id record)[id]? = _
    have own : (registered source ids record).agents[id]? = if record.id = id then some record else source.agents[id]? :=
      getElem?_insert _ _ _ _
    have name : ∀ key, (registered source ids record).byName[key]? =
        if record.nameKey = key then some record.id else source.byName[key]? := fun key => getElem?_insert _ _ _ _
    rw [getElem?_insert, demoteLeads_get owner, kept, follows.agents]
    unfold mergedAgent
    rw [own]
    by_cases same : record.id = id
    · rw [if_pos same, if_pos same]
    rw [if_neg same, if_neg same]
    cases theirsHeld : source.agents[id]? with
    | some agent =>
      rw [if_neg fun both => apart id agent theirsHeld both.2]
      have stays : yielding record agent = agent := by
        unfold yielding
        rw [if_neg]
        rintro ⟨now, active, other⟩
        exact other (admits.lead id agent theirsHeld now active)
      rw [map_some, stays]
    | none =>
      rcases oursHeld : base.agents[id]? with _ | agent
      · rw [bind_none, ite_self]
        rfl
      have named := ours.listed id agent oursHeld
      rw [bind_some, bind_some, name]
      by_cases taken : record.nameKey = agent.nameKey
      · rw [if_pos taken, taken]
        by_cases known : source.byName[agent.nameKey]? = none
        · rw [if_pos ⟨known, named⟩]
          rfl
        · rw [if_neg fun both => known both.1, if_pos (isSome_iff_ne_none.mpr known)]
          rfl
      · have stays : ¬ (source.byName[record.nameKey]? = none ∧ base.byName[record.nameKey]? = some id) := by
          rintro ⟨_, theirName⟩
          obtain ⟨other, there, its⟩ := ours.named _ _ theirName
          rw [oursHeld] at there
          cases there
          exact taken its.symm
        rw [if_neg stays, if_neg taken]
        dsimp only
        by_cases known : (source.byName[agent.nameKey]?).isSome = true
        · rw [if_pos known, if_pos known]
          rfl
        · have own := ours.owner id agent oursHeld
          rw [if_neg known, if_neg known, map_some, yielding_demoted kind (fun equal => same (equal.symm.trans own))]
  · intro name
    change (((x.adoptName record).demoteLeads record).byName.insert record.nameKey record.id)[name]? =
      ((source.byName.insert record.nameKey record.id)[name]?).or (base.byName[name]?)
    rw [(@demoteLeads_ids (x.adoptName record) record).2, names, getElem?_insert, getElem?_insert, follows.byName]
    split
    · rfl
    · rfl
  · intro id agent held
    change (source.agents.insert record.id record)[id]? = some agent at held
    rw [getElem?_insert] at held
    split at held
    · rename_i same
      rw [← same]
      rcases row with now | before
      · exact now
      · exact absurd fresh (aliased _ before)
    · exact stay id _ (primary id agent held)
  · intro id agent held
    change (source.agents.insert record.id record)[id]? = some agent at held
    rw [getElem?_insert] at held
    split at held
    · rename_i same
      rw [← same]
      exact fresh
    · exact follows.foreign id agent held
  · intro id found
    exact aliased id (indexImported_aliased indexed found)

theorem Sound.empty : Sound .empty := by
  constructor <;> simp [Directory.empty]

theorem Sound.retire (sound : Sound d) (held : d.agents[id]? = some agent) (at_ : At)
    (by_ : String) : Sound { d with agents := d.agents.insert id (agent.retired at_ by_) } := by
  have get : ∀ key : Iri, ({ d with agents := d.agents.insert id (agent.retired at_ by_) } : Directory).agents[key]? =
      if id = key then some (agent.retired at_ by_) else d.agents[key]? := fun key => getElem?_insert _ _ _ _
  have before : ∀ (key : Iri) record, ({ d with agents := d.agents.insert id (agent.retired at_ by_) } : Directory).agents[key]? =
      some record → ∃ old, d.agents[key]? = some old ∧ old.nameKey = record.nameKey ∧ old.id = record.id ∧
        ∀ project, record.isActiveLead project = true → old.isActiveLead project = true := by
    intro key record found
    rw [get] at found
    split at found
    · rename_i same
      cases found
      refine ⟨agent, same ▸ held, rfl, rfl, ?_⟩
      intro project active
      obtain ⟨status, _⟩ := isActiveLead_iff.mp active
      cases status
    · exact ⟨record, found, rfl, rfl, fun _ active => active⟩
  constructor
  · intro key record found
    obtain ⟨old, there, _, own, _⟩ := before key record found
    rw [← own]
    exact sound.owner key old there
  · intro name key found
    obtain ⟨old, there, its⟩ := sound.named name key found
    rw [get]
    split
    · rename_i same
      rw [← same, held] at there
      cases there
      exact ⟨_, rfl, its⟩
    · exact ⟨old, there, its⟩
  · intro key record found
    obtain ⟨old, there, name, _⟩ := before key record found
    rw [← name]
    exact sound.listed key old there
  · intro key record found
    obtain ⟨old, there, _⟩ := before key record found
    exact sound.primary key old there
  · intro key other record lead project first second active also
    obtain ⟨old, there, _, _, mine⟩ := before key record first
    obtain ⟨held', there', _, _, theirs⟩ := before other lead second
    exact sound.leads key other old held' project there there' (mine project active) (theirs project also)

theorem Sound.upsert (sound : Sound d) (admits : Admits d record) {ids : Ids}
    (row : ids.rows[record.id]? = some (.kind .agent))
    (kept : ∀ (id : Iri) row, d.ids.rows[id]? = some row → ids.rows[id]? = some row) : Sound (registered d ids record) := by
  have get : ∀ id : Iri, (registered d ids record).agents[id]? = if record.id = id then some record else d.agents[id]? :=
    fun id => getElem?_insert _ _ _ _
  have name : ∀ key : String, (registered d ids record).byName[key]? =
      if record.nameKey = key then some record.id else d.byName[key]? := fun key => getElem?_insert _ _ _ _
  -- Nobody else has the record's name.
  have alone : ∀ (id : Iri) agent, d.agents[id]? = some agent → agent.nameKey = record.nameKey → id = record.id := by
    intro id agent held same
    have listed := sound.listed id agent held
    rw [same] at listed
    rcases admits.name with own | ⟨none, _⟩
    · rw [own] at listed
      exact (Option.some.inj listed).symm
    · rw [none] at listed
      cases listed
  -- And the record's id is under no other name.
  have once : ∀ key, d.byName[key]? = some record.id → key = record.nameKey := by
    intro key found
    obtain ⟨agent, there, its⟩ := sound.named key _ found
    rcases admits.name with own | ⟨_, free⟩
    · obtain ⟨agent', there', its'⟩ := sound.named _ _ own
      rw [there] at there'
      cases there'
      exact its.symm.trans its'
    · rw [free] at there
      cases there
  constructor
  · intro id agent found
    rw [get] at found
    split at found
    · cases found
      assumption
    · exact sound.owner id agent found
  · intro key id found
    rw [name] at found
    rw [get]
    split at found
    · rename_i same
      cases found
      exact ⟨record, if_pos rfl, same⟩
    rename_i other
    rw [if_neg]
    · exact sound.named key id found
    · intro same
      rw [← same] at found
      exact other (once key found).symm
  · intro id agent found
    rw [get] at found
    rw [name]
    split at found
    · rename_i same
      cases found
      rw [if_pos rfl, same]
    rename_i other
    rw [if_neg, sound.listed id agent found]
    intro same
    exact other (alone id agent found same.symm).symm
  · intro id agent found
    rw [get] at found
    split at found
    · rename_i same
      rw [← same]
      exact row
    · exact kept id _ (sound.primary id agent found)
  · intro id other agent lead project first second active also
    rw [get] at first second
    have apart : ∀ (key : Iri) held, d.agents[key]? = some held → held.isActiveLead project = true →
        record.isActiveLead project = true → key = record.id := by
      intro key held there now mine
      have its := (isActiveLead_iff.mp now).2.1
      rw [← its] at now mine
      exact (sound.owner key held there).symm.trans (admits.lead key held there mine now)
    split at first
    · rename_i same
      cases first
      split at second
      · rename_i same'
        exact same.symm.trans same'
      · exact same.symm.trans (apart other lead second also active).symm
    · split at second
      · rename_i same'
        cases second
        exact (apart id agent first active also).trans same'
      · exact sound.leads id other agent lead project first second active also

def importAll (d : Directory) (events : List RegistryEvent) : Except RegistryError Directory :=
  events.foldlM (fun d ev => d.importKind ev.at_ ev.by_ ev.kind) d

theorem importAll_append {d y : Directory} {ev : RegistryEvent}
    (done : d.importAll (events ++ [ev]) = .ok y) :
    ∃ x, d.importAll events = .ok x ∧ x.importKind ev.at_ ev.by_ ev.kind = .ok y := by
  unfold importAll at done
  rw [foldlM_append] at done
  obtain ⟨x, first, done⟩ := bind_ok done
  obtain ⟨z, second, done⟩ := bind_ok done
  cases done
  exact ⟨x, first, second⟩

def Foreign (base : Directory) (events : List RegistryEvent) : Prop :=
  ∀ ev ∈ events, ∀ record, ev.kind = .agentUpsert record → base.ids.rows[record.id]? = none

theorem Foreign.front (foreign : Foreign base (events ++ [ev])) : Foreign base events :=
  fun held member => foreign held (mem_append_left _ member)

end Directory

end FerroLoop.FerroState

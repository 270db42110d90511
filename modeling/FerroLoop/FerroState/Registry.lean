import FerroLoop.FerroState.Revisions

/-!
The registry of areas and agents (`crates/core/src/agent.rs`, `AgentRegistry` of
`crates/store/src/ferrostore/traits_state.rs`): local registrations, deletions and retirements, each with the
events it logs, and the import of the events of another store. Ids that the code mints are arguments.
-/

namespace FerroLoop.FerroState

open Std Text Checked
open Agents (AgentStatus RegisterAgentArgs Minted StateError registeredArea validateAgentIdentity validateSlug)
open Workflow (At)

abbrev AreaRecord := Agents.AreaRecord At

abbrev AgentRecord := Agents.AgentRecord Iri At

abbrev RegistryEventKind := Agents.RegistryEventKind Iri At

abbrev RegistryEvent := Agents.RegistryEvent Iri Iri At

inductive RegistryError where
  | id (error : IdError)
  | invalidState (detail : String)
  | noSuchArea (areaKey : String)
  | agentCollision (nameKey : String) (existing : Iri) (status : AgentStatus)
  | leadTaken (project leadName : String) (lead : Iri)
  | wrongKind (id : Iri) (found : Kind)
  | noSuchAgent (id : Iri)
  | changedEvent (event : Iri)
  deriving DecidableEq

def invalid {α : Type} (x : Except StateError α) : Except RegistryError α :=
  x.mapError fun error => .invalidState error.display

def registrySlug (raw : String) : Except RegistryError String := invalid (validateSlug raw)

structure Directory where
  ids : Ids
  agents : ExtTreeMap Iri AgentRecord compare
  byName : ExtTreeMap String Iri compare

def liftIdError {α : Type} (x : Except IdError α) : Except RegistryError α := x.mapError .id

namespace Directory

def empty : Directory := ⟨.empty, ∅, ∅⟩

section

variable (d : Directory)

def agentsInOrder : List AgentRecord := d.agents.toList.map Prod.snd

def putAgent (agent : AgentRecord) : Directory := { d with agents := d.agents.insert agent.id agent }

def named (nameKey : String) : Option AgentRecord :=
  match d.byName[nameKey]? with
  | some id => d.agents[id]?
  | none => none

def adoptName (record : AgentRecord) : Directory :=
  match d.byName[record.nameKey]? with
  | some existing =>
    if existing = record.id then d
    else { d with ids := d.ids.aliasUnpublished .agent existing record.id, agents := d.agents.erase existing }
  | none => d

def demoteLeads (record : AgentRecord) : Directory :=
  if record.role = .lead ∧ record.status = .active then
    let others := d.agentsInOrder.filter fun agent => agent.isActiveLead record.project && decide (agent.id ≠ record.id)
    { d with agents := others.foldl (fun agents other => agents.insert other.id { other with status := .retired }) d.agents }
  else d

def importKind (at_ : At) (by_ : String) : RegistryEventKind → Except RegistryError Directory
  | .agentUpsert record => do
    let d := (d.adoptName record).demoteLeads record
    let ids ← liftIdError (d.ids.indexImported .agent record.id)
    return ⟨ids, d.agents.insert record.id record, d.byName.insert record.nameKey record.id⟩
  | .agentRetire id => do
    let resolved ← liftIdError (d.ids.resolve id)
    match d.agents[resolved]? with
    | some agent => return { d with agents := d.agents.insert resolved (agent.retired at_ by_) }
    | none => return d
  | _ => return d

end

end Directory

structure Registry where
  directory : Directory
  areas : ExtTreeMap String AreaRecord compare
  events : List RegistryEvent

def importArea (areas : ExtTreeMap String AreaRecord compare) :
    RegistryEventKind → Except RegistryError (ExtTreeMap String AreaRecord compare)
  | .areaUpsert area => do
    let norm ← invalid area.normalized
    return areas.insert norm.areaKey norm
  | .areaDelete areaKey => return areas.erase areaKey
  | _ => return areas

namespace Registry

def empty : Registry := ⟨.empty, ∅, []⟩

/-- `append_registry_event`. -/
def log (r : Registry) (ev : RegistryEvent) : Registry := { r with events := r.events ++ [ev] }

def upsertArea (r : Registry) (area : AreaRecord) (eventId : Iri) : Except RegistryError Registry := do
  let norm ← invalid area.normalized
  return { r with areas := r.areas.insert norm.areaKey norm }.log ⟨eventId, norm.updatedAt, norm.by_, .areaUpsert norm⟩

def deleteArea (r : Registry) (areaKey : String) (at_ : At) (by_ : String) (eventId : Iri) : Except RegistryError Registry := do
  let key ← registrySlug areaKey
  match r.areas[key]? with
  | none => return r
  | some _ => return { r with areas := r.areas.erase key }.log ⟨eventId, at_, by_, .areaDelete key⟩

def createAreas (args : RegisterAgentArgs At) (minted : Minted Iri) : Registry → List String → Except RegistryError Registry
  | r, [] => .ok r
  | r, key :: rest =>
    match r.areas[key]? with
    | some _ => createAreas args minted r rest
    | none =>
      if !args.createArea then .error (.noSuchArea key)
      else
        let area := registeredArea key args
        createAreas args minted
          ({ r with areas := r.areas.insert key area }.log ⟨minted.areaEvent key, args.at_, args.by_, .areaUpsert area⟩) rest

def replaceLead (r : Registry) (args : RegisterAgentArgs At) (project nameKey : String) (eventId : Iri) :
    Except RegistryError Registry :=
  if args.role = .lead then
    match r.directory.agentsInOrder.find? fun agent => agent.isActiveLead project && decide (agent.nameKey ≠ nameKey) with
    | none => .ok r
    | some lead =>
      if !args.replace then .error (.leadTaken project lead.displayName lead.id)
      else
        .ok ({ r with directory := r.directory.putAgent (lead.retired args.at_ args.by_) }.log
          ⟨eventId, args.at_, args.by_, .agentRetire lead.id⟩)
  else .ok r

def registeredId (d : Directory) (existing : Option AgentRecord) (newId : Iri) : Except RegistryError (Directory × Iri) :=
  match existing with
  | some agent => .ok (d, agent.id)
  | none => do
    let ids ← liftIdError (d.ids.indexNew newId .agent)
    return ({ d with ids }, newId)

def refuseCollision (existing : Option AgentRecord) (replace : Bool) : Except RegistryError Unit :=
  match existing with
  | some agent => refuseIf (replace = false) (.agentCollision agent.nameKey agent.id agent.status)
  | none => .ok ()

def registerAgent (r : Registry) (args : RegisterAgentArgs At) (minted : Minted Iri) : Except RegistryError Registry := do
  let (nameKey, displayName, email) ← (validateAgentIdentity args.displayName args.email).mapError .invalidState
  let project ← registrySlug args.project
  let extra ← args.extraAreas.mapM registrySlug
  let extraAreas := (extra.mergeSort fun a b => decide (a ≤ b)).eraseDups
  let r ← createAreas args minted r (project :: extraAreas)
  let existing := r.directory.named nameKey
  refuseCollision existing args.replace
  let r ← r.replaceLead args project nameKey minted.retireEvent
  let (directory, id) ← registeredId r.directory existing minted.agent
  let record : AgentRecord :=
    { id, nameKey, displayName, email, project, role := args.role, extraAreas, status := .active, updatedAt := args.at_
      by_ := args.by_ }
  let directory := { directory.putAgent record with byName := directory.byName.insert nameKey id }
  return { r with directory }.log ⟨minted.agentEvent, args.at_, args.by_, .agentUpsert record⟩

def retireAgent (r : Registry) (id : Iri) (at_ : At) (by_ : String) (eventId : Iri) : Except RegistryError Registry := do
  let (resolved, kind) ← liftIdError (r.directory.ids.locate id)
  refuseIf (kind ≠ .agent) (.wrongKind id kind)
  match r.directory.agents[resolved]? with
  | none => throw (.noSuchAgent resolved)
  | some agent =>
    return { r with directory := { r.directory with
      agents := r.directory.agents.insert resolved (agent.retired at_ (trim by_)) } }.log
        ⟨eventId, at_, trim by_, .agentRetire resolved⟩

/-- One event of `import_registry_events`: one that is there is compared, another one applied. -/
def importEvent (r : Registry) (ev : RegistryEvent) : Except RegistryError Registry :=
  match r.events.find? fun held => held.eventId = ev.eventId with
  | some held => do
    refuseIf (held ≠ ev) (.changedEvent ev.eventId)
    return r
  | none => do
    let directory ← r.directory.importKind ev.at_ ev.by_ ev.kind
    let areas ← importArea r.areas ev.kind
    return Registry.log { r with directory, areas } ev

def importRegistryEvents (r : Registry) : List RegistryEvent → Except RegistryError Registry
  | [] => .ok r
  | ev :: rest => do
    let next ← r.importEvent ev
    next.importRegistryEvents rest

end Registry

inductive RegistryOp where
  | upsertArea (area : AreaRecord) (eventId : Iri)
  | deleteArea (areaKey : String) (at_ : At) (by_ : String) (eventId : Iri)
  | registerAgent (args : RegisterAgentArgs At) (minted : Minted Iri)
  | retireAgent (id : Iri) (at_ : At) (by_ : String) (eventId : Iri)

def Registry.apply (r : Registry) : RegistryOp → Except RegistryError Registry
  | .upsertArea area eventId => r.upsertArea area eventId
  | .deleteArea areaKey at_ by_ eventId => r.deleteArea areaKey at_ by_ eventId
  | .registerAgent args minted => r.registerAgent args minted
  | .retireAgent id at_ by_ eventId => r.retireAgent id at_ by_ eventId

def Registry.step (r : Registry) (op : RegistryOp) : Registry × Option RegistryError :=
  match r.apply op with
  | .ok next => (next, none)
  | .error error => (r, some error)

end FerroLoop.FerroState

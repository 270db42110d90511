import FerroLoop.Wire.Inbox.Store

/-!
The agent registry of the message store (`crates/store/src/ferrostore/traits_state.rs`, `doc.rs`,
`crates/core/src/agent.rs`, `iri.rs`). An id the store mints is an argument here.
-/

namespace FerroLoop.Wire

open Text

def isScheme : List Char → Bool
  | [] => false
  | first :: rest =>
    first.isAlpha && rest.all fun c => c.isAlphanum || c == '+' || c == '-' || c == '.'

def lowered (text : List Char) : List Char := text.map Char.toLower

def normalize (scheme rest : List Char) : List Char :=
  let scheme := lowered scheme
  if scheme = "urn".toList then
    match splitAtFirst [':'] rest with
    | none => scheme ++ ':' :: rest
    | some (nid, nss) =>
      let nid := lowered nid
      scheme ++ ':' :: nid ++ ':' :: (if nid = "uuid".toList then lowered nss else nss)
  else if scheme = "http".toList ∨ scheme = "https".toList then
    match rest with
    | '/' :: '/' :: after =>
      let (authority, tail) := after.span fun c => !(c == '/' || c == '?' || c == '#')
      scheme ++ "://".toList ++ lowered authority ++ tail
    | _ => scheme ++ ':' :: rest
  else scheme ++ ':' :: rest

def Iri.parse (input : String) : Option Iri :=
  let text := input.toList
  if text.isEmpty || text.any isWhitespace then none
  else
    match splitAtFirst [':'] text with
    | none => none
    | some (scheme, rest) =>
      if !isScheme scheme || rest.isEmpty then none
      else if lowered scheme = "urn".toList then
        match splitAtFirst [':'] rest with
        | none => none
        | some (nid, nss) =>
          if nid.isEmpty || nss.isEmpty then none else some ⟨String.ofList (normalize scheme rest)⟩
      else some ⟨String.ofList (normalize scheme rest)⟩

namespace Inbox

open Agents (AgentStatus RegisterAgentArgs Minted StateError registeredArea validateAgentIdentity validateSlug)
open Store (BTreeMap)

inductive StoreError where
  | invalidState (detail : String)
  | messageNotFound (id : MessageId)
  | wrongKind (id : Iri) (expected found : Kind)
  | alreadyExists (id : Iri)
  | notOwned (id : Iri) (searched : List String)
  | noSuchArea (areaKey : String)
  | noSuchAgent (id : String)
  | agentCollision (nameKey : String) (existingId : AgentId) (status : AgentStatus)
  | leadTaken (project leadName : String) (leadId : AgentId)
  | tampered (id : Iri) (detail : String)
  | decode (detail : String)
  deriving DecidableEq

def invalid {α : Type} (x : Except StateError α) : Except StoreError α := x.mapError fun err => .invalidState err.display

def slug (raw : String) : Except StoreError String := invalid (validateSlug raw)

namespace Registry

section

variable (registry : Registry)

def locate (label : String) (id : Iri) : Except StoreError (Iri × Kind) :=
  match registry.ids[id.text]? with
  | none => .error (.notOwned id [label])
  | some (.kind kind) => .ok (id, kind)
  | some .aliased =>
    match registry.aliases[id.text]? with
    | none => .error (.decode ("alias `" ++ id.text ++ "` has no primary recorded"))
    | some primary =>
      match registry.ids[primary.text]? with
      | none =>
        .error (.decode ("alias `" ++ id.text ++ "` names " ++ primary.text ++ ", which this store does not hold"))
      | some .aliased => .error (.decode ("unknown kind `alias` for " ++ primary.text))
      | some (.kind kind) => .ok (primary, kind)

def resolveIri (label : String) (id : Iri) : Except StoreError Iri :=
  match registry.locate label id with
  | .ok (primary, _) => .ok primary
  | .error (.notOwned _ _) => .ok id
  | .error err => .error err

def indexNew (id : Iri) (kind : Kind) : Except StoreError Registry :=
  if (registry.ids[id.text]?).isSome then .error (.alreadyExists id)
  else .ok { registry with ids := registry.ids.insert id.text (.kind kind) }

def indexImported (kind : Kind) (id : Iri) : Except StoreError Registry :=
  match registry.ids[id.text]? with
  | some .aliased => .ok registry
  | some (.kind found) => if found ≠ kind then .error (.wrongKind id kind found) else .ok registry
  | none => registry.indexNew id kind

def aliasUnpublished (kind : Kind) (oldId newId : Iri) : Registry :=
  if oldId = newId then registry
  else
    { registry with
      aliases := (registry.aliases.map fun _ target => if target = oldId then newId else target).insert oldId.text newId
      ids := (registry.ids.insert oldId.text .aliased).insert newId.text (.kind kind) }

def putAgent (agent : AgentRecord) : Registry :=
  { registry with
    agents := registry.agents.insert agent.id.iri.text agent
    filed := by
      intro key found held
      rcases Map.insert_cases held with ⟨same, rfl⟩ | ⟨_, held⟩
      · exact same
      · exact registry.filed key found held }

def deleteAgent (id : AgentId) : Registry :=
  { registry with
    agents := registry.agents.erase id.iri.text
    filed := by
      intro key found held
      rw [Map.getElem?_erase] at held
      split at held
      · cases held
      · exact registry.filed key found held }

def agent? (id : Iri) : Option AgentRecord := registry.agents[id.text]?

def putArea (area : AreaRecord) : Registry :=
  { registry with areas := registry.areas.insert area.areaKey area }

def appendRegistryEvent (event : RegistryEvent) : Registry :=
  let seq := registry.nextAgentEvent + 1
  { registry with
    nextAgentEvent := seq
    events := registry.events.insert seq event
    eventIds := registry.eventIds.insert event.eventId.text seq }

def upsertArea (area : AreaRecord) (eventId : Iri) : Except StoreError Registry := do
  let norm ← invalid area.normalized
  .ok ((registry.putArea norm).appendRegistryEvent
    { eventId, at_ := norm.updatedAt, by_ := norm.by_, kind := .areaUpsert norm })

def deleteArea (areaKey : String) (at_ : At) (by_ : String) (eventId : Iri) : Except StoreError Registry := do
  let key ← slug areaKey
  if (registry.areas[key]?).isNone then .ok registry
  else
    .ok ({ registry with areas := registry.areas.erase key }.appendRegistryEvent
      { eventId, at_, by_, kind := .areaDelete key })

end

def registerAreas (args : RegisterAgentArgs At) (mint : Minted Iri) :
    List String → Registry × List RegistryEvent → Except StoreError (Registry × List RegistryEvent)
  | [], done => .ok done
  | areaKey :: rest, (registry, pending) =>
    if (registry.areas[areaKey]?).isSome then registerAreas args mint rest (registry, pending)
    else if !args.createArea then .error (.noSuchArea areaKey)
    else
      let area := registeredArea areaKey args
      registerAreas args mint rest (registry.putArea area,
        pending ++ [{ eventId := mint.areaEvent areaKey, at_ := args.at_, by_ := args.by_, kind := .areaUpsert area }])

def takeLead (registry : Registry) (args : RegisterAgentArgs At) (mint : Minted Iri) (project nameKey : String) :
    Except StoreError Registry :=
  if args.role ≠ .lead then .ok registry
  else
    match registry.allAgents.find? fun agent =>
        agent.status == .active && agent.project == project && agent.role == .lead && agent.nameKey != nameKey with
    | none => .ok registry
    | some lead =>
      if !args.replace then .error (.leadTaken project lead.displayName lead.id)
      else
        .ok ((registry.putAgent (lead.retired args.at_ args.by_)).appendRegistryEvent
          { eventId := mint.retireEvent, at_ := args.at_, by_ := args.by_, kind := .agentRetire lead.id })

def refuseCollision (existing : Option AgentRecord) (args : RegisterAgentArgs At) (nameKey : String) : Except StoreError Unit :=
  match existing with
  | some agent => if !args.replace then .error (.agentCollision nameKey agent.id agent.status) else .ok ()
  | none => .ok ()

section

variable (registry : Registry)

def registeredId (existing : Option AgentRecord) (mint : Minted Iri) : Except StoreError (Registry × AgentId) :=
  match existing with
  | some agent => .ok (registry, agent.id)
  | none => do
    let indexed ← registry.indexNew mint.agent .agent
    .ok (indexed, ⟨mint.agent⟩)

def registerAgent (args : RegisterAgentArgs At) (mint : Minted Iri) : Except StoreError (Registry × AgentRecord) := do
  let (nameKey, displayName, email) ← (validateAgentIdentity args.displayName args.email).mapError .invalidState
  let project ← slug args.project
  let areas ← args.extraAreas.mapM slug
  let extraAreas := (areas.mergeSort fun a b => (compare a b).isLE).eraseReps
  let (withAreas, pending) ← registerAreas args mint (project :: extraAreas) (registry, [])
  let logged := pending.foldl appendRegistryEvent withAreas
  let existing := (logged.agentByName[nameKey]?).bind fun id => logged.agent? id
  let _ ← refuseCollision existing args nameKey
  let led ← logged.takeLead args mint project nameKey
  let (indexed, id) ← led.registeredId existing mint
  let record : AgentRecord :=
    { id, nameKey, displayName, email, project, role := args.role, extraAreas, status := .active, updatedAt := args.at_,
      by_ := args.by_ }
  let named := { indexed with agentByName := indexed.agentByName.insert nameKey id.iri }
  .ok ((named.putAgent record).appendRegistryEvent
    { eventId := mint.agentEvent, at_ := args.at_, by_ := args.by_, kind := .agentUpsert record }, record)

def retireAgent (label : String) (id : AgentId) (at_ : At) (by_ : String) (eventId : Iri) :
    Except StoreError (Registry × AgentRecord) := do
  let (resolved, kind) ← registry.locate label id.iri
  if kind ≠ .agent then .error (.wrongKind id.iri .agent kind)
  else
    match registry.agent? resolved with
    | none => .error (.noSuchAgent resolved.text)
    | some agent =>
      let record := agent.retired at_ (trim by_)
      .ok ((registry.putAgent record).appendRegistryEvent
        { eventId, at_, by_ := record.by_, kind := .agentRetire ⟨resolved⟩ }, record)

def takeName (agent : AgentRecord) : Registry :=
  match registry.agentByName[agent.nameKey]? with
  | none => registry
  | some existing =>
    if existing = agent.id.iri then registry
    else (registry.aliasUnpublished .agent existing agent.id.iri).deleteAgent ⟨existing⟩

def retireLeads (agent : AgentRecord) : Registry :=
  if agent.role = .lead ∧ agent.status = .active then
    ((registry.allAgents.filter fun other =>
        other.project == agent.project && other.role == .lead && other.status == .active && other.id != agent.id).map
      fun other => { other with status := .retired }).foldl putAgent registry
  else registry

def applyEvent (label : String) (event : RegistryEvent) : Except StoreError Registry :=
  match event.kind with
  | .areaUpsert area => do
    let norm ← invalid area.normalized
    .ok (registry.putArea norm)
  | .agentUpsert agent => do
    let indexed ← ((registry.takeName agent).retireLeads agent).indexImported .agent agent.id.iri
    .ok ({ indexed with agentByName := indexed.agentByName.insert agent.nameKey agent.id.iri }.putAgent agent)
  | .areaDelete areaKey => .ok { registry with areas := registry.areas.erase areaKey }
  | .agentRetire id => do
    let resolved ← registry.resolveIri label id.iri
    match registry.agent? resolved with
    | none => .ok registry
    | some agent => .ok (registry.putAgent (agent.retired event.at_ event.by_))

end

def importEvent (label : String) (registry : Registry) (event : RegistryEvent) : Except StoreError Registry :=
  match registry.eventIds[event.eventId.text]? with
  | some seq =>
    match registry.events[seq]? with
    | none => .error (.decode "agent_event_ids points to missing sequence")
    | some existing =>
      if existing ≠ event then .error (.tampered event.eventId "registry event payload differs from stored copy")
      else .ok registry
  | none => do
    let applied ← registry.applyEvent label event
    .ok (applied.appendRegistryEvent event)

def importRegistryEvents (registry : Registry) (label : String) (events : List RegistryEvent) : Except StoreError Registry :=
  events.foldlM (importEvent label) registry

/-- The logged events numbered above `seq`, in order. -/
def registryEventsAfter (registry : Registry) (seq : Nat) : List (Nat × RegistryEvent) :=
  registry.events.toList.filter fun row => seq < row.1

end Registry

end Inbox

end FerroLoop.Wire

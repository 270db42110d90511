import FerroLoop.FerroState.Ids
import FerroLoop.Workflow.Execution

/-!
Workflow definitions and runs in a store (`crates/store/src/ferrostore/traits_workflow.rs`), and the part of a
state sync that exchanges them with the branch (`crates/exec/src/state_sync.rs`): every file of the branch is
imported where the store's copy differs, and every definition of the store is then written to its file.
-/

namespace FerroLoop.FerroState

open Std Checked
open Workflow (WorkflowDef WorkflowRun WorkflowError validateWorkflowDef)

deriving instance DecidableEq for Workflow.StepDef
deriving instance DecidableEq for Workflow.WorkflowDef
deriving instance DecidableEq for Workflow.WorkflowRun

structure WorkflowStore where
  ids : Ids
  /-- The workflow of a project and a slug. -/
  slugs : ExtTreeMap (List String) Iri compare
  defs : ExtTreeMap Iri WorkflowDef compare
  runs : ExtTreeMap Iri WorkflowRun compare

inductive WorkflowStoreError where
  | id (error : IdError)
  | invalidWorkflow (error : WorkflowError)
  | noSuchWorkflow (id : Iri)
  | historyTampered (file : String)
  | contended
  deriving DecidableEq

def liftWorkflowId {α : Type} (x : Except IdError α) : Except WorkflowStoreError α := x.mapError .id

namespace WorkflowStore

def empty : WorkflowStore := ⟨.empty, ∅, ∅, ∅⟩

def slugKey (project slug : String) : List String := [project, slug]

section

variable (s : WorkflowStore)

def checkProject (project : Iri) : Except WorkflowStoreError Iri := do
  let (primary, kind) ← liftWorkflowId (s.ids.locate project)
  refuseIf (kind ≠ .project) (.id (.wrongKind project .project kind))
  return primary

def validate (flow : WorkflowDef) : Except WorkflowStoreError Unit :=
  (validateWorkflowDef flow).mapError .invalidWorkflow

def freeSlug (slugs : ExtTreeMap (List String) Iri compare) (prev : Option WorkflowDef) (project slug : String) :
    ExtTreeMap (List String) Iri compare :=
  match prev with
  | some prev => if prev.project ≠ project ∨ prev.slug ≠ slug then slugs.erase (slugKey prev.project prev.slug) else slugs
  | none => slugs

def putDef (flow : WorkflowDef) : WorkflowStore :=
  { s with
    slugs := (freeSlug s.slugs s.defs[flow.id]? flow.project flow.slug).insert (slugKey flow.project flow.slug) flow.id
    defs := s.defs.insert flow.id flow }

/-- `upsert_workflow_def`: a slug that is taken names the workflow that is edited. -/
def upsertWorkflowDef (flow : WorkflowDef) : Except WorkflowStoreError (WorkflowStore × WorkflowDef) := do
  validate flow
  let project ← s.checkProject flow.project
  match s.slugs[slugKey project flow.slug]? with
  | some existing => do
    let id ← liftWorkflowId (s.ids.resolve existing)
    let flow := { flow with id, project }
    return ({ s with defs := s.defs.insert id flow }, flow)
  | none => do
    let id ← liftWorkflowId (s.ids.resolveIfKind flow.id .workflow)
    let ids ← liftWorkflowId (s.ids.indexImported .workflow id)
    let flow := { flow with id, project }
    return ({ s with ids }.putDef flow, flow)

def getWorkflowDef (id : Iri) : Except WorkflowStoreError (Option WorkflowDef) := do
  let id ← liftWorkflowId (s.ids.resolveIfKind id .workflow)
  return s.defs[id]?

/-- `list_workflow_defs`: by project and slug. -/
def listWorkflowDefs : List WorkflowDef :=
  (s.defs.toList.map Prod.snd).mergeSort fun a b => a.project < b.project ∨ (a.project = b.project ∧ a.slug ≤ b.slug)

/-- `workflow_runs_retargeted`. -/
def retarget (runs : ExtTreeMap Iri WorkflowRun compare) (source target : Iri) : ExtTreeMap Iri WorkflowRun compare :=
  runs.map fun _ run => if run.workflowId = source then { run with workflowId := target } else run

def giveWay (project slug id : String) : WorkflowStore :=
  match s.slugs[slugKey project slug]? with
  | some existing =>
    if existing = id then s
    else
      { s with
        ids := s.ids.aliasUnpublished .workflow existing id
        defs := s.defs.erase existing
        runs := retarget s.runs existing id }
  | none => s

/-- `import_workflow_def`. -/
def importWorkflowDef (flow : WorkflowDef) : Except WorkflowStoreError WorkflowStore := do
  validate flow
  let project ← liftWorkflowId (s.ids.resolveIfKind flow.project .project)
  let id ← liftWorkflowId (s.ids.resolveIfKind flow.id .workflow)
  let s := s.giveWay project flow.slug id
  let ids ← liftWorkflowId (s.ids.indexImported .workflow id)
  return { s with ids }.putDef { flow with id, project }

def getWorkflowRun (id : Iri) : Except WorkflowStoreError (Option WorkflowRun) := do
  let id ← liftWorkflowId (s.ids.resolveIfKind id .workflowRun)
  return s.runs[id]?

/-- `import_workflow_run`. -/
def importWorkflowRun (run : WorkflowRun) : Except WorkflowStoreError WorkflowStore := do
  let project ← liftWorkflowId (s.ids.resolveIfKind run.project .project)
  let workflowId ← liftWorkflowId (s.ids.resolveIfKind run.workflowId .workflow)
  refuseIf (s.defs[workflowId]?).isNone (.noSuchWorkflow run.workflowId)
  let id ← liftWorkflowId (s.ids.resolveIfKind run.id .workflowRun)
  let ids ← liftWorkflowId (s.ids.indexImported .workflowRun id)
  return { s with ids, runs := s.runs.insert id { run with id, project, workflowId } }

end

end WorkflowStore

structure BranchWorkflows where
  workflows : ExtTreeMap String WorkflowDef compare
  workflowRuns : ExtTreeMap String WorkflowRun compare

def newerRun (run held : WorkflowRun) : Bool :=
  held.totalStepsExecuted < run.totalStepsExecuted ∨
    (held.totalStepsExecuted = run.totalStepsExecuted ∧ held.updatedAt < run.updatedAt)

section Sync

variable (workflowIdHash : Iri → String)

def fileName (id : Iri) : String := workflowIdHash id ++ ".json"

/-- `load_snapshot`: every file is named after the id in it. -/
def checkNames (base : BranchWorkflows) : Except WorkflowStoreError Unit := do
  base.workflows.toList.forM fun file => refuseIf (file.1 ≠ fileName workflowIdHash file.2.id) (.historyTampered file.1)
  base.workflowRuns.toList.forM fun file => refuseIf (file.1 ≠ fileName workflowIdHash file.2.id) (.historyTampered file.1)

def takeDef (s : WorkflowStore) (flow : WorkflowDef) : Except WorkflowStoreError WorkflowStore := do
  let held ← s.getWorkflowDef flow.id
  if held = some flow then return s else s.importWorkflowDef flow

def takeRun (s : WorkflowStore) (run : WorkflowRun) : Except WorkflowStoreError WorkflowStore := do
  let held ← s.getWorkflowRun run.id
  if held.all fun own => own ≠ run ∧ newerRun run own then s.importWorkflowRun run else return s

def publishWorkflows (s : WorkflowStore) (base : BranchWorkflows) : BranchWorkflows where
  workflows := s.listWorkflowDefs.foldl (fun files flow => files.insert (fileName workflowIdHash flow.id) flow) base.workflows
  workflowRuns := (s.runs.toList.map Prod.snd).foldl
    (fun files run => files.insert (fileName workflowIdHash run.id) run) base.workflowRuns

def syncAttempt (s : WorkflowStore) (base : BranchWorkflows) : Except WorkflowStoreError (WorkflowStore × BranchWorkflows) := do
  checkNames workflowIdHash base
  let s ← (base.workflows.toList.map Prod.snd).foldlM takeDef s
  let s ← (base.workflowRuns.toList.map Prod.snd).foldlM takeRun s
  return (s, publishWorkflows workflowIdHash s base)

def syncWorkflows : WorkflowStore → List BranchWorkflows → Except WorkflowStoreError (WorkflowStore × BranchWorkflows)
  | _, [] => .error .contended
  | s, [base] => syncAttempt workflowIdHash s base
  | s, base :: rest => do
    let (s, _) ← syncAttempt workflowIdHash s base
    syncWorkflows s rest

end Sync

end FerroLoop.FerroState

import FerroLoop.Workflow.FanOut
import FerroLoop.Lib.Machine

namespace FerroLoop.Workflow

open Checked List

def reportStep (flow : WorkflowDef) (run : WorkflowRun) (event : StepAttemptReport × At) :
    WorkflowRun × Except Stop Unit :=
  match advanceWorkflow flow run event.1 event.2 with
  | .ok next => (next, .ok ())
  | .error stop => (run, .error stop)

structure Placed (flow : WorkflowDef) (run : WorkflowRun) : Prop where
  covers : Covers flow run
  distinct : run.activeSteps.Nodup
  known : ∀ stepId ∈ run.activeSteps, stepId ∈ flow.stepIds

structure Fresh (flow : WorkflowDef) (steps : BTreeMap String StepInstance) (stepDefs : List StepDef) : Prop where
  made : ∀ stepId ∈ stepDefs.map (·.stepId), ∃ step, steps[stepId]? = some step
  new : ∀ (stepId : String) (step : StepInstance), steps[stepId]? = some step → ∃ stepDef, step = newInstance flow stepDef

theorem Fresh.insert {flow : WorkflowDef} {steps : BTreeMap String StepInstance} {before : List StepDef}
    (fresh : Fresh flow steps before) (stepDef : StepDef) :
    Fresh flow (steps.insert stepDef.stepId (newInstance flow stepDef)) (before ++ [stepDef]) := by
  constructor
  · intro stepId member
    rw [Map.getElem?_insert]
    split
    · exact ⟨_, rfl⟩
    rename_i other
    apply fresh.made
    rw [map_append, mem_append] at member
    rcases member with earlier | last
    · exact earlier
    · rw [map_singleton, mem_singleton] at last
      exact absurd last.symm other
  · intro stepId step held
    rcases Map.insert_cases held with ⟨_, rfl⟩ | ⟨_, held⟩
    · exact ⟨stepDef, rfl⟩
    · exact fresh.new stepId step held

theorem newSteps_fresh (flow : WorkflowDef) : Fresh flow (newSteps flow) flow.steps := by
  have built : ∀ (rest before : List StepDef) (steps : BTreeMap String StepInstance), Fresh flow steps before →
      Fresh flow (rest.foldl (fun steps stepDef => steps.insert stepDef.stepId (newInstance flow stepDef)) steps)
        (before ++ rest) := by
    intro rest
    induction rest with
    | nil =>
      intro before steps fresh
      rw [append_nil]
      exact fresh
    | cons stepDef rest ih =>
      intro before steps fresh
      rw [foldl_cons, append_cons]
      exact ih _ _ (fresh.insert stepDef)
  refine built flow.steps [] ∅ ⟨fun _ member => (nomatch member), ?_⟩
  intro stepId step held
  cases held

theorem newSteps_isIn {flow : WorkflowDef} {stepId : String} {state : State} (other : state ≠ .todo) :
    (newSteps flow)[stepId]?.any (fun step => step.state == state) = false := by
  rcases held : (newSteps flow)[stepId]? with _ | step
  · rfl
  obtain ⟨stepDef, same⟩ := (newSteps_fresh flow).new stepId step held
  subst same
  simpa [newInstance] using Ne.symm other

structure Started (flow : WorkflowDef) (run : WorkflowRun) : Prop where
  formed : WellFormed flow
  status : run.status = .running
  activeSteps : run.activeSteps = [flow.startStep]
  steps : run.steps = newSteps flow

variable {run : WorkflowRun}

theorem new_started {id : WorkflowRunId} {flow : WorkflowDef} {title author : String} {at_ : At}
    (made : WorkflowRun.new id flow title at_ author = .ok run) : Started flow run := by
  obtain ⟨_, accepted, made⟩ := bind_ok made
  obtain ⟨_, _, made⟩ := bind_ok made
  cases made
  exact ⟨validateWorkflowDef_ok accepted, rfl, rfl, rfl⟩

theorem Started.placed {flow : WorkflowDef} {run : WorkflowRun} (started : Started flow run) : Placed flow run := by
  refine ⟨?_, ?_, ?_⟩
  · intro stepId member
    rw [started.steps]
    exact (newSteps_fresh flow).made stepId member
  · rw [started.activeSteps]
    exact pairwise_singleton _ _
  · intro stepId member
    rw [started.activeSteps, mem_singleton] at member
    rw [member]
    exact started.formed.start

/-! ### Every report keeps the active steps in place -/

variable {outcome : StepOutcome}

section Kept

variable {flow : WorkflowDef} {run : WorkflowRun} {step : StepInstance} {report : StepAttemptReport} {at_ : At}

theorem opened_openable (stepId : String) (outcome : StepOutcome) :
    Openable flow run stepId (opened flow run stepId outcome) :=
  openedBy_openable openable_nil _

theorem left_openable :
    Openable flow (left run step report at_ outcome) report.stepId (opened flow run report.stepId outcome) := by
  have before : Openable flow run report.stepId (opened flow run report.stepId outcome) := opened_openable _ _
  refine ⟨before.distinct, before.known, ?_⟩
  intro target member
  rcases before.idle target member with itself | absent
  · exact .inl itself
  right
  rw [left_activeSteps]
  intro inside
  exact absent (mem_filter.mp inside).1

section

variable (placed : Placed flow run)

include placed

theorem left_placed :
    Placed flow (left run step report at_ outcome) := by
  refine ⟨left_covers placed.covers, ?_, ?_⟩
  · rw [left_activeSteps]
    exact placed.distinct.sublist filter_sublist
  · intro stepId member
    rw [left_activeSteps] at member
    exact placed.known stepId (mem_filter.mp member).1

theorem openAll_placed {reporter : String} {targets : List String} (absent : reporter ∉ run.activeSteps)
    (openable : Openable flow run reporter targets) :
    Placed flow (openAll flow run targets) := by
  refine ⟨openAll_covers targets placed.covers, ?_, ?_⟩
  · rw [openAll_activeSteps placed.covers openable.known, nodup_append]
    refine ⟨placed.distinct, openable.distinct, ?_⟩
    intro a here b there same
    subst same
    rcases openable.idle a there with itself | idle
    · exact absent (itself ▸ here)
    · exact idle here
  · intro stepId member
    rw [openAll_activeSteps placed.covers openable.known] at member
    exact (mem_append.mp member).elim (placed.known stepId) (openable.known stepId)

theorem prune_placed : Placed flow (prune flow run) :=
  ⟨placed.covers, placed.distinct.sublist filter_sublist,
    fun stepId member => placed.known stepId (mem_filter.mp member).1⟩

theorem complete_placed : Placed flow (complete run) := by
  unfold complete
  split
  · exact ⟨placed.covers, placed.distinct, placed.known⟩
  · exact placed

theorem exit_placed {stepDef : StepDef} : Placed flow (exit flow run stepDef step report at_) := by
  unfold exit
  split
  · exact ⟨covers_written placed.covers (hold_steps _), placed.distinct, placed.known⟩
  · exact ⟨covers_written placed.covers (retry_steps _), placed.distinct, placed.known⟩
  rename_i outcome _
  have gone : Placed flow (left run step report at_ outcome) := left_placed placed
  have grown := openAll_placed gone left_absent left_openable
  unfold arrive
  dsimp only
  split
  · split
    · exact ⟨gone.covers, gone.distinct, gone.known⟩
    · exact gone
  split
  · exact complete_placed (prune_placed grown)
  · exact grown

end

end Kept

theorem reportStep_cases {flow : WorkflowDef} (formed : WellFormed flow) (covers : Covers flow run)
    (event : StepAttemptReport × At) :
    ((reportStep flow run event).1 = run ∧ ∀ stepDef step, ¬ Accepts flow run event.1 stepDef step) ∨
      ∃ stepDef step, Accepts flow run event.1 stepDef step ∧
        (reportStep flow run event).1 = exit flow run stepDef step event.1 event.2 := by
  unfold reportStep
  cases advanced : advanceWorkflow flow run event.1 event.2 with
  | error stop =>
    left
    refine ⟨rfl, ?_⟩
    intro stepDef step accepts
    rw [advanceWorkflow_eq formed covers accepts] at advanced
    cases advanced
  | ok next =>
    right
    obtain ⟨stepDef, step, accepts, _⟩ := advanceWorkflow_accepts advanced
    rw [advanceWorkflow_eq formed covers accepts] at advanced
    cases advanced
    exact ⟨stepDef, step, accepts, rfl⟩

theorem reportStep_placed {flow : WorkflowDef} (formed : WellFormed flow) (run : WorkflowRun)
    (event : StepAttemptReport × At) (placed : Placed flow run) : Placed flow (reportStep flow run event).1 := by
  rcases reportStep_cases formed placed.covers event with ⟨same, _⟩ | ⟨stepDef, step, _, left⟩
  · rw [same]
    exact placed
  · rw [left]
    exact exit_placed placed

/-- The outcome with which an accepted report takes its step out of the active ones; none for a
report that is refused, held or tried again. -/
def leavesWith (flow : WorkflowDef) (run : WorkflowRun) (report : StepAttemptReport) (at_ : At) : Option StepOutcome :=
  if run.status.isTerminal ∨ report.stepId ∉ run.activeSteps then none
  else match flow.findStep report.stepId, run.steps[report.stepId]? with
    | some stepDef, some step =>
      match routeOf flow run stepDef step report at_ with
      | .leave outcome => some outcome
      | .hold _ | .retry => none
    | _, _ => none

theorem leavesWith_eq {flow : WorkflowDef} {report : StepAttemptReport} {stepDef : StepDef}
    {step : StepInstance} (accepts : Accepts flow run report stepDef step) (at_ : At) :
    leavesWith flow run report at_ =
      match routeOf flow run stepDef step report at_ with
      | .leave outcome => some outcome
      | .hold _ | .retry => none := by
  unfold leavesWith
  rw [accepts.unfinished, accepts.found, accepts.held]
  simp [accepts.active]

theorem leavesWith_accepts {flow : WorkflowDef} {report : StepAttemptReport} {at_ : At}
    (leaves : leavesWith flow run report at_ = some outcome) :
    ∃ stepDef step, Accepts flow run report stepDef step ∧ routeOf flow run stepDef step report at_ = .leave outcome := by
  unfold leavesWith at leaves
  split at leaves
  · cases leaves
  rename_i going
  obtain ⟨unfinished, active⟩ := not_or.mp going
  split at leaves
  · rename_i stepDef step found held
    split at leaves
    · rename_i way
      cases leaves
      exact ⟨stepDef, step, ⟨by simpa using unfinished, found, Decidable.not_not.mp active, held⟩, way⟩
    · cases leaves
    · cases leaves
  · cases leaves

namespace Sample

def stepDef (stepId : String) (completion : StepCompletion) (joinPolicy : JoinPolicy) : StepDef where
  stepId := stepId
  title := stepId
  prompt := ""
  assignee := .manual
  reviewsStep := none
  requireDifferentVendor := false
  completion := completion
  joinPolicy := joinPolicy
  maxAttempts := 1
  maxVisits := 5
  budgetUsdMicros := none
  maxTokens := none
  isolateWorktree := false

def edge (fromStep toStep : String) (on : EdgeCondition) : EdgeDef :=
  { fromStep, toStep, on }

def flow (startStep : String) (steps : List StepDef) (edges : List EdgeDef) : WorkflowDef where
  id := "urn:workflow:1"
  project := "urn:project:1"
  slug := "sample"
  title := "Sample"
  startStep := startStep
  steps := steps
  edges := edges
  maxTotalSteps := 64
  budgetUsdMicros := none
  maxTokens := none
  declaredKeys := ∅
  authoredAtCommit := ""
  authoredBy := "owner"

def started (flow : WorkflowDef) : WorkflowRun where
  id := "urn:run:1"
  workflowId := flow.id
  project := flow.project
  title := "Run"
  status := .running
  activeSteps := [flow.startStep]
  steps := newSteps flow
  totalStepsExecuted := 0
  totalTokens := 0
  totalCostUsdMicros := 0
  createdAt := "1970-01-01T00:00:00.000Z"
  updatedAt := "1970-01-01T00:00:00.000Z"
  author := "owner"

def report (stepId : String) (outcome : StepOutcome) : StepAttemptReport × At :=
  ({ stepId, outcome, attemptIri := some "urn:attempt:1", tokensUsed := 0, costUsdMicros := 0, reason := none },
    "1970-01-01T00:00:00.000Z")

end Sample

end FerroLoop.Workflow

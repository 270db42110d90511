import FerroLoop.Workflow.Runs

namespace FerroLoop.Workflow

open Machine List Sample

def Live (run : WorkflowRun) : Prop :=
  run.status = .running → run.activeSteps ≠ []

def LeadsOn (flow : WorkflowDef) (run : WorkflowRun) (reporter : String) (edge : EdgeDef) : Prop :=
  edge.toStep = endStep ∨
    ∃ targetDef, flow.findStep edge.toStep = some targetDef ∧
      joinSatisfied flow run reporter (visitsOf run reporter) edge targetDef

/-- The report takes the only active step out and none of the edges it matches leads on; a
failure that matches no edge at all ends the run instead. -/
def LeavesNothing (flow : WorkflowDef) (run : WorkflowRun) (report : StepAttemptReport) (at_ : At) : Prop :=
  ∃ outcome, leavesWith flow run report at_ = some outcome ∧ (∀ stepId ∈ run.activeSteps, stepId = report.stepId) ∧
    (∀ edge ∈ matchingEdges flow report.stepId outcome, ¬ LeadsOn flow run report.stepId edge) ∧
    ¬ (outcome = .fail ∧ matchingEdges flow report.stepId outcome = [])

section Exits

variable {flow : WorkflowDef} {run : WorkflowRun} {stepDef : StepDef} {step : StepInstance} {report : StepAttemptReport}
  {at_ : At} {outcome : StepOutcome}

theorem openedBy_nil_iff {reporter : String} {visitCount : UInt32} (edges : List EdgeDef) :
    openedBy flow run reporter visitCount edges [] = [] ↔
      ∀ edge ∈ edges, opensEdge flow run reporter visitCount [] edge = false := by
  have grows : ∀ (edges : List EdgeDef) (before : List String),
      before.length ≤ (openedBy flow run reporter visitCount edges before).length := by
    intro edges
    induction edges with
    | nil => intro before; exact Nat.le_refl _
    | cons edge rest ih =>
      intro before
      rw [openedBy]
      have tail := ih (if opensEdge flow run reporter visitCount before edge then before ++ [edge.toStep] else before)
      split at tail
      · rename_i opens
        rw [if_pos opens]
        rw [length_append] at tail
        omega
      · rename_i opens
        rw [if_neg opens]
        exact tail
  induction edges with
  | nil => simp [openedBy]
  | cons edge rest ih =>
    rw [openedBy, forall_mem_cons]
    rcases opens : opensEdge flow run reporter visitCount [] edge with _ | _
    · simpa using ih
    have more := grows rest [edge.toStep]
    simp only [if_true, nil_append, Bool.true_eq_false, false_and, iff_false]
    intro none
    rw [none] at more
    simp at more

theorem opensEdge_iff (alone : ∀ stepId ∈ run.activeSteps, stepId = report.stepId) (edge : EdgeDef) :
    opensEdge flow run report.stepId (visitsOf run report.stepId) [] edge ↔
      edge.toStep ≠ endStep ∧ ∃ targetDef, flow.findStep edge.toStep = some targetDef ∧
        joinSatisfied flow run report.stepId (visitsOf run report.stepId) edge targetDef := by
  have idle : edge.toStep = report.stepId ∨ edge.toStep ∉ run.activeSteps := by
    by_cases same : edge.toStep = report.stepId
    · exact .inl same
    · exact .inr fun inside => same (alone edge.toStep inside)
  simp [opensEdge, joinSatisfied, idle, Option.any_eq_true]

theorem left_status (unfinished : run.status.isTerminal = false)
    (empty : (left run step report at_ outcome).activeSteps = []) : (left run step report at_ outcome).status = .running := by
  rw [left_activeSteps] at empty
  unfold left leave refreshStatus
  simp only [deactivate, charge, empty, any_nil, Bool.false_eq_true, not_false_eq_true, and_true]
  split
  · rfl
  rename_i calm
  cases same : run.status with
  | running => rfl
  | needsHuman => exact absurd same calm
  | completed | failed | canceled => rw [same] at unfinished; cases unfinished

theorem left_empty : (left run step report at_ outcome).activeSteps = [] ↔ ∀ stepId ∈ run.activeSteps, stepId = report.stepId := by
  rw [left_activeSteps, filter_eq_nil_iff]
  simp

theorem openAll_live {targets : List String} (covers : Covers flow run) (openable : Openable flow run report.stepId targets)
    (runs : run.activeSteps = [] → run.status = .running) :
    Live (openAll flow run targets) ↔ ¬ (run.activeSteps = [] ∧ targets = []) := by
  unfold Live
  rw [openAll_activeSteps covers openable.known, openAll_status openable.distinct]
  constructor
  · rintro live ⟨empty, none⟩
    subst none
    exact live (by simpa using runs empty) (by simpa using empty)
  · intro some _ empty
    exact some (append_eq_nil_iff.mp empty)

theorem complete_live (run : WorkflowRun) : Live (complete run) := by
  unfold complete Live
  split
  · intro runs
    cases runs
  · rename_i going
    intro runs empty
    exact going ⟨empty, runs⟩

theorem exit_live (placed : Placed flow run) (accepts : Accepts flow run report stepDef step) :
    Live (exit flow run stepDef step report at_) ↔ ¬ LeavesNothing flow run report at_ := by
  unfold exit LeavesNothing
  rw [leavesWith_eq accepts at_]
  cases way : routeOf flow run stepDef step report at_ with
  | hold reason =>
    simp only [reduceCtorEq, false_and, exists_false, not_false_eq_true, iff_true]
    intro runs
    cases runs
  | retry =>
    simp only [reduceCtorEq, false_and, exists_false, not_false_eq_true, iff_true]
    intro _ empty
    have active : report.stepId ∈ run.activeSteps := accepts.active
    rw [show run.activeSteps = [] from empty] at active
    cases active
  | leave outcome =>
    simp only [Option.some.injEq, exists_eq_left']
    have runs : (left run step report at_ outcome).activeSteps = [] → (left run step report at_ outcome).status = .running :=
      left_status accepts.unfinished
    have alone : (left run step report at_ outcome).activeSteps = [] ↔ ∀ stepId ∈ run.activeSteps, stepId = report.stepId :=
      left_empty
    have grown := openAll_live (left_covers placed.covers) left_openable runs
    unfold arrive
    dsimp only
    split
    · rename_i none
      simp only [none, not_mem_nil, false_implies, implies_true, true_and, and_true]
      rw [← alone]
      split
      · rename_i ended
        simp only [ended.1, not_true, and_false, not_false_eq_true, iff_true]
        intro finished
        cases finished
      · rename_i going
        constructor
        · rintro live ⟨empty, _⟩
          exact live (runs empty) empty
        · intro some _ empty
          exact some ⟨empty, fun failed => going ⟨failed, empty⟩⟩
    · rename_i some
      simp only [some, and_false, not_false_eq_true, and_true]
      split
      · rename_i ended
        refine ⟨fun _ => ?_, fun _ => complete_live _⟩
        rintro ⟨_, nowhere⟩
        obtain ⟨edge, member, last⟩ := any_eq_true.mp ended
        exact nowhere edge member (.inl (by simpa using last))
      · rename_i short
        rw [grown, left_empty]
        refine not_congr (and_congr_right fun alone => ?_)
        rw [opened, openedBy_nil_iff]
        refine forall_congr' fun edge => forall_congr' fun member => ?_
        have onward : edge.toStep ≠ endStep := by
          intro last
          exact short (any_eq_true.mpr ⟨edge, member, by simpa using last⟩)
        rw [← Bool.not_eq_true, opensEdge_iff alone]
        simp [LeadsOn, onward]

end Exits

theorem reportStep_live {flow : WorkflowDef} (formed : WellFormed flow) (run : WorkflowRun)
    (event : StepAttemptReport × At) (placed : Placed flow run) (live : Live run) :
    Live (reportStep flow run event).1 ↔ ¬ LeavesNothing flow run event.1 event.2 := by
  rcases reportStep_cases formed placed.covers event with ⟨same, refused⟩ | ⟨stepDef, step, accepts, left⟩
  · rw [same]
    refine ⟨fun _ => ?_, fun _ => live⟩
    rintro ⟨outcome, leaves, _⟩
    obtain ⟨stepDef, step, accepts, _⟩ := leavesWith_accepts leaves
    exact refused stepDef step accepts
  · rw [left]
    exact exit_live placed accepts

/-- Every state of a run has an active step while it is running, if and only if no report takes
the only active step out with nowhere to go. -/
theorem running_has_active_iff {id : WorkflowRunId} {flow : WorkflowDef} {title author : String} {at_ : At}
    {start : WorkflowRun} (made : WorkflowRun.new id flow title at_ author = .ok start)
    (events : List (StepAttemptReport × At)) :
    (∀ past, past <+: events → Live (run (reportStep flow) start past)) ↔
      Machine.Throughout (reportStep flow) (fun run event => ¬ LeavesNothing flow run event.1 event.2) start events := by
  have started := new_started made
  have live : Live start := by
    intro _
    rw [started.activeSteps]
    exact cons_ne_nil _ _
  exact prefixes_iff (reportStep_placed started.formed)
    (fun run event placed live => reportStep_live started.formed run event placed live) started.placed live events

namespace Sample

def joined : WorkflowDef :=
  flow "plan"
    [stepDef "plan" .ungated .all, stepDef "build" .ungated .all, stepDef "check" .ungated .all,
      stepDef "ship" .ungated .all]
    [edge "plan" "build" .pass, edge "plan" "check" .pass, edge "build" "ship" .pass, edge "check" "ship" .pass,
      edge "ship" endStep .pass]

end Sample

theorem running_has_active_iff_sample :
    Live (run (reportStep joined) (started joined) [report "plan" .pass]) := by
  have made : WorkflowRun.new "urn:run:1" joined "Run" "1970-01-01T00:00:00.000Z" "owner" =
      .ok (started joined) := rfl
  refine (running_has_active_iff made [report "plan" .pass]).mpr ⟨?_, trivial⟩ _ (prefix_refl _)
  rintro ⟨outcome, leaves, _, nowhere, _⟩
  have passed : some StepOutcome.pass = some outcome := leaves
  cases passed
  refine nowhere (edge "plan" "build" .pass) (by decide) (Or.inr ⟨stepDef "build" .ungated .all, rfl, ?_⟩)
  decide

/-- One branch fails first and the other passes: the join never opens, nothing is active, and
the run stays running. -/
theorem failed_branch_strands :
    WorkflowRun.new "urn:run:1" joined "Run" "1970-01-01T00:00:00.000Z" "owner" =
        .ok (started joined) ∧
      (trace (reportStep joined) (started joined)
        [report "plan" .pass, report "build" .fail, report "check" .pass]).all
          (fun entry => entry.2.isOk) ∧
      ¬ Live (run (reportStep joined) (started joined)
        [report "plan" .pass, report "build" .fail, report "check" .pass]) := by
  refine ⟨rfl, by decide, ?_⟩
  intro live
  exact live (by decide) (by decide)

end FerroLoop.Workflow

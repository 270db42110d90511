import FerroLoop.Workflow.Runs

namespace FerroLoop.Workflow

open Checked Machine List Sample

def Agrees (run : WorkflowRun) : Prop :=
  run.status = .needsHuman ↔ ∃ stepId ∈ run.activeSteps, isIn run stepId .needsHuman

structure Consistent (flow : WorkflowDef) (run : WorkflowRun) : Prop where
  agrees : run.status.isTerminal = false → Agrees run
  distinct : run.status.isTerminal = false → run.activeSteps.Nodup
  known : run.status.isTerminal = false → ∀ stepId ∈ run.activeSteps, stepId ∈ flow.stepIds

/-! ### The steps that wait when a report reaches the end -/

section

variable (flow : WorkflowDef) (run : WorkflowRun) (reporter : String) (outcome : StepOutcome)

/-- The step waits for a human once the report's edges have been followed: it did before, or it
is opened once too often. -/
def WaitsAfter (stepId : String) : Prop :=
  (stepId ∈ run.activeSteps ∧ stepId ≠ reporter ∧ isIn run stepId .needsHuman) ∨
    (stepId ∈ opened flow run reporter outcome ∧ overVisits flow run stepId)

/-- The edge leads into a join that does not wait for all, is done with the report and is not
opened by it. -/
def PassedAfter (edge : EdgeDef) : Prop :=
  edge.toStep ≠ endStep ∧ (∃ step ∈ flow.steps, step.stepId = edge.toStep ∧ step.joinPolicy.isEarly) ∧
    edge.toStep ∉ opened flow run reporter outcome ∧ 0 < visitsOf run edge.toStep ∧
    (if edge.toStep = reporter then outcome = .pass else isIn run edge.toStep .done)

def BypassedAfter (stepId : String) : Prop :=
  outgoing flow stepId ≠ [] ∧ ∀ edge ∈ outgoing flow stepId, PassedAfter flow run reporter outcome edge

end

/-- The report reaches the end while steps wait for a human, and every one of these only feeds
joins that have been passed. -/
def DropsWaiting (flow : WorkflowDef) (run : WorkflowRun) (report : StepAttemptReport) (at_ : At) : Prop :=
  ∃ outcome, leavesWith flow run report at_ = some outcome ∧ leadsToEnd (matchingEdges flow report.stepId outcome) ∧
    (∃ stepId, WaitsAfter flow run report.stepId outcome stepId) ∧
    ∀ stepId, WaitsAfter flow run report.stepId outcome stepId → BypassedAfter flow run report.stepId outcome stepId

section Exits

variable {flow : WorkflowDef} {run : WorkflowRun} {stepDef : StepDef} {step : StepInstance} {report : StepAttemptReport}
  {at_ : At} {outcome : StepOutcome}

theorem hold_agrees (accepts : Accepts flow run report stepDef step) (reason : Option String) :
    Agrees (hold (charge run step report at_) report.stepId (chargeStep step report) reason) := by
  refine ⟨fun _ => ⟨report.stepId, accepts.active, ?_⟩, fun _ => rfl⟩
  rw [isIn, hold_steps, if_pos rfl]
  rfl

theorem retry_isIn {state : State} (other : state ≠ .todo) (reason : Option String) (stepId : String) :
    isIn (retry (charge run step report at_) report.stepId (chargeStep step report) reason) stepId state =
      (decide (stepId ≠ report.stepId) && isIn run stepId state) := by
  unfold isIn
  rw [retry_steps]
  split
  · rename_i same
    subst same
    simpa [retriedStep] using Ne.symm other
  · rename_i different
    simp [Ne.symm different]

theorem retry_agrees (accepts : Accepts flow run report stepDef step) (agrees : Agrees run)
    (working : step.state ≠ .needsHuman) (reason : Option String) :
    Agrees (retry (charge run step report at_) report.stepId (chargeStep step report) reason) := by
  have same : run.status = .needsHuman ↔ ∃ stepId ∈ run.activeSteps, isIn run stepId .needsHuman := agrees
  show run.status = .needsHuman ↔ ∃ stepId ∈ run.activeSteps, _
  rw [same]
  refine exists_congr fun stepId => and_congr_right fun _ => ?_
  rw [retry_isIn State.noConfusion, Bool.and_eq_true, decide_eq_true_eq]
  constructor
  · intro waits
    refine ⟨?_, waits⟩
    intro itself
    rw [itself] at waits
    simp [isIn, accepts.held, working] at waits
  · intro waits
    exact waits.2

theorem route_retry {charged : WorkflowRun} {chargedStep : StepInstance} {waiting : Bool}
    (way : route flow stepDef charged chargedStep waiting report = .retry) : waiting = false := by
  unfold route at way
  split at way
  · cases way
  split at way
  · rename_i tried
    simp only [Bool.and_eq_true, Bool.not_eq_true'] at tried
    exact tried.1.1
  dsimp only at way
  split at way
  · cases way
  · cases way

theorem left_unfinished (unfinished : run.status.isTerminal = false) :
    (left run step report at_ outcome).status.isTerminal = false := by
  unfold left leave refreshStatus
  split
  · rfl
  · exact unfinished

theorem left_agrees (agrees : Agrees run) : Agrees (left run step report at_ outcome) := by
  generalize gone : deactivate (charge run step report at_) report.stepId
    (settledStep (chargeStep step report) outcome report.reason) = base
  have status : base.status = run.status := by
    rw [← gone]
    rfl
  have waiting : ∀ stepId ∈ base.activeSteps, isIn base stepId .needsHuman = isIn run stepId .needsHuman := by
    intro stepId member
    rw [← gone] at member
    have other : stepId ≠ report.stepId := by simpa using (mem_filter.mp member).2
    rw [← gone]
    simp [isIn, deactivate, charge, Map.getElem?_insert, Ne.symm other]
  have inside : ∀ stepId ∈ base.activeSteps, stepId ∈ run.activeSteps := by
    intro stepId member
    rw [← gone] at member
    exact (mem_filter.mp member).1
  have shape : left run step report at_ outcome = refreshStatus base := by
    rw [← gone]
    rfl
  rw [shape]
  unfold refreshStatus
  split
  · rename_i cleared
    constructor
    · intro waits
      cases waits
    · rintro ⟨stepId, member, waits⟩
      exact absurd (any_eq_true.mpr ⟨stepId, member, waits⟩) cleared.2
  · rename_i kept
    constructor
    · intro waits
      by_cases some : base.activeSteps.any fun stepId => isIn base stepId .needsHuman
      · exact any_eq_true.mp some
      · exact absurd ⟨waits, some⟩ kept
    · rintro ⟨stepId, member, waits⟩
      rw [waiting stepId member] at waits
      rw [status]
      exact agrees.mpr ⟨stepId, inside stepId member, waits⟩

theorem visited_waits {stepId : String} {visitedFrom : StepInstance} (held : run.steps[stepId]? = some visitedFrom)
    (member : stepId ∈ flow.stepIds) :
    ((visited flow stepId visitedFrom).state == .needsHuman) = overVisits flow run stepId := by
  obtain ⟨targetDef, found⟩ := findStep_isSome member
  simp only [visited, overVisits, found, held, visitedStep]
  split
  · rename_i exceeded
    simp [exceeded]
  · rename_i exceeded
    simp [exceeded]

variable {reporter : String} {targets : List String}

theorem openAll_waits (covers : Covers flow run)
    (openable : Openable flow run reporter targets) (stepId : String) :
    isIn (openAll flow run targets) stepId .needsHuman =
      if stepId ∈ targets then overVisits flow run stepId else isIn run stepId .needsHuman := by
  unfold isIn
  rw [openAll_steps openable.distinct]
  split
  · rename_i member
    obtain ⟨before, held⟩ := covers stepId (openable.known stepId member)
    rw [held]
    exact visited_waits held (openable.known stepId member)
  · rfl

theorem openAll_agrees (covers : Covers flow run)
    (absent : reporter ∉ run.activeSteps) (openable : Openable flow run reporter targets) (agrees : Agrees run) :
    Agrees (openAll flow run targets) := by
  have active := openAll_activeSteps covers openable.known
  have idle : ∀ stepId ∈ run.activeSteps, stepId ∉ targets := by
    intro stepId member inside
    rcases openable.idle stepId inside with itself | away
    · exact absent (itself ▸ member)
    · exact away member
  unfold Agrees
  rw [openAll_status openable.distinct, active]
  simp only [openAll_waits covers openable, mem_append]
  split
  · rename_i exceeded
    obtain ⟨stepId, member, past⟩ := any_eq_true.mp exceeded
    refine ⟨fun _ => ⟨stepId, .inr member, ?_⟩, fun _ => rfl⟩
    rw [if_pos member]
    exact past
  · rename_i within
    refine Iff.trans agrees ?_
    constructor
    · rintro ⟨stepId, member, waits⟩
      refine ⟨stepId, .inl member, ?_⟩
      rw [if_neg (idle stepId member)]
      exact waits
    · rintro ⟨stepId, here | new, waits⟩
      · rw [if_neg (idle stepId here)] at waits
        exact ⟨stepId, here, waits⟩
      · rw [if_pos new] at waits
        exact absurd (any_eq_true.mpr ⟨stepId, new, waits⟩) within

theorem end_agrees (unfinished : run.status.isTerminal = false) (agrees : Agrees run) :
    ((complete (prune flow run)).status.isTerminal = false → Agrees (complete (prune flow run))) ↔
      ¬ ((∃ stepId ∈ run.activeSteps, isIn run stepId .needsHuman) ∧
        ∀ stepId ∈ run.activeSteps, isIn run stepId .needsHuman → isBypassed flow run stepId) := by
  have kept : ∀ stepId, stepId ∈ (prune flow run).activeSteps ↔ stepId ∈ run.activeSteps ∧ ¬ isBypassed flow run stepId := by
    intro stepId
    simp [prune, mem_filter]
  by_cases waits : run.status = .needsHuman
  · have going : complete (prune flow run) = prune flow run := by
      unfold complete
      rw [if_neg]
      rintro ⟨_, runs⟩
      rw [show run.status = .running from runs] at waits
      cases waits
    have some := agrees.mp waits
    rw [going]
    constructor
    · rintro held ⟨_, all⟩
      obtain ⟨stepId, member, waiting⟩ := (held unfinished).mp waits
      obtain ⟨inside, through⟩ := (kept stepId).mp member
      exact through (all stepId inside waiting)
    intro notAll _
    refine ⟨fun _ => ?_, fun _ => waits⟩
    apply Classical.byContradiction
    intro none
    refine notAll ⟨some, ?_⟩
    intro stepId member waiting
    apply Classical.byContradiction
    intro through
    exact none ⟨stepId, (kept stepId).mpr ⟨member, through⟩, waiting⟩
  · have quiet : ¬ ∃ stepId ∈ run.activeSteps, isIn run stepId .needsHuman := fun some => waits (agrees.mpr some)
    refine ⟨fun _ both => quiet both.1, fun _ _ => ?_⟩
    unfold complete
    split
    · refine ⟨fun done => (nomatch done), ?_⟩
      rintro ⟨stepId, member, waiting⟩
      exact absurd ⟨stepId, ((kept stepId).mp member).1, waiting⟩ quiet
    · refine ⟨fun held => absurd held waits, ?_⟩
      rintro ⟨stepId, member, waiting⟩
      exact absurd ⟨stepId, ((kept stepId).mp member).1, waiting⟩ quiet

theorem left_overVisits (held : run.steps[report.stepId]? = some step) (stepId : String) :
    overVisits flow (left run step report at_ outcome) stepId = overVisits flow run stepId := by
  unfold overVisits
  rw [left_steps]
  by_cases same : report.stepId = stepId
  · subst same
    rw [if_pos rfl, held]
    cases flow.findStep report.stepId <;> rfl
  · rw [if_neg same]

theorem waits_iff (placed : Placed flow run) (accepts : Accepts flow run report stepDef step) (stepId : String) :
    (stepId ∈ (openAll flow (left run step report at_ outcome) (opened flow run report.stepId outcome)).activeSteps ∧
      isIn (openAll flow (left run step report at_ outcome) (opened flow run report.stepId outcome)) stepId .needsHuman) ↔
      WaitsAfter flow run report.stepId outcome stepId := by
  have openable : Openable flow (left run step report at_ outcome) report.stepId (opened flow run report.stepId outcome) :=
    left_openable
  rw [openAll_activeSteps (left_covers placed.covers) openable.known, openAll_waits (left_covers placed.covers) openable,
    left_overVisits accepts.held, mem_append, left_activeSteps, mem_filter]
  unfold WaitsAfter
  by_cases new : stepId ∈ opened flow run report.stepId outcome
  · have idle : ¬ (stepId ∈ run.activeSteps ∧ stepId ≠ report.stepId) := by
      rintro ⟨inside, other⟩
      exact (opened_openable report.stepId outcome).idle stepId new |>.elim other (fun away => away inside)
    simp only [new, if_true, true_and, or_true]
    constructor
    · exact .inr
    · rintro (⟨inside, other, _⟩ | exceeded)
      · exact absurd ⟨inside, other⟩ idle
      · exact exceeded
  · by_cases itself : report.stepId = stepId
    · subst itself
      simp [new]
    · simp [new, left_isIn itself, and_assoc]

theorem feedsPassedJoin_iff (accepts : Accepts flow run report stepDef step) (edge : EdgeDef) :
    feedsPassedJoin flow (openAll flow (left run step report at_ outcome) (opened flow run report.stepId outcome)) edge ↔
      PassedAfter flow run report.stepId outcome edge := by
  have openable : Openable flow (left run step report at_ outcome) report.stepId (opened flow run report.stepId outcome) :=
    left_openable
  unfold feedsPassedJoin PassedAfter
  rw [openAll_steps openable.distinct, left_steps]
  simp only [Bool.and_eq_true, bne_iff_ne, any_eq_true, beq_iff_eq, and_assoc]
  refine and_congr_right fun _ => and_congr_right fun _ => ?_
  by_cases new : edge.toStep ∈ opened flow run report.stepId outcome
  · have known := openable.known edge.toStep new
    simp only [new, if_true, not_true, false_and, iff_false, Option.any_map]
    intro passed
    obtain ⟨before, _, both⟩ := (Option.any_eq_true _ _).mp passed
    simp only [Bool.and_eq_true, beq_iff_eq] at both
    exact visited_state edge.toStep before known both.2
  · by_cases itself : edge.toStep = report.stepId
    · simp only [itself, if_true, visitsOf, accepts.held]
      rw [itself] at new
      cases outcome <;> simp [new, settledStep, settledState, chargeStep]
    have other : report.stepId ≠ edge.toStep := Ne.symm itself
    simp only [new, if_false, itself, other, not_false_eq_true, true_and, isIn, visitsOf]
    cases run.steps[edge.toStep]? with
    | none => simp
    | some before => simp

theorem isBypassed_iff (accepts : Accepts flow run report stepDef step) (stepId : String) :
    isBypassed flow (openAll flow (left run step report at_ outcome) (opened flow run report.stepId outcome)) stepId ↔
      BypassedAfter flow run report.stepId outcome stepId := by
  unfold isBypassed BypassedAfter
  simp only [Bool.and_eq_true, Bool.not_eq_true', isEmpty_eq_false_iff, all_eq_true, feedsPassedJoin_iff accepts]

theorem exit_agrees (placed : Placed flow run) (accepts : Accepts flow run report stepDef step) (agrees : Agrees run) :
    ((exit flow run stepDef step report at_).status.isTerminal = false → Agrees (exit flow run stepDef step report at_)) ↔
      ¬ DropsWaiting flow run report at_ := by
  unfold exit DropsWaiting
  rw [leavesWith_eq accepts at_]
  cases way : routeOf flow run stepDef step report at_ with
  | hold reason => simp [hold_agrees accepts]
  | retry =>
    have working : step.state ≠ .needsHuman := by simpa using route_retry way
    simp [retry_agrees accepts agrees working]
  | leave outcome =>
    have gone : Agrees (left run step report at_ outcome) := left_agrees agrees
    have grown := openAll_agrees (left_covers placed.covers) left_absent left_openable gone
    have unfinished : (left run step report at_ outcome).status.isTerminal = false := left_unfinished accepts.unfinished
    simp only [Option.some.injEq, exists_eq_left']
    unfold arrive
    dsimp only
    split
    · rename_i none
      have short : leadsToEnd (matchingEdges flow report.stepId outcome) = false := by
        rw [none]
        rfl
      simp only [short, Bool.false_eq_true, false_and, not_false_eq_true, iff_true]
      split
      · intro finished
        cases finished
      · exact fun _ => gone
    · split
      · rename_i ended
        have still : (openAll flow (left run step report at_ outcome)
            (opened flow run report.stepId outcome)).status.isTerminal = false := by
          rw [openAll_status (opened_openable report.stepId outcome).distinct]
          split
          · rfl
          · exact unfinished
        rw [end_agrees still grown]
        simp only [ended, true_and]
        refine not_congr (and_congr ?_ ?_)
        · exact exists_congr (waits_iff placed accepts)
        · refine forall_congr' fun stepId => ?_
          rw [← waits_iff placed accepts, ← isBypassed_iff accepts]
          exact and_imp.symm
      · rename_i short
        simp only [short, Bool.false_eq_true, false_and, not_false_eq_true, iff_true]
        exact fun _ => grown

end Exits

theorem Started.consistent {flow : WorkflowDef} {run : WorkflowRun} (started : Started flow run) : Consistent flow run := by
  have placed := started.placed
  refine ⟨fun _ => ?_, fun _ => placed.distinct, fun _ => placed.known⟩
  constructor
  · intro waits
    rw [started.status] at waits
    cases waits
  · rintro ⟨stepId, _, waits⟩
    unfold isIn at waits
    rw [started.steps, newSteps_isIn State.noConfusion] at waits
    cases waits

theorem reportStep_consistent {flow : WorkflowDef} (formed : WellFormed flow) (run : WorkflowRun)
    (event : StepAttemptReport × At) (placed : Placed flow run) (consistent : Consistent flow run) :
    Consistent flow (reportStep flow run event).1 ↔ ¬ DropsWaiting flow run event.1 event.2 := by
  have after := reportStep_placed formed run event placed
  have only : Consistent flow (reportStep flow run event).1 ↔
      ((reportStep flow run event).1.status.isTerminal = false → Agrees (reportStep flow run event).1) :=
    ⟨fun held => held.agrees, fun agrees => ⟨agrees, fun _ => after.distinct, fun _ => after.known⟩⟩
  rw [only]
  rcases reportStep_cases formed placed.covers event with ⟨same, refused⟩ | ⟨stepDef, step, accepts, left⟩
  · rw [same]
    refine ⟨fun _ => ?_, fun _ => consistent.agrees⟩
    rintro ⟨outcome, leaves, _⟩
    obtain ⟨stepDef, step, accepts, _⟩ := leavesWith_accepts leaves
    exact refused stepDef step accepts
  · rw [left]
    exact exit_agrees placed accepts (consistent.agrees accepts.unfinished)

/-- Every state of a run that goes on waits for a human exactly while one of its active steps
does, has no step active twice and only steps of its definition, if and only if no report that
reaches the end drops every waiting step. -/
theorem status_agrees_iff {id : WorkflowRunId} {flow : WorkflowDef} {title author : String} {at_ : At} {start : WorkflowRun}
    (made : WorkflowRun.new id flow title at_ author = .ok start) (events : List (StepAttemptReport × At)) :
    (∀ past, past <+: events → Consistent flow (run (reportStep flow) start past)) ↔
      Machine.Throughout (reportStep flow) (fun run event => ¬ DropsWaiting flow run event.1 event.2) start events := by
  have started := new_started made
  exact prefixes_iff (reportStep_placed started.formed)
    (fun run event placed consistent => reportStep_consistent started.formed run event placed consistent)
    started.placed started.consistent events

namespace Sample

def branches : WorkflowDef :=
  flow "plan"
    [stepDef "plan" .ungated .all, stepDef "build" .ungated .all, stepDef "check" (.humanSignOff .owner) .all,
      stepDef "ship" .ungated .any]
    [edge "plan" "build" .pass, edge "plan" "check" .pass, edge "build" "ship" .pass, edge "check" "ship" .pass,
      edge "ship" endStep .pass]

end Sample

theorem status_agrees_iff_sample :
    Consistent branches
      (run (reportStep branches) (started branches) [report "plan" .pass]) := by
  have made : WorkflowRun.new "urn:run:1" branches "Run" "1970-01-01T00:00:00.000Z" "owner" =
      .ok (started branches) := rfl
  refine (status_agrees_iff made [report "plan" .pass]).mpr ⟨?_, trivial⟩ _ (prefix_refl _)
  rintro ⟨outcome, _, ended, _⟩
  cases outcome with
  | pass | fail | needsHuman => exact absurd ended (by decide)

/-- The join is passed and reaches the end while the other branch waits for its sign-off: the
waiting step is pruned and the run waits for nobody. -/
theorem waiting_step_pruned :
    WorkflowRun.new "urn:run:1" branches "Run" "1970-01-01T00:00:00.000Z" "owner" =
        .ok (started branches) ∧
      (trace (reportStep branches) (started branches)
        [report "plan" .pass, report "build" .pass, report "check" .pass,
          report "ship" .pass]).all (fun entry => entry.2.isOk) ∧
      ¬ Consistent branches
        (run (reportStep branches) (started branches)
          [report "plan" .pass, report "build" .pass, report "check" .pass,
            report "ship" .pass]) := by
  refine ⟨rfl, by decide, ?_⟩
  generalize reached : run (reportStep branches) (started branches)
    [report "plan" .pass, report "build" .pass, report "check" .pass,
      report "ship" .pass] = run
  have status : run.status = .needsHuman := by
    rw [← reached]
    decide
  have active : run.activeSteps = [] := by
    rw [← reached]
    decide
  intro consistent
  have agrees := consistent.agrees (by rw [status]; rfl)
  obtain ⟨stepId, member, _⟩ := agrees.mp status
  rw [active] at member
  cases member

end FerroLoop.Workflow

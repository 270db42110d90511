import FerroLoop.Workflow.Duties

namespace FerroLoop.Workflow

open Text Checked Machine Map Sample Verdict

/-! ### Every command keeps the active steps in place -/

structure Rewrites (world next : World) : Prop where
  active : next.run.activeSteps = world.run.activeSteps
  held : ∀ (stepId : String) (step : StepInstance), world.run.steps[stepId]? = some step →
    ∃ kept, next.run.steps[stepId]? = some kept

section Placing

variable {flow : WorkflowDef} {env : Env} {world : World} {next : World}

theorem Frame.rewrites (frame : Frame world next) : Rewrites world next := by
  constructor
  · rw [frame.run]
  · rw [frame.run]
    exact fun _ step held => ⟨step, held⟩

theorem Rewrites.placed (rewrites : Rewrites world next) (placed : Placed flow world.run) :
    Placed flow next.run := by
  refine ⟨?_, ?_, ?_⟩
  · intro stepId member
    obtain ⟨step, held⟩ := placed.covers stepId member
    exact rewrites.held stepId step held
  · rw [rewrites.active]
    exact placed.distinct
  · rw [rewrites.active]
    exact placed.known

variable {stepId : String} {written : StepInstance}

theorem rewrites_written
    (active : next.run.activeSteps = world.run.activeSteps)
    (inserted : ∀ other : String, next.run.steps[other]? = if stepId = other then some written else world.run.steps[other]?) :
    Rewrites world next := by
  refine ⟨active, ?_⟩
  intro other step held
  rw [inserted]
  split
  · exact ⟨_, rfl⟩
  · exact ⟨step, held⟩

theorem parkStep_rewrites (stepId detail : String) : Rewrites world (parkStep env world stepId detail) := by
  unfold parkStep
  split
  · exact (Frame.refl world).rewrites
  split
  · exact rewrites_written rfl fun other => getElem?_insert _ _ _ _
  · exact ⟨rfl, fun _ step held => ⟨step, held⟩⟩

/-- What the frame of a started attempt keeps, the attempt in flight apart, holds of every way in which starting it ends. -/
theorem startAttempt_ends {holds : World → Prop} (framed : ∀ {next}, Frame world next → holds next)
    (launched : ∀ {next} inFlight, Frame world next → holds { next with inFlight }) (stepDef : StepDef) (stepId agent : String)
    (step : StepInstance) (adapter : Option String) :
    Ends (fun halt => holds halt.world) (startAttempt flow env world stepDef stepId agent step adapter)
      fun started => holds started.1 := by
  have here := framed (Frame.refl world)
  unfold startAttempt
  dsimp only
  split
  · exact here
  refine ends_refuse here fun _ _ => ends_call here ?_
  refine Ends.bind ((ensureRecord_frame env world step).both (fun _ frame => framed frame) fun _ both => both.1) ?_
  rintro ⟨recorded, recordId⟩ frame
  refine Ends.bind ((setRecordState_frame env recorded .setRecordState recordId .doing).both
    (fun _ more => framed (frame.trans more)) fun _ both => frame.trans both.1) ?_
  intro moved frame
  split
  · exact ends_call (framed frame) (launched _ frame)
  · exact launched _ frame

theorem begin_rewrites (flow : WorkflowDef) (env : Env) (world : World) (options : StepExecutionOptions) :
    Ends (fun halt => Rewrites world halt.world) (beginWorkflowStep flow env world options)
      fun begun => Rewrites world begun.1 := by
  have here := (Frame.refl world).rewrites
  refine ends_call here (ends_call here (ends_refuse here fun _ _ => ends_refuse here fun stepId _ => ?_))
  refine ends_refuse here fun stepDef _ => ends_call here (ends_refuse here fun step _ => ?_)
  refine ends_refuse here fun resolved _ => ?_
  split
  · exact here
  refine ends_call here ?_
  split
  · refine ends_call here (ends_call here (ends_call here ?_))
    exact rewrites_written rfl fun other => getElem?_insert _ _ _ _
  split
  · exact ends_call here (ends_call here (parkStep_rewrites _ _))
  · exact startAttempt_ends (·.rewrites) (fun _ frame => ⟨frame.rewrites.active, frame.rewrites.held⟩) _ _ _ _ _

theorem advanced_placed (formed : WellFormed flow) (placed : Placed flow world.run)
    {report : StepAttemptReport} {at_ : At} {run : WorkflowRun}
    (advanced : advanceWorkflow flow { world.run with steps := world.run.steps.insert stepId written } report at_ = .ok run) :
    Placed flow run := by
  have rewrites : Rewrites world
      { world with run := { world.run with steps := world.run.steps.insert stepId written } } :=
    rewrites_written rfl fun other => getElem?_insert _ _ _ _
  have ready : Placed flow { world.run with steps := world.run.steps.insert stepId written } := rewrites.placed placed
  obtain ⟨stepDef, step, _, left⟩ := advanceWorkflow_exit formed ready.covers advanced
  rw [left]
  exact exit_placed ready

theorem signOff_placed (formed : WellFormed flow) (placed : Placed flow world.run) (verdict : Verdict)
    (stepId author : String) (reason : Option String) (ownerLogin : String) :
    Ends (fun halt => Placed flow halt.world.run) (signOff flow env world verdict stepId author reason ownerLogin)
      fun next => Placed flow next.run := by
  refine (signOff_ends flow env world verdict stepId author reason ownerLogin).both
    (fun _ frame => frame.rewrites.placed placed) ?_
  rintro next ⟨stepDef, step, recordId, run, _, _, _, _, advanced, signed, _⟩
  have done := advanced_placed formed placed advanced
  rw [signed]
  exact ⟨done.covers, done.distinct, done.known⟩

theorem command_placed (formed : WellFormed flow) (world : World) (event : Env × Command) (placed : Placed flow world.run) :
    Placed flow (command flow world event).1.run := by
  obtain ⟨env, given⟩ := event
  have framed : ∀ halt : Halt, Frame world halt.world → Placed flow halt.world.run :=
    fun _ frame => frame.rewrites.placed placed
  cases given with
  | assign stepId agent adapter author =>
    refine answer_ends (fun next => Placed flow next.run)
      ((assign_ends flow env world stepId agent adapter author).both framed ?_)
    rintro next ⟨step, found, _, _, same⟩
    subst same
    have rewrites : Rewrites world { world with
        run := { world.run with
          steps := world.run.steps.insert stepId (assignedTo step found.nameKey adapter), updatedAt := env.now, author } } :=
      rewrites_written rfl fun other => getElem?_insert _ _ _ _
    exact rewrites.placed placed
  | begin options =>
    exact answer_ends (fun next => Placed flow next.run)
      ((begin_rewrites flow env world options).both (fun _ rewrites => rewrites.placed placed)
        fun _ rewrites => rewrites.placed placed)
  | finish flight attemptId outcome =>
    unfold command
    dsimp only
    split
    · rename_i flown _
      refine answer_ends (fun next => Placed flow next.run) ?_
      unfold finishWorkflowStep
      split
      · refine (commitAttempt_ends flow env _ flown _ attemptId _).both (fun _ frame => ?_) ?_
        · rw [frame.run]
          exact placed
        · rintro next ⟨_, _, advanced⟩
          exact advanced_placed formed placed advanced
      · exact placed
    · exact placed
  | approve stepId author note ownerLogin | reject stepId author reason ownerLogin =>
    exact answer_ends (fun next => Placed flow next.run) (signOff_placed formed placed _ _ _ _ _)

end Placing

def ceilingOf (flow : WorkflowDef) (run : WorkflowRun) (stepId : String) : Option String :=
  match flow.findStep stepId, run.steps[stepId]? with
  | some stepDef, some step => ceilingReason flow stepDef run step
  | _, _ => none

section Scheduling

variable {flow : WorkflowDef} {run : WorkflowRun} {stepDef : StepDef} {step : StepInstance} {stepId : String}
  {recordId : RecordId} {reason : Option String} {at_ : At}

theorem saturatingAdd_zero (a : UInt64) : saturatingAdd a 0 = a := by
  have bound := a.toNat_lt
  unfold saturatingAdd
  rw [if_pos (by simpa using bound)]
  exact UInt64.add_zero a

theorem max_one_pos (n : UInt32) : 0 < max n 1 := by
  show 0 < if n ≤ 1 then 1 else n
  split
  · decide
  rename_i above
  rw [UInt32.le_iff_toNat_le] at above
  rw [UInt32.lt_iff_toNat_lt]
  simp at *
  omega

def waitingRun (run : WorkflowRun) (stepDef : StepDef) (stepId : String) (step : StepInstance) (recordId : RecordId) :
    WorkflowRun :=
  { run with steps := run.steps.insert stepId (approve.waiting stepDef step recordId) }

theorem waitingRun_steps (other : String) :
    (waitingRun run stepDef stepId step recordId).steps[other]? =
      if stepId = other then some (approve.waiting stepDef step recordId) else run.steps[other]? :=
  getElem?_insert _ _ _ _

theorem approval_resolves :
    resolvesSignOff (approve.waiting stepDef step recordId) (signOffReport .approve stepId reason) = true := by
  have positive : 0 < (approve.waiting stepDef step recordId).attemptCount := max_one_pos step.attemptCount
  simp only [resolvesSignOff, signOffReport, decide_eq_true positive]
  rfl

theorem approval_ceiling :
    ceilingReason flow stepDef
        (charge (waitingRun run stepDef stepId step recordId) (approve.waiting stepDef step recordId)
          (signOffReport .approve stepId reason) at_)
        (chargeStep (approve.waiting stepDef step recordId) (signOffReport .approve stepId reason)) =
      ceilingReason flow stepDef run step := by
  have tokens : (signOffReport .approve stepId reason).tokensUsed = 0 := rfl
  have cost : (signOffReport .approve stepId reason).costUsdMicros = 0 := rfl
  unfold ceilingReason charge chargeStep
  rw [approval_resolves, tokens, cost]
  simp only [saturatingAdd_zero]
  rfl

theorem approval_route :
    routeOf flow (waitingRun run stepDef stepId step recordId) stepDef (approve.waiting stepDef step recordId)
        (signOffReport .approve stepId reason) at_ =
      match ceilingReason flow stepDef run step with
      | some ceiling => .hold (some ceiling)
      | none => .leave .pass := by
  unfold routeOf route
  rw [approval_ceiling]
  cases ceilingReason flow stepDef run step with
  | some ceiling => rfl
  | none => rfl

theorem waitingRun_opened (held : run.steps[stepId]? = some step) :
    opened flow (waitingRun run stepDef stepId step recordId) stepId .pass = opened flow run stepId .pass := by
  have visits : ∀ other, visitsOf (waitingRun run stepDef stepId step recordId) other = visitsOf run other := by
    intro other
    unfold visitsOf
    rw [waitingRun_steps]
    split
    · rename_i same
      subst same
      rw [held]
      rfl
    · rfl
  unfold opened
  rw [visits]
  apply openedBy_congr
  · exact fun _ _ => Iff.rfl
  · intro other different
    unfold isIn
    rw [waitingRun_steps, if_neg (Ne.symm different)]
  · exact visits

variable {outcome : StepOutcome}

theorem isBypassed_end (ended : leadsToEnd (matchingEdges flow stepId outcome)) :
    isBypassed flow run stepId = false := by
  obtain ⟨edge, member, last⟩ := List.any_eq_true.mp ended
  obtain ⟨inside, matched⟩ := List.mem_filter.mp member
  have away : edge ∈ outgoing flow stepId := by
    rw [outgoing, List.mem_filter]
    exact ⟨inside, (Bool.and_eq_true _ _ ▸ matched).1⟩
  have stops : feedsPassedJoin flow run edge = false := by
    rw [feedsPassedJoin, show edge.toStep = endStep by simpa using last]
    simp
  rcases bypassed : isBypassed flow run stepId with _ | _
  · rfl
  rw [isBypassed, Bool.and_eq_true] at bypassed
  rw [List.all_eq_true.mp bypassed.2 edge away] at stops
  cases stops

theorem complete_steps (run : WorkflowRun) : (complete run).steps = run.steps := by
  unfold complete
  split <;> rfl

theorem complete_activeSteps (run : WorkflowRun) : (complete run).activeSteps = run.activeSteps := by
  unfold complete
  split <;> rfl

theorem arrive_reopened {targets : List String} (covers : Covers flow run) (absent : stepId ∉ run.activeSteps)
    (openable : Openable flow run stepId targets) (none : matchingEdges flow stepId .pass = [] → targets = []) :
    isIn (arrive flow stepId .pass run targets) stepId .done = (isIn run stepId .done && stepId ∉ targets) ∧
      (stepId ∈ (arrive flow stepId .pass run targets).activeSteps ↔ stepId ∈ targets) := by
  have grownDone := openAll_isDone openable stepId
  have grownActive : stepId ∈ (openAll flow run targets).activeSteps ↔ stepId ∈ targets := by
    rw [openAll_activeSteps covers openable.known, List.mem_append]
    exact ⟨fun either => either.resolve_left absent, .inr⟩
  unfold arrive
  dsimp only
  split
  · rename_i edges
    rw [none edges]
    simpa using absent
  split
  · rename_i ended
    constructor
    · rw [← grownDone]
      unfold isIn
      rw [complete_steps]
      rfl
    · rw [complete_activeSteps]
      simp only [prune, List.mem_filter, isBypassed_end ended, Bool.not_false, and_true]
      exact grownActive
  · exact ⟨grownDone, grownActive⟩

theorem opened_none (edges : matchingEdges flow stepId outcome = []) :
    opened flow run stepId outcome = [] := by
  unfold opened
  rw [edges]
  rfl

/-- An accepted approval takes the step out as done exactly if the run is past no ceiling and the
step's own edges do not open it again. -/
theorem approval_exit (placed : Placed flow run) (held : run.steps[stepId]? = some step) :
    (isIn (exit flow (waitingRun run stepDef stepId step recordId) stepDef (approve.waiting stepDef step recordId)
        (signOffReport .approve stepId reason) at_) stepId .done ∧
      stepId ∉ (exit flow (waitingRun run stepDef stepId step recordId) stepDef
        (approve.waiting stepDef step recordId) (signOffReport .approve stepId reason) at_).activeSteps) ↔
      ceilingReason flow stepDef run step = none ∧ stepId ∉ opened flow run stepId .pass := by
  have covers : Covers flow (waitingRun run stepDef stepId step recordId) := covers_written placed.covers waitingRun_steps
  have same : opened flow (waitingRun run stepDef stepId step recordId) stepId .pass = opened flow run stepId .pass :=
    waitingRun_opened held
  have about : (signOffReport .approve stepId reason).stepId = stepId := rfl
  unfold exit
  rw [approval_route]
  generalize signOffReport .approve stepId reason = report at about ⊢
  generalize waitingRun run stepDef stepId step recordId = asked at covers same ⊢
  generalize approve.waiting stepDef step recordId = waiting
  subst about
  cases ceiling : ceilingReason flow stepDef run step with
  | some ceilingReason =>
    have waits : isIn (hold (charge asked waiting report at_) report.stepId (chargeStep waiting report) (some ceilingReason))
        report.stepId .done = false := by
      unfold isIn hold
      rw [getElem?_insert, if_pos rfl]
      rfl
    simp only [reduceCtorEq, false_and, iff_false]
    rintro ⟨done, _⟩
    exact Bool.false_ne_true (waits.symm.trans done)
  | none =>
    have settled : isIn (left asked waiting report at_ .pass) report.stepId .done := by
      unfold isIn
      rw [left_steps, if_pos rfl]
      rfl
    have absent : report.stepId ∉ (left asked waiting report at_ .pass).activeSteps := left_absent
    have openable : Openable flow (left asked waiting report at_ .pass) report.stepId (opened flow asked report.stepId .pass) :=
      left_openable
    obtain ⟨done, active⟩ := arrive_reopened (left_covers covers) absent openable opened_none
    rw [settled, Bool.true_and] at done
    rw [← same]
    constructor
    · rintro ⟨_, gone⟩
      exact ⟨rfl, fun again => gone (active.mpr again)⟩
    · rintro ⟨_, closed⟩
      exact ⟨done.trans (decide_eq_true closed), fun inside => closed (active.mp inside)⟩

end Scheduling

structure Effective (before after : WorkflowRun) (stepId : String) : Prop where
  active : stepId ∈ before.activeSteps
  waited : isIn before stepId .needsHuman
  done : isIn after stepId .done
  gone : stepId ∉ after.activeSteps

/-- After any history of commands, an approval that returns has recorded a move to done, and it
was of a waiting step and took it out as done if and only if the step was waiting, the run is
past no ceiling and the step's own edges do not open it again. -/
theorem approval_effective_iff {id : WorkflowRunId} {flow : WorkflowDef} {title author : String} {at_ : At}
    {start : WorkflowRun} (made : WorkflowRun.new id flow title at_ author = .ok start) (events : List (Env × Command))
    {env : Env} {stepId caller ownerLogin : String} {note : Option String} {world next : World}
    (reached : run (command flow) (startedWorld start) events = world)
    (approved : approveWorkflowStep flow env world stepId caller note ownerLogin = .ok next) :
    (∃ recordId state, next.decisions = world.decisions ++ [.move recordId state .done true]) ∧
      (Effective world.run next.run stepId ↔
        isIn world.run stepId .needsHuman ∧ ceilingOf flow world.run stepId = none ∧
          stepId ∉ opened flow world.run stepId .pass) := by
  have started := new_started made
  have placed : Placed flow world.run := by
    rw [← reached]
    exact run_invariant (fun world event placed => command_placed started.formed world event placed) started.placed events
  have ends := signOff_ends flow env world .approve stepId caller note ownerLogin
  rw [approveWorkflowStep] at approved
  rw [approved] at ends
  obtain ⟨stepDef, step, recordId, run, found, active, held, _, advanced, signed, _, _, state, decisions⟩ := ends
  refine ⟨⟨recordId, state, decisions⟩, ?_⟩
  have covers : Covers flow (waitingRun world.run stepDef stepId step recordId) :=
    covers_written placed.covers waitingRun_steps
  obtain ⟨settledDef, settled, accepts, left⟩ := advanceWorkflow_exit started.formed covers advanced
  have sameDef : settledDef = stepDef := Option.some.inj (accepts.found.symm.trans found)
  have sameStep : settled = approve.waiting stepDef step recordId := by
    have there := accepts.held
    rw [waitingRun_steps, if_pos (show stepId = (signOffReport .approve stepId note).stepId from rfl)] at there
    exact (Option.some.inj there).symm
  subst sameDef sameStep
  have outcome : (isIn run stepId .done ∧ stepId ∉ run.activeSteps) ↔
      ceilingReason flow settledDef world.run step = none ∧ stepId ∉ opened flow world.run stepId .pass := by
    rw [left]
    exact approval_exit placed held
  have ceiling : ceilingOf flow world.run stepId = ceilingReason flow settledDef world.run step := by
    unfold ceilingOf
    rw [found, held]
  rw [ceiling, ← outcome, signed]
  constructor
  · intro effective
    exact ⟨effective.waited, effective.done, effective.gone⟩
  · rintro ⟨waited, done, gone⟩
    exact ⟨active, waited, done, gone⟩

namespace Sample

def waiting : World :=
  run (command signed) (startedWorld (started signed)) executed

end Sample

theorem approval_effective_iff_sample :
    ∃ next, approveWorkflowStep signed env waiting "write" "owner" none "owner" = .ok next ∧
      Effective waiting.run next.run "write" := by
  have made : WorkflowRun.new "urn:run:1" signed "Run" "1970-01-01T00:00:00.000Z" "owner" =
      .ok (started signed) := rfl
  cases approved : approveWorkflowStep signed env waiting "write" "owner" none "owner" with
  | error halt =>
    have returns : (approveWorkflowStep signed env waiting "write" "owner" none "owner").isOk := by
      decide
    rw [approved] at returns
    cases returns
  | ok next =>
    refine ⟨next, rfl, (approval_effective_iff made executed rfl approved).2.mpr ⟨?_, ?_, ?_⟩⟩
    · decide
    · decide
    · decide

/-- A step that was never executed is approved: the decision to move it to done is recorded. -/
theorem idle_step_approved :
    ∃ next, WorkflowRun.new "urn:run:1" signed "Run" "1970-01-01T00:00:00.000Z" "owner" =
        .ok (started signed) ∧
      approveWorkflowStep signed env (startedWorld (started signed)) "write" "owner" none "owner" =
        .ok next ∧
      isIn (started signed) "write" .todo ∧ ¬ Effective (started signed) next.run "write" := by
  cases approved : approveWorkflowStep signed env (startedWorld (started signed)) "write" "owner"
      none "owner" with
  | error halt =>
    have returns : (approveWorkflowStep signed env (startedWorld (started signed)) "write"
        "owner" none "owner").isOk := by
      decide
    rw [approved] at returns
    cases returns
  | ok next =>
    refine ⟨next, rfl, rfl, by decide, ?_⟩
    intro effective
    exact absurd effective.waited (by decide)

end FerroLoop.Workflow

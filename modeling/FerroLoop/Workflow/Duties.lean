import FerroLoop.Workflow.Execution

namespace FerroLoop.Workflow

open Text Checked Map List Sample

def agentOf (run : WorkflowRun) (stepId : String) : Option String :=
  run.steps[stepId]?.bind (·.assignedAgent)

variable {stepId : String} {run : WorkflowRun}

theorem agentOf_some {agent : String} (assigned : agentOf run stepId = some agent) :
    ∃ step, run.steps[stepId]? = some step ∧ step.assignedAgent = some agent :=
  Option.bind_eq_some_iff.mp assigned

theorem agentOf_congr {first second : WorkflowRun} (same : first.steps = second.steps) (stepId : String) :
    agentOf first stepId = agentOf second stepId := by
  unfold agentOf
  rw [same]

variable {before after : WorkflowRun}

theorem agentOf_written {written : StepInstance}
    (inserted : ∀ other : String, after.steps[other]? = if stepId = other then some written else before.steps[other]?)
    (other : String) : agentOf after other = if stepId = other then written.assignedAgent else agentOf before other := by
  unfold agentOf
  rw [inserted]
  split <;> rfl

theorem agentOf_rewritten {step written : StepInstance}
    (held : before.steps[stepId]? = some step)
    (inserted : ∀ other : String, after.steps[other]? = if stepId = other then some written else before.steps[other]?)
    (same : written.assignedAgent = step.assignedAgent) (other : String) : agentOf after other = agentOf before other := by
  rw [agentOf_written inserted]
  split
  · rename_i itself
    subst itself
    rw [agentOf, held]
    exact same
  · rfl

section Scheduler

variable {flow : WorkflowDef} {run : WorkflowRun} {stepDef : StepDef} {step : StepInstance} {report : StepAttemptReport}
  {at_ : At}

theorem visited_assignedAgent (stepId : String) (step : StepInstance) :
    (visited flow stepId step).assignedAgent = step.assignedAgent := by
  unfold visited visitedStep
  split
  · split <;> rfl
  · rfl

variable {targets : List String}

theorem openAll_agentOf (distinct : targets.Nodup) (stepId : String) :
    agentOf (openAll flow run targets) stepId = agentOf run stepId := by
  unfold agentOf
  rw [openAll_steps distinct]
  split
  · cases run.steps[stepId]? with
    | none => rfl
    | some step => exact visited_assignedAgent stepId step
  · rfl

theorem arrive_agentOf {outcome : StepOutcome} (distinct : targets.Nodup) (reporter stepId : String) :
    agentOf (arrive flow reporter outcome run targets) stepId = agentOf run stepId := by
  have opened : agentOf (openAll flow run targets) stepId = agentOf run stepId := openAll_agentOf distinct stepId
  unfold arrive
  dsimp only
  split
  · split <;> rfl
  split
  · rw [← opened]
    apply agentOf_congr
    unfold complete
    split <;> rfl
  · exact opened

theorem exit_agentOf (accepts : Accepts flow run report stepDef step) (stepId : String) :
    agentOf (exit flow run stepDef step report at_) stepId = agentOf run stepId := by
  unfold exit
  split
  · exact agentOf_rewritten accepts.held (hold_steps _) rfl stepId
  · exact agentOf_rewritten accepts.held (retry_steps _) rfl stepId
  · rename_i outcome _
    rw [arrive_agentOf (opened_openable report.stepId outcome).distinct]
    exact agentOf_rewritten accepts.held left_steps rfl stepId

theorem advanceWorkflow_exit {next : WorkflowRun} (formed : WellFormed flow) (covers : Covers flow run)
    (advanced : advanceWorkflow flow run report at_ = .ok next) :
    ∃ stepDef step, Accepts flow run report stepDef step ∧ next = exit flow run stepDef step report at_ := by
  obtain ⟨stepDef, step, accepts, _⟩ := advanceWorkflow_accepts advanced
  rw [advanceWorkflow_eq formed covers accepts] at advanced
  exact ⟨stepDef, step, accepts, (Except.ok.inj advanced).symm⟩

end Scheduler

def latestExecutor (executions : List Execution) (stepId : String) : Option String :=
  (executions.reverse.find? fun execution => execution.stepId == stepId).map (·.agent)

theorem latestExecutor_append (executions : List Execution) (last : Execution) (stepId : String) :
    latestExecutor (executions ++ [last]) stepId =
      if last.stepId = stepId then some last.agent else latestExecutor executions stepId := by
  unfold latestExecutor
  rw [reverse_append, reverse_singleton, singleton_append, find?_cons]
  by_cases same : last.stepId = stepId
  · simp [same]
  · rw [beq_false_of_ne same, if_neg same]

/-- Every assigned agent is a registered name, every execution in flight works under the agent of
its own copy, and the agent that executed a step's latest attempt is the one it is assigned to. -/
structure Kept (flow : WorkflowDef) (world : World) : Prop where
  placed : Placed flow world.run
  named : ∀ stepId agent, agentOf world.run stepId = some agent → isNormalSlug agent
  flying : ∀ flight ∈ world.inFlight, flight.step.assignedAgent = some flight.agent ∧ isNormalSlug flight.agent
  executed : ∀ stepId agent, latestExecutor world.executions stepId = some agent → agentOf world.run stepId = some agent

structure Frame (world next : World) : Prop where
  run : next.run = world.run
  executions : next.executions = world.executions
  inFlight : next.inFlight = world.inFlight

theorem Frame.refl (world : World) : Frame world world :=
  ⟨rfl, rfl, rfl⟩

theorem Frame.trans {first second third : World} (one : Frame first second) (two : Frame second third) :
    Frame first third :=
  ⟨two.run.trans one.run, two.executions.trans one.executions, two.inFlight.trans one.inFlight⟩

theorem Kept.frame {flow : WorkflowDef} {world next : World} (kept : Kept flow world) (frame : Frame world next) :
    Kept flow next := by
  refine ⟨?_, ?_, ?_, ?_⟩
  · rw [frame.run]
    exact kept.placed
  · rw [frame.run]
    exact kept.named
  · rw [frame.inFlight]
    exact kept.flying
  · rw [frame.run, frame.executions]
    exact kept.executed

/-! ### Rules for commands that stop on the way -/

variable {report : StepAttemptReport}

section Rules

variable {α β : Type} {env : Env} {world : World} {still : World → Prop} {post : β → Prop}

theorem ends_call {call : Call} {rest : Unit → Except Halt β} (here : still world)
    (next : Ends (fun halt => still halt.world) (rest ()) post) :
    Ends (fun halt => still halt.world) (env.call world call >>= rest) post := by
  unfold Env.call refuseIf
  split
  · exact here
  · exact next

theorem ends_refuse {x : Except WorkflowError α} {rest : α → Except Halt β} (here : still world)
    (next : ∀ a, x = .ok a → Ends (fun halt => still halt.world) (rest a) post) :
    Ends (fun halt => still halt.world) (refuse world x >>= rest) post := by
  cases x with
  | error e => exact here
  | ok a => exact next a rfl

theorem ends_advance {flow : WorkflowDef} {at_ : At}
    {rest : WorkflowRun → Except Halt β} (here : still world)
    (next : ∀ run', advanceWorkflow flow run report at_ = .ok run' → Ends (fun halt => still halt.world) (rest run') post) :
    Ends (fun halt => still halt.world) (advance flow world run report at_ >>= rest) post := by
  unfold advance
  split
  · rename_i moved advanced
    exact next moved advanced
  · exact here
  · exact here

theorem answer_ends (still : World → Prop) {x : Except Halt α} {reply : α → World × Reply}
    (ends : Ends (fun halt => still halt.world) x fun a => still (reply a).1) : still (answer reply x).1 := by
  cases x with
  | error halt | ok a => exact ends

theorem ensureRecord_frame (env : Env) (world : World) (step : StepInstance) :
    Ends (fun halt => Frame world halt.world) (ensureRecord env world step) fun found =>
      Frame world found.1 ∧ found.1.decisions = world.decisions := by
  unfold ensureRecord
  split
  · exact ⟨Frame.refl world, rfl⟩
  · exact ends_call (Frame.refl world) ⟨⟨rfl, rfl, rfl⟩, rfl⟩

theorem setRecordState_frame (env : Env) (world : World) (call : Call) (recordId : RecordId) (state : State) :
    Ends (fun halt => Frame world halt.world) (setRecordState env world call recordId state) fun next =>
      Frame world next ∧ next.decisions = world.decisions := by
  refine ends_call (Frame.refl world) ?_
  cases world.records[recordId]? with
  | some _ => exact ⟨⟨rfl, rfl, rfl⟩, rfl⟩
  | none => exact Frame.refl world

theorem consult_frame (env : Env) (world : World) (stepDef : StepDef) (recordId : RecordId) (outcome : AttemptOutcome) :
    Ends (fun halt => Frame world halt.world) (consult env world stepDef recordId outcome) fun next => Frame world next := by
  unfold consult
  split
  · exact Frame.refl world
  split
  · exact Frame.refl world
  · exact ends_call (Frame.refl world) (Frame.refl world)
  refine ends_call (Frame.refl world) (ends_call (Frame.refl world) ?_)
  cases world.records[recordId]? with
  | none => exact Frame.refl world
  | some state => exact ends_call (Frame.refl world) ⟨rfl, rfl, rfl⟩

end Rules

section Commands

variable {flow : WorkflowDef} {env : Env} {world : World}

variable {stepDef : StepDef} {step : StepInstance} {agent : String} {adapter : Option String} {next : World} {stepId : String}

theorem findStepDef_ok (found : findStepDef flow stepId = .ok stepDef) :
    flow.findStep stepId = some stepDef := by
  unfold findStepDef at found
  split at found
  · rename_i present
    cases found
    exact present
  · cases found

theorem findInstance_ok (found : findInstance run stepId = .ok step) :
    run.steps[stepId]? = some step := by
  unfold findInstance at found
  split at found
  · rename_i held
    cases found
    exact held
  · cases found

theorem activeAgent_ok {found : AgentRecord} (active : activeAgent env stepId agent = .ok found) :
    found.nameKey = nameKeyOf agent := by
  unfold activeAgent at active
  split at active
  · rename_i candidate present
    cases active
    have matched := find?_some present
    simp only [Bool.and_eq_true, beq_iff_eq] at matched
    exact matched.2
  · cases active

theorem Kept.written (kept : Kept flow world) {written : StepInstance}
    (inserted : ∀ other : String, run.steps[other]? = if stepId = other then some written else world.run.steps[other]?)
    (active : run.activeSteps = world.run.activeSteps) (assigned : written.assignedAgent = some agent)
    (normal : isNormalSlug agent)
    (executor : ∀ executor, latestExecutor world.executions stepId = some executor → agent = executor) :
    Kept flow { world with run } := by
  have agents := agentOf_written inserted
  refine ⟨⟨covers_written kept.placed.covers inserted, ?_, ?_⟩, ?_, kept.flying, ?_⟩
  · rw [active]
    exact kept.placed.distinct
  · rw [active]
    exact kept.placed.known
  · intro other name held
    rw [agents] at held
    split at held
    · rw [assigned] at held
      cases held
      exact normal
    · exact kept.named other name held
  · intro other name latest
    show agentOf run other = some name
    rw [agents]
    split
    · rename_i same
      subst same
      rw [assigned, executor name latest]
    · exact kept.executed other name latest

theorem assign_ends (flow : WorkflowDef) (env : Env) (world : World) (stepId agent : String) (adapter : Option String)
    (author : String) :
    Ends (fun halt => Frame world halt.world) (assignWorkflowStep flow env world stepId agent adapter author) fun next =>
      ∃ (step : StepInstance) (found : AgentRecord), world.run.steps[stepId]? = some step ∧ found.nameKey = nameKeyOf agent ∧
        next = { world with
          run := { world.run with
            steps := world.run.steps.insert stepId (assignedTo step found.nameKey adapter), updatedAt := env.now, author } } := by
  have here := Frame.refl world
  refine ends_call here (ends_refuse here fun _ _ => ends_call here (ends_refuse here fun found active => ?_))
  refine ends_refuse here fun _ _ => ends_refuse here fun step held => ends_call here ?_
  exact ⟨step, found, findInstance_ok held, activeAgent_ok active, rfl⟩

variable {author : String}

theorem assign_kept (kept : Kept flow world)
    (assigned : assignWorkflowStep flow env world stepId agent adapter author = .ok next)
    (executor : ∀ executor, latestExecutor world.executions stepId = some executor → nameKeyOf agent = executor) :
    Kept flow next := by
  have ends := assign_ends flow env world stepId agent adapter author
  rw [assigned] at ends
  obtain ⟨step, found, _, key, same⟩ := ends
  subst same
  have inserted : ∀ other : String,
      (world.run.steps.insert stepId (assignedTo step found.nameKey adapter))[other]? =
        if stepId = other then some (assignedTo step found.nameKey adapter) else world.run.steps[other]? :=
    fun other => getElem?_insert _ _ _ _
  refine kept.written inserted rfl rfl found.registered ?_
  rw [key]
  exact executor

theorem resolveAgent_ok (kept : Kept flow world) {working : StepInstance}
    (held : world.run.steps[stepId]? = some step)
    (resolved : resolveAgent flow env world.run stepId step adapter = .ok (some (working, agent))) :
    working.assignedAgent = some agent ∧ isNormalSlug agent ∧
      (∃ checked, validateReviewerIndependence flow world.run stepId agent checked = .ok ()) ∧
      ∀ executor, latestExecutor world.executions stepId = some executor → agent = executor := by
  have before : agentOf world.run stepId = step.assignedAgent := by
    rw [agentOf, held]
    rfl
  unfold resolveAgent at resolved
  split at resolved
  · rename_i name assigned
    obtain ⟨_, passed, resolved⟩ := bind_ok resolved
    cases resolved
    rw [assigned] at before
    refine ⟨assigned, kept.named stepId _ before, ⟨_, passed⟩, ?_⟩
    intro executor latest
    have same := kept.executed stepId executor latest
    rw [before] at same
    exact Option.some.inj same
  · rename_i unassigned
    obtain ⟨chosen, selected, resolved⟩ := bind_ok resolved
    rcases chosen with _ | choice
    · cases resolved
    cases resolved
    obtain ⟨passed, normal⟩ := selectStepAgent_ok selected
    refine ⟨rfl, normal, passed, ?_⟩
    intro executor latest
    have same := kept.executed stepId executor latest
    rw [before, unassigned] at same
    cases same

theorem parkStep_kept (kept : Kept flow world) (stepId detail : String) : Kept flow (parkStep env world stepId detail) := by
  unfold parkStep
  split
  · exact kept
  split
  · rename_i step held
    have inserted : ∀ other : String, (hold world.run stepId step (some detail)).steps[other]? =
        if stepId = other then some (heldStep step (some detail)) else world.run.steps[other]? :=
      fun other => getElem?_insert _ _ _ _
    have agents := agentOf_rewritten held inserted rfl
    refine ⟨⟨covers_written kept.placed.covers inserted, kept.placed.distinct, kept.placed.known⟩, ?_, kept.flying, ?_⟩
    · intro other name assigned
      exact kept.named other name ((agents other).symm.trans assigned)
    · intro other name latest
      exact (agents other).trans (kept.executed other name latest)
  · exact ⟨⟨kept.placed.covers, kept.placed.distinct, kept.placed.known⟩, kept.named, kept.flying, kept.executed⟩

theorem startAttempt_kept (kept : Kept flow world)
    (assigned : step.assignedAgent = some agent) (normal : isNormalSlug agent) :
    Ends (fun halt => Kept flow halt.world) (startAttempt flow env world stepDef stepId agent step adapter)
      fun started => Kept flow started.1 := by
  unfold startAttempt
  dsimp only
  split
  · exact kept
  rename_i wire _
  refine ends_refuse kept fun _ _ => ends_call kept ?_
  refine Ends.bind ((ensureRecord_frame env world step).both (fun _ => kept.frame) fun _ same => kept.frame same.1) ?_
  rintro ⟨recorded, recordId⟩ kept
  refine Ends.bind ((setRecordState_frame env recorded .setRecordState recordId .doing).both (fun _ => kept.frame)
    fun _ same => kept.frame same.1) ?_
  intro moved kept
  have launch : ∀ branch : Option String, Kept flow { moved with inFlight := moved.inFlight ++ [
      { stepId, agent, recordId
        step := { step with
          recordId := some recordId, worktreeBranch := branch, state := .doing, adapterUsed := some wire } }] } := by
    intro branch
    refine ⟨kept.placed, kept.named, ?_, kept.executed⟩
    intro flight member
    rcases mem_append.mp member with earlier | last
    · exact kept.flying flight earlier
    · rw [mem_singleton.mp last]
      exact ⟨assigned, normal⟩
  split
  · exact ends_call kept (launch _)
  · exact launch _

theorem startAttempt_action
    {result : World × StepExecutionAction}
    (started : startAttempt flow env world stepDef stepId agent step adapter = .ok result) :
    result.2 = .started stepId agent := by
  unfold startAttempt at started
  dsimp only at started
  split at started
  · cases started
  obtain ⟨_, _, started⟩ := bind_ok started
  obtain ⟨_, _, started⟩ := bind_ok started
  obtain ⟨_, _, started⟩ := bind_ok started
  obtain ⟨_, _, started⟩ := bind_ok started
  split at started
  · obtain ⟨_, _, started⟩ := bind_ok started
    cases started
    rfl
  · cases started
    rfl

theorem begin_kept (env : Env) (kept : Kept flow world) (options : StepExecutionOptions) :
    Ends (fun halt => Kept flow halt.world) (beginWorkflowStep flow env world options) fun begun =>
      Kept flow begun.1 ∧ ∀ stepId agent, begun.2 = .started stepId agent →
        ∃ checked, validateReviewerIndependence flow world.run stepId agent checked = .ok () := by
  refine ends_call kept (ends_call kept (ends_refuse kept fun _ _ => ends_refuse kept fun stepId _ => ?_))
  refine ends_refuse kept fun stepDef _ => ends_call kept (ends_refuse kept fun step held => ?_)
  refine ends_refuse kept fun resolved chosen => ?_
  split
  · exact ⟨kept, fun _ _ started => (nomatch started)⟩
  rename_i working agent
  obtain ⟨assigned, normal, passed, executor⟩ := resolveAgent_ok kept (findInstance_ok held) chosen
  refine ends_call kept ?_
  split
  · have inserted : ∀ other : String, (world.run.steps.insert stepId { working with state := .doing })[other]? =
        if stepId = other then some { working with state := .doing } else world.run.steps[other]? :=
      fun other => getElem?_insert _ _ _ _
    refine ends_call kept (ends_call kept (ends_call kept ⟨?_, fun _ _ started => (nomatch started)⟩))
    exact kept.written inserted rfl assigned normal executor
  split
  · exact ends_call kept (ends_call kept (parkStep_kept kept _ _))
  have launched : Ends (fun halt => Kept flow halt.world)
      (startAttempt flow env world stepDef stepId agent working options.adapterOverride) fun started => Kept flow started.1 :=
    startAttempt_kept kept assigned normal
  rcases started : startAttempt flow env world stepDef stepId agent working options.adapterOverride with halt | result
  · rw [started] at launched
    exact launched
  rw [started] at launched
  refine ⟨launched, ?_⟩
  intro startedId startedAgent same
  rw [startAttempt_action started] at same
  cases same
  exact passed

theorem commitAttempt_ends (flow : WorkflowDef) (env : Env) (world : World) (flight : Flight) (stepDef : StepDef)
    (attemptId : Iri) (outcome : AttemptOutcome) :
    Ends (fun halt => Frame world halt.world) (commitAttempt flow env world flight stepDef attemptId outcome) fun next =>
      next.executions = world.executions ∧ next.inFlight = world.inFlight ∧
        advanceWorkflow flow { world.run with steps := world.run.steps.insert flight.stepId flight.step }
          (attemptReport flight stepDef attemptId outcome) env.now = .ok next.run := by
  refine ends_call (Frame.refl world) ?_
  have noted : Frame world (if env.fails .flushAttempt then world
      else { world with decisions := world.decisions ++ [.attempt flight.recordId outcome.completed] }) := by
    split
    · exact Frame.refl world
    · exact ⟨rfl, rfl, rfl⟩
  generalize (if env.fails .flushAttempt then world
    else { world with decisions := world.decisions ++ [.attempt flight.recordId outcome.completed] }) = first at noted ⊢
  refine Ends.bind ((consult_frame env first stepDef flight.recordId outcome).both (fun _ => noted.trans) fun _ => noted.trans) ?_
  intro second consulted
  refine Ends.bind ((setRecordState_frame env second .settleRecordState flight.recordId (judge stepDef outcome).2.2).both
    (fun _ => consulted.trans) fun _ same => consulted.trans same.1) ?_
  intro third moved
  refine ends_call moved (ends_call moved ?_)
  refine ends_advance moved fun run advanced => ends_call moved ⟨moved.executions, moved.inFlight, ?_⟩
  rw [moved.run] at advanced
  exact advanced

theorem commitAttempt_kept (formed : WellFormed flow) (kept : Kept flow world) {flight : Flight}
    {at_ : At} (assigned : flight.step.assignedAgent = some flight.agent)
    (normal : isNormalSlug flight.agent)
    (executions : next.executions = world.executions ++ [{ stepId := flight.stepId, agent := flight.agent }])
    (inFlight : next.inFlight = world.inFlight)
    (advanced : advanceWorkflow flow { world.run with steps := world.run.steps.insert flight.stepId flight.step } report at_ =
      .ok next.run) : Kept flow next := by
  generalize written : ({ world.run with steps := world.run.steps.insert flight.stepId flight.step } : WorkflowRun) = run at advanced
  have inserted : ∀ other : String, run.steps[other]? =
      if flight.stepId = other then some flight.step else world.run.steps[other]? := by
    intro other
    rw [← written]
    exact getElem?_insert _ _ _ _
  have placed : Placed flow run := by
    refine ⟨covers_written kept.placed.covers inserted, ?_, ?_⟩
    · rw [← written]
      exact kept.placed.distinct
    · rw [← written]
      exact kept.placed.known
  obtain ⟨stepDef, step, accepts, left⟩ := advanceWorkflow_exit formed placed.covers advanced
  have agents : ∀ other, agentOf next.run other = if flight.stepId = other then some flight.agent else agentOf world.run other := by
    intro other
    rw [left, exit_agentOf accepts, agentOf_written inserted, assigned]
  refine ⟨?_, ?_, ?_, ?_⟩
  · rw [left]
    exact exit_placed placed
  · intro other name held
    rw [agents] at held
    split at held
    · cases held
      exact normal
    · exact kept.named other name held
  · rw [inFlight]
    exact kept.flying
  · intro other name latest
    rw [executions, latestExecutor_append] at latest
    rw [agents]
    split at latest
    · rename_i same
      rw [if_pos same]
      exact latest
    · rename_i different
      rw [if_neg different]
      exact kept.executed other name latest

/-- An attempt that ran and was not committed leaves things as they were if the step was already
assigned to the executing agent. -/
theorem Kept.ran (kept : Kept flow world) (stored : agentOf world.run stepId = some agent)
    (frame : Frame { world with executions := world.executions ++ [{ stepId, agent }] } next) : Kept flow next := by
  have after : Kept flow { world with executions := world.executions ++ [{ stepId, agent }] } := by
    refine ⟨kept.placed, kept.named, kept.flying, ?_⟩
    intro other name latest
    rw [latestExecutor_append] at latest
    split at latest
    · rename_i same
      cases latest
      rw [← same]
      exact stored
    · exact kept.executed other name latest
  exact after.frame frame

theorem signOff_ends (flow : WorkflowDef) (env : Env) (world : World) (verdict : Verdict) (stepId author : String)
    (reason : Option String) (ownerLogin : String) :
    Ends (fun halt => Frame world halt.world) (signOff flow env world verdict stepId author reason ownerLogin) fun next =>
      ∃ stepDef step recordId run, flow.findStep stepId = some stepDef ∧ stepId ∈ world.run.activeSteps ∧
        world.run.steps[stepId]? = some step ∧
        authorizeStepSignOff env.projectSlug stepDef step author env.agents ownerLogin = .ok () ∧
        advanceWorkflow flow
          { world.run with steps := world.run.steps.insert stepId (verdict.waiting stepDef step recordId) }
          (signOffReport verdict stepId reason) env.now = .ok run ∧
        next.run = { run with author } ∧ next.executions = world.executions ∧ next.inFlight = world.inFlight ∧
        ∃ state, next.decisions = world.decisions ++ [.move recordId state verdict.recordState (verdict == .approve)] := by
  have here := Frame.refl world
  refine ends_call here (ends_call here (ends_refuse here fun stepDef found => ends_refuse here fun _ active => ?_))
  refine ends_refuse here fun step held => ends_call here (ends_call here (ends_refuse here fun _ allowed => ?_))
  refine Ends.bind (ensureRecord_frame env world step) ?_
  rintro ⟨recorded, recordId⟩ ⟨frame, same⟩
  refine ends_call frame ?_
  rcases recorded.records[recordId]? with _ | state
  · exact frame
  have noted : Frame world { recorded with
      decisions := recorded.decisions ++ [.move recordId state verdict.recordState (verdict == .approve)] } :=
    frame.trans ⟨rfl, rfl, rfl⟩
  refine ends_call frame (Ends.bind ((setRecordState_frame env _ .settleRecordState recordId verdict.recordState).both
    (fun _ => noted.trans) fun _ both => And.intro (noted.trans both.1) both.2) ?_)
  rintro moved ⟨frame, decisions⟩
  refine ends_call frame (ends_advance frame fun run advanced => ends_call frame ?_)
  rw [frame.run] at advanced
  refine ⟨stepDef, step, recordId, run, findStepDef_ok found, Decidable.not_not.mp (refuseIf_ok active),
    findInstance_ok held, allowed, advanced, rfl, frame.executions, frame.inFlight, state, ?_⟩
  rw [← same]
  exact decisions

theorem signOff_kept (formed : WellFormed flow) (kept : Kept flow world) {verdict : Verdict}
    {reason : Option String} {ownerLogin : String} :
    Ends (fun halt => Kept flow halt.world) (signOff flow env world verdict stepId author reason ownerLogin)
      fun next => Kept flow next := by
  refine (signOff_ends flow env world verdict stepId author reason ownerLogin).both (fun _ => kept.frame) ?_
  rintro next ⟨stepDef, step, recordId, run, _, _, held, _, advanced, signed, executions, inFlight, _⟩
  generalize written : ({ world.run with
    steps := world.run.steps.insert stepId (verdict.waiting stepDef step recordId) } : WorkflowRun) = waiting at advanced
  have inserted : ∀ other : String, waiting.steps[other]? =
      if stepId = other then some (verdict.waiting stepDef step recordId) else world.run.steps[other]? := by
    intro other
    rw [← written]
    exact getElem?_insert _ _ _ _
  have placed : Placed flow waiting := by
    refine ⟨covers_written kept.placed.covers inserted, ?_, ?_⟩
    · rw [← written]
      exact kept.placed.distinct
    · rw [← written]
      exact kept.placed.known
  obtain ⟨settledDef, settled, accepts, left⟩ := advanceWorkflow_exit formed placed.covers advanced
  have exited : Placed flow run := by
    rw [left]
    exact exit_placed placed
  have agents : ∀ other, agentOf next.run other = agentOf world.run other := by
    intro other
    rw [signed]
    show agentOf run other = _
    rw [left, exit_agentOf accepts, agentOf_rewritten held inserted rfl]
  refine ⟨?_, ?_, ?_, ?_⟩
  · rw [signed]
    exact ⟨exited.covers, exited.distinct, exited.known⟩
  · intro other name assigned
    exact kept.named other name ((agents other).symm.trans assigned)
  · rw [inFlight]
    exact kept.flying
  · intro other name latest
    rw [executions] at latest
    exact (agents other).trans (kept.executed other name latest)

end Commands

def Command.signedOff : Command → Option (String × String)
  | .approve stepId author _ _ | .reject stepId author _ _ => some (stepId, author)
  | .assign _ _ _ _ | .begin _ | .finish _ _ _ => none

/-- Whoever starts to execute a reviewing step did not execute the reviewed one last, and whoever
signs a step off did not execute it last. -/
structure Separated (flow : WorkflowDef) (world : World) (event : Env × Command) : Prop where
  reviews : ∀ stepId agent stepDef reviewed executor, (command flow world event).2 = .acted (.started stepId agent) →
    flow.findStep stepId = some stepDef → stepDef.reviewsStep = some reviewed →
    latestExecutor world.executions reviewed = some executor → ¬ eqIgnoreAsciiCase agent executor
  signOffs : ∀ stepId author executor, event.2.signedOff = some (stepId, author) → (command flow world event).2 = .done →
    latestExecutor world.executions stepId = some executor → ¬ eqIgnoreAsciiCase author executor

/-- No step is assigned to another agent than the one that executed its latest attempt, and no
attempt of an agent that the step is not assigned to in the stored run goes uncommitted. -/
def KeepsExecutor (flow : WorkflowDef) (world : World) (event : Env × Command) : Prop :=
  match event.2 with
  | .assign stepId agent _ _ => (command flow world event).2 = .done →
    ∀ executor, latestExecutor world.executions stepId = some executor → nameKeyOf agent = executor
  | .finish flight _ (some _) => ∀ flying, world.inFlight[flight]? = some flying →
    (command flow world event).2 = .done ∨ agentOf world.run flying.stepId = some flying.agent
  | .finish _ _ none | .begin _ | .approve _ _ _ _ | .reject _ _ _ _ => True

section Histories

variable {flow : WorkflowDef} {world : World}

theorem finish_kept (formed : WellFormed flow) (kept : Kept flow world) {env : Env} {flight : Nat} {attemptId : Iri}
    {outcome : Option AttemptOutcome} (keeps : KeepsExecutor flow world (env, .finish flight attemptId outcome)) :
    Kept flow (command flow world (env, .finish flight attemptId outcome)).1 := by
  cases flying : world.inFlight[flight]? with
  | none =>
    unfold command
    simp only [flying]
    exact kept
  | some flown =>
    obtain ⟨assigned, normal⟩ := kept.flying flown (mem_of_getElem? flying)
    have landed : Kept flow { world with inFlight := world.inFlight.eraseIdx flight } :=
      ⟨kept.placed, kept.named, fun other member => kept.flying other (mem_of_mem_eraseIdx member), kept.executed⟩
    have shape : command flow world (env, .finish flight attemptId outcome) =
        answer (fun world => (world, .done))
          (finishWorkflowStep flow env { world with inFlight := world.inFlight.eraseIdx flight } flown attemptId outcome) := by
      unfold command
      simp only [flying]
    cases outcome with
    | none =>
      rw [shape]
      unfold finishWorkflowStep
      cases flow.findStep flown.stepId with
      | none | some _ => exact landed
    | some ran =>
      cases found : flow.findStep flown.stepId with
      | none =>
        rw [shape]
        unfold finishWorkflowStep
        simp only [found]
        exact landed
      | some stepDef =>
        have ends := commitAttempt_ends flow env
          { world with
            inFlight := world.inFlight.eraseIdx flight
            executions := world.executions ++ [{ stepId := flown.stepId, agent := flown.agent }] }
          flown stepDef attemptId ran
        have result : finishWorkflowStep flow env { world with inFlight := world.inFlight.eraseIdx flight } flown attemptId
            (some ran) = commitAttempt flow env
              { world with
                inFlight := world.inFlight.eraseIdx flight
                executions := world.executions ++ [{ stepId := flown.stepId, agent := flown.agent }] }
              flown stepDef attemptId ran := by
          unfold finishWorkflowStep
          simp only [found]
        have either := keeps flown flying
        rw [shape, result] at either
        rw [shape, result]
        cases committed : commitAttempt flow env
            { world with
              inFlight := world.inFlight.eraseIdx flight
              executions := world.executions ++ [{ stepId := flown.stepId, agent := flown.agent }] }
            flown stepDef attemptId ran with
        | error halt =>
          rw [committed] at ends either
          rcases either with done | stored
          · cases done
          · exact landed.ran stored ends
        | ok next =>
          rw [committed] at ends
          obtain ⟨executions, inFlight, advanced⟩ := ends
          exact commitAttempt_kept formed landed assigned normal executions inFlight advanced

theorem command_kept (formed : WellFormed flow) (event : Env × Command) (kept : Kept flow world)
    (keeps : KeepsExecutor flow world event) : Kept flow (command flow world event).1 := by
  obtain ⟨env, given⟩ := event
  cases given with
  | assign stepId agent adapter author =>
    have ends := assign_ends flow env world stepId agent adapter author
    unfold KeepsExecutor command at keeps
    unfold command
    dsimp only at keeps ⊢
    cases assigned : assignWorkflowStep flow env world stepId agent adapter author with
    | error halt =>
      rw [assigned] at ends
      exact kept.frame ends
    | ok next =>
      rw [assigned] at keeps
      exact assign_kept kept assigned (keeps rfl)
  | begin options => exact answer_ends (Kept flow) ((begin_kept env kept options).mono fun _ both => both.1)
  | finish flight attemptId outcome => exact finish_kept formed kept keeps
  | approve stepId author note ownerLogin
  | reject stepId author reason ownerLogin => exact answer_ends (Kept flow) (signOff_kept formed kept)

theorem command_separated (event : Env × Command) (kept : Kept flow world) : Separated flow world event := by
  obtain ⟨env, given⟩ := event
  have assigned : ∀ stepId executor, latestExecutor world.executions stepId = some executor →
      isNormalSlug executor ∧ ∃ step, world.run.steps[stepId]? = some step ∧ step.assignedAgent = some executor := by
    intro stepId executor latest
    have stored := kept.executed stepId executor latest
    exact ⟨kept.named stepId executor stored, agentOf_some stored⟩
  have signed : ∀ verdict stepId author reason ownerLogin executor,
      (answer (fun world => (world, Reply.done)) (signOff flow env world verdict stepId author reason ownerLogin)).2 = .done →
      latestExecutor world.executions stepId = some executor → ¬ eqIgnoreAsciiCase author executor := by
    intro verdict stepId author reason ownerLogin executor done latest
    have ends := signOff_ends flow env world verdict stepId author reason ownerLogin
    rcases result : signOff flow env world verdict stepId author reason ownerLogin with halt | next
    · rw [result] at done
      cases done
    rw [result] at ends
    obtain ⟨stepDef, step, _, _, _, _, held, allowed, _⟩ := ends
    obtain ⟨normal, stored, there, agent⟩ := assigned stepId executor latest
    rw [held] at there
    cases there
    exact authorizeStepSignOff_ok allowed agent normal
  constructor
  · intro stepId agent stepDef reviewed executor started found reviews latest
    obtain ⟨normal, step, held, agents⟩ := assigned reviewed executor latest
    cases given with
    | begin options =>
      have ends := begin_kept env kept options
      unfold command at started
      dsimp only at started
      rcases result : beginWorkflowStep flow env world options with halt | begun
      · rw [result] at started
        cases started
      rw [result] at started ends
      obtain ⟨checked, passed⟩ := ends.2 stepId agent (Reply.acted.inj started)
      exact validateReviewerIndependence_ok passed found reviews held agents normal
    | assign stepId agent adapter author =>
      unfold command answer at started
      dsimp only at started
      split at started <;> cases started
    | finish flight attemptId outcome =>
      unfold command answer at started
      dsimp only at started
      split at started
      · split at started <;> cases started
      · cases started
    | approve stepId author note ownerLogin | reject stepId author reason ownerLogin =>
      unfold command answer at started
      dsimp only at started
      split at started <;> cases started
  · intro stepId author executor who done latest
    cases given with
    | approve signedStep caller note ownerLogin =>
      cases who
      exact signed .approve stepId author note ownerLogin executor done latest
    | reject signedStep caller reason ownerLogin =>
      cases who
      exact signed .reject stepId author (some reason) ownerLogin executor done latest
    | assign stepId agent adapter author | begin options | finish flight attemptId outcome => cases who

theorem started_kept (started : Started flow run) : Kept flow (startedWorld run) := by
  refine ⟨started.placed, ?_, fun _ member => (nomatch member), ?_⟩
  · intro stepId agent assigned
    obtain ⟨step, held, name⟩ := agentOf_some assigned
    have fresh : (newSteps flow)[stepId]? = some step := by
      rw [← started.steps]
      exact held
    obtain ⟨stepDef, same⟩ := (newSteps_fresh flow).new stepId step fresh
    subst same
    cases name
  · intro stepId agent latest
    cases latest

/-- In every history of commands in which no step is given away after it ran and every attempt is
committed or its agent on record, reviews and sign-offs are never made by the agent that executed
the step's latest attempt. -/
theorem duties_separated {id : WorkflowRunId} {title author : String} {at_ : At} {start : WorkflowRun}
    (made : WorkflowRun.new id flow title at_ author = .ok start) (events : List (Env × Command))
    (keeps : Machine.Throughout (command flow) (KeepsExecutor flow) (startedWorld start) events) :
    Machine.Throughout (command flow) (Separated flow) (startedWorld start) events := by
  have started := new_started made
  exact keeps.mono (fun world event kept keeps => command_kept started.formed event kept keeps)
    (fun world event kept _ => command_separated event kept) (started_kept started)

end Histories

namespace Sample

def signed : WorkflowDef :=
  flow "write" [stepDef "write" (.humanSignOff .labManager) .all] [edge "write" endStep .pass]

def agent (nameKey displayName : String) (role : Agents.AgentRole) (registered : isNormalSlug nameKey = true) : AgentRecord :=
  { id := "urn:fl:agent:" ++ nameKey, nameKey, displayName, email := nameKey ++ "@artificialhumanity.io", project := "sample",
    role, extraAreas := [], status := .active, updatedAt := "1970-01-01T00:00:00.000Z", by_ := "owner", registered }

def felicia : AgentRecord := agent "felicia" "Felicia" .labManager (by decide)

def ferris : AgentRecord := agent "ferris" "Ferris" .lead (by decide)

def env : Env where
  agents := [felicia, ferris]
  projectSlug := "sample"
  resolveAdapter := some
  worktreeBranch := "fl/flow/1/write"
  newRecord := "urn:record:1"
  now := "1970-01-01T00:00:00.000Z"
  fails := fun _ => false

def completed : AttemptOutcome where
  completed := true
  status := "completed"
  tokensIn := 1
  tokensOut := 1
  costUsdMicros := 1
  failedGates := []

def executed : List (Env × Command) :=
  [(env, .assign "write" "felicia" none "owner"),
    (env, .begin { stepId := none, adapterOverride := none, offerOnly := false }),
    (env, .finish 0 "urn:attempt:1" (some completed))]

def selfApproved : List (Env × Command) :=
  executed ++ [(env, .assign "write" "ferris" none "owner"), (env, .approve "write" "Felicia" none "owner")]

end Sample

theorem duties_separated_sample :
    Machine.Throughout (command signed) (Separated signed) (startedWorld (started signed))
      executed := by
  have made : WorkflowRun.new "urn:run:1" signed "Run" "1970-01-01T00:00:00.000Z" "owner" =
      .ok (started signed) := rfl
  refine duties_separated made executed ⟨?_, trivial, ?_, trivial⟩
  · intro _ executor latest
    cases latest
  · intro flying _
    left
    decide

/-- Given to another agent after it ran, a step is approved by the agent that executed it. -/
theorem executor_approves_own_step :
    WorkflowRun.new "urn:run:1" signed "Run" "1970-01-01T00:00:00.000Z" "owner" = .ok (started signed) ∧
      ¬ Machine.Throughout (command signed) (Separated signed) (startedWorld (started signed))
        selfApproved := by
  refine ⟨rfl, ?_⟩
  intro separated
  obtain ⟨_, _, _, _, last, _⟩ := separated
  exact last.signOffs "write" "Felicia" "felicia" rfl (by decide) (by decide) (by decide)

end FerroLoop.Workflow

import FerroLoop.Workflow.Independence
import FerroLoop.Workflow.Runs

/-!
The workflow commands on one stored run: assigning a step, executing it, approving and rejecting
it. An execution loads the run, works for minutes and commits to the run as it is then, so it is
two steps of the model with any other commands between them.
-/

namespace FerroLoop.Workflow

open Text Checked

inductive Decision where
  | attempt (record : RecordId) (completed : Bool)
  | move (record : RecordId) (source target : State) (allowed : Bool)
  deriving DecidableEq

/-- An attempt that ran. -/
structure Execution where
  stepId : String
  agent : String
  deriving DecidableEq

/-- An execution between loading the run and committing to it, with its own copy of the step. -/
structure Flight where
  stepId : String
  agent : String
  recordId : RecordId
  step : StepInstance

structure World where
  run : WorkflowRun
  records : BTreeMap RecordId State
  decisions : List Decision
  executions : List Execution
  inFlight : List Flight

inductive Call where
  | getWorkflowRun
  | getWorkflowDef
  | getProject
  | listAgents
  | buildStepInstruction
  | sendWire
  | addRecord
  | getRecord
  | setRecordState
  | ensureIsolatedWorktree
  | appendAttempt
  | flushAttempt
  | runGate
  | flushDecision
  | recordStepHandoff
  | getFreshRun
  | settleRecordState
  | updateWorkflowRun
  deriving DecidableEq

inductive WorkflowExecError where
  | workflow (error : WorkflowError)
  | store (call : Call)
  | noSuchRecord (record : RecordId)
  | unknownAdapter (name : String)
  | attempt
  | panicked (message : String)
  deriving DecidableEq

structure Halt where
  error : WorkflowExecError
  world : World

/-- What a command meets outside the run: the registry, the area inferred for the project, the
known adapters, the clock, the id of a record it creates, and the calls that fail. -/
structure Env where
  agents : List AgentRecord
  projectSlug : String
  resolveAdapter : String → Option String
  worktreeBranch : String
  newRecord : RecordId
  now : At
  fails : Call → Bool

def Env.call (env : Env) (world : World) (call : Call) : Except Halt Unit :=
  refuseIf (env.fails call) ⟨.store call, world⟩

def refuse (world : World) {α : Type} : Except WorkflowError α → Except Halt α
  | .ok a => .ok a
  | .error error => .error ⟨.workflow error, world⟩

def advance (flow : WorkflowDef) (world : World) (run : WorkflowRun) (report : StepAttemptReport) (at_ : At) :
    Except Halt WorkflowRun :=
  match advanceWorkflow flow run report at_ with
  | .ok next => .ok next
  | .error (.refused error) => .error ⟨.workflow error, world⟩
  | .error (.panicked message) => .error ⟨.panicked message, world⟩

def findStepDef (flow : WorkflowDef) (stepId : String) : Except WorkflowError StepDef :=
  match flow.findStep stepId with
  | some stepDef => .ok stepDef
  | none => .error (.unknownStep stepId)

def findInstance (run : WorkflowRun) (stepId : String) : Except WorkflowError StepInstance :=
  match run.steps[stepId]? with
  | some step => .ok step
  | none => .error (.unknownStep stepId)

def assignedTo (step : StepInstance) (agent : String) (adapter : Option String) : StepInstance :=
  { step with
    assignedAgent := some agent
    adapterUsed := match adapter with
      | some name => some (nameKeyOf name)
      | none => step.adapterUsed }

def activeAgent (env : Env) (stepId agent : String) : Except WorkflowError AgentRecord :=
  match env.agents.find? fun candidate => candidate.status == .active && candidate.nameKey == nameKeyOf agent with
  | some found => .ok found
  | none => .error (.noEligibleAgent stepId)

def assignWorkflowStep (flow : WorkflowDef) (env : Env) (world : World) (stepId agent : String) (adapter : Option String)
    (author : String) : Except Halt World := do
  env.call world .getWorkflowRun
  let _ ← refuse world (findStepDef flow stepId)
  env.call world .listAgents
  let found ← refuse world (activeAgent env stepId agent)
  refuse world (validateReviewerIndependence flow world.run stepId found.nameKey adapter)
  let step ← refuse world (findInstance world.run stepId)
  env.call world .updateWorkflowRun
  .ok { world with
    run := { world.run with
      steps := world.run.steps.insert stepId (assignedTo step found.nameKey adapter), updatedAt := env.now, author } }

structure StepExecutionOptions where
  stepId : Option String
  adapterOverride : Option String
  offerOnly : Bool

inductive StepExecutionAction where
  | awaitingAssignment
  | offered (agent : String)
  | started (stepId agent : String)
  deriving DecidableEq

def atLimit (limit : Option UInt64) (used : UInt64) (reason : String → String) : Option String :=
  match limit with
  | some most => if most ≤ used then some (reason (toString most.toNat)) else none
  | none => none

section

variable (flow : WorkflowDef) (run : WorkflowRun)

def stepCeiling (stepId : String) : Option String :=
  match flow.findStep stepId, run.steps[stepId]? with
  | some stepDef, some step =>
    atLimit stepDef.budgetUsdMicros step.costUsdMicros
      (fun most => "step `" ++ stepId ++ "` reached budget_usd_micros (" ++ most ++ ")") <|>
    atLimit stepDef.maxTokens step.tokensUsed
      (fun most => "step `" ++ stepId ++ "` reached max_tokens (" ++ most ++ ")")
  | _, _ => none

def preflightCeiling (stepId : String) : Option String :=
  (if flow.maxTotalSteps ≤ run.totalStepsExecuted then
    some ("workflow reached max_total_steps (" ++ toString flow.maxTotalSteps.toNat ++ ")") else none) <|>
  atLimit flow.budgetUsdMicros run.totalCostUsdMicros
    (fun most => "workflow reached budget_usd_micros (" ++ most ++ ")") <|>
  atLimit flow.maxTokens run.totalTokens (fun most => "workflow reached max_tokens (" ++ most ++ ")") <|>
  stepCeiling flow run stepId

def chooseStep : Option String → Except WorkflowError String
  | some explicit => do
    refuseIf (explicit ∉ flow.stepIds) (.unknownStep explicit)
    refuseIf (explicit ∉ run.activeSteps) (.stepNotActive explicit)
    .ok explicit
  | none =>
    match run.activeSteps.find? (fun stepId => run.steps[stepId]?.any fun step => step.state != .needsHuman) <|>
        run.activeSteps.head? with
    | some stepId => .ok stepId
    | none => .error (.stepNotActive "<none>")

end

def resolveAgent (flow : WorkflowDef) (env : Env) (run : WorkflowRun) (stepId : String) (step : StepInstance)
    (adapterOverride : Option String) : Except WorkflowError (Option (StepInstance × String)) :=
  match step.assignedAgent with
  | some agent => do
    validateReviewerIndependence flow run stepId agent (adapterOverride <|> step.adapterUsed)
    .ok (some (step, agent))
  | none => do
    match ← selectStepAgent flow run stepId env.agents adapterOverride with
    | some selected =>
      .ok (some ({ step with
        assignedAgent := some selected.agentName, adapterUsed := selected.adapter <|> step.adapterUsed },
        selected.agentName))
    | none => .ok none

def commitStepSnapshot (world : World) (stepId : String) (step : StepInstance) (at_ : At) : World :=
  { world with run := { world.run with steps := world.run.steps.insert stepId step, updatedAt := at_ } }

section

variable (env : Env) (world : World)

def parkStep (stepId detail : String) : World :=
  if world.run.status.isTerminal then world
  else match world.run.steps[stepId]? with
    | some step => { world with run := { hold world.run stepId step (some detail) with updatedAt := env.now } }
    | none => { world with run := { world.run with status := .needsHuman, updatedAt := env.now } }

def rawAdapter (stepDef : StepDef) (step : StepInstance) (adapterOverride : Option String) : String :=
  (adapterOverride <|> step.adapterUsed <|> stepDef.assignee.adapter).getD "claude"

def ensureRecord (step : StepInstance) : Except Halt (World × RecordId) :=
  match step.recordId with
  | some recordId => .ok (world, recordId)
  | none => do
    env.call world .addRecord
    .ok ({ world with records := world.records.insert env.newRecord .todo }, env.newRecord)

def setRecordState (call : Call) (recordId : RecordId) (state : State) : Except Halt World := do
  env.call world call
  match world.records[recordId]? with
  | some _ => .ok { world with records := world.records.insert recordId state }
  | none => .error ⟨.noSuchRecord recordId, world⟩

def offerStep (stepId agent : String) (step : StepInstance) : Except Halt (World × StepExecutionAction) := do
  env.call world .sendWire
  env.call world .getFreshRun
  env.call world .updateWorkflowRun
  .ok (commitStepSnapshot world stepId { step with state := .doing } env.now, .offered agent)

end

section

variable (flow : WorkflowDef) (env : Env) (world : World)

def startAttempt (stepDef : StepDef) (stepId agent : String)
    (step : StepInstance) (adapterOverride : Option String) : Except Halt (World × StepExecutionAction) := do
  let adapter := rawAdapter stepDef step adapterOverride
  match env.resolveAdapter adapter with
  | none => .error ⟨.unknownAdapter adapter, world⟩
  | some wire =>
    refuse world (validateReviewerIndependence flow world.run stepId agent (some wire))
    env.call world .getProject
    let (world, recordId) ← ensureRecord env world step
    let world ← setRecordState env world .setRecordState recordId .doing
    let worktreeBranch ← if stepDef.isolateWorktree then do
        env.call world .ensureIsolatedWorktree
        .ok (some env.worktreeBranch)
      else .ok step.worktreeBranch
    let step := { step with recordId := some recordId, worktreeBranch, state := .doing, adapterUsed := some wire }
    .ok ({ world with inFlight := world.inFlight ++ [{ stepId, agent, recordId, step }] }, .started stepId agent)

def beginWorkflowStep (options : StepExecutionOptions) : Except Halt (World × StepExecutionAction) := do
  env.call world .getWorkflowRun
  env.call world .getWorkflowDef
  refuse world (refuseIf (world.run.status ≠ .running) (.runNotRunning world.run.status))
  let stepId ← refuse world (chooseStep flow world.run options.stepId)
  let stepDef ← refuse world (findStepDef flow stepId)
  env.call world .listAgents
  let step ← refuse world (findInstance world.run stepId)
  match ← refuse world (resolveAgent flow env world.run stepId step options.adapterOverride) with
  | none => .ok (world, .awaitingAssignment)
  | some (step, agent) =>
    env.call world .buildStepInstruction
    if options.offerOnly then offerStep env world stepId agent step
    else match preflightCeiling flow world.run stepId with
      | some detail => do
        env.call world .getFreshRun
        env.call world .updateWorkflowRun
        .error ⟨.workflow (.budgetExhausted stepId detail), parkStep env world stepId detail⟩
      | none => startAttempt flow env world stepDef stepId agent step options.adapterOverride

structure AttemptOutcome where
  completed : Bool
  status : String
  tokensIn : UInt64
  tokensOut : UInt64
  costUsdMicros : UInt64
  /-- The names of the gates that failed, for a step that is gated. -/
  failedGates : List String

def judge (stepDef : StepDef) (outcome : AttemptOutcome) : StepOutcome × Option String × State :=
  if !outcome.completed then (.fail, some ("attempt ended with status `" ++ outcome.status ++ "`"), .review)
  else match stepDef.completion with
    | .ungated => (.pass, none, .done)
    | .humanSignOff approvalTier =>
      (.needsHuman, some ("awaiting " ++ approvalTier.asWire ++ " sign-off"), .needsHuman)
    | .gated _ _ =>
      if outcome.failedGates = [] then (.pass, none, .done)
      else (.fail, some ("failed gates: " ++ ", ".intercalate outcome.failedGates), .review)

def consult (env : Env) (world : World) (stepDef : StepDef) (recordId : RecordId) (outcome : AttemptOutcome) :
    Except Halt World :=
  if !outcome.completed then .ok world
  else match stepDef.completion with
    | .ungated => .ok world
    | .humanSignOff _ => do
      env.call world .sendWire
      .ok world
    | .gated _ _ => do
      env.call world .runGate
      env.call world .getRecord
      match world.records[recordId]? with
      | none => .error ⟨.noSuchRecord recordId, world⟩
      | some state =>
        env.call world .flushDecision
        .ok { world with
          decisions := world.decisions ++ [.move recordId state (judge stepDef outcome).2.2 outcome.failedGates.isEmpty] }

section

variable (flight : Flight) (stepDef : StepDef) (attemptId : Iri) (outcome : AttemptOutcome)

def attemptReport : StepAttemptReport where
  stepId := flight.stepId
  outcome := (judge stepDef outcome).1
  attemptIri := some attemptId
  tokensUsed := saturatingAdd outcome.tokensIn outcome.tokensOut
  costUsdMicros := outcome.costUsdMicros
  reason := (judge stepDef outcome).2.1

/-- What follows an attempt that ran: the ledger, the completion mode, the handoff, and the
commit onto the run as it is now. -/
def commitAttempt : Except Halt World := do
  env.call world .appendAttempt
  let world := if env.fails .flushAttempt then world
    else { world with decisions := world.decisions ++ [.attempt flight.recordId outcome.completed] }
  let world ← consult env world stepDef flight.recordId outcome
  let world ← setRecordState env world .settleRecordState flight.recordId (judge stepDef outcome).2.2
  env.call world .recordStepHandoff
  env.call world .getFreshRun
  let run ← advance flow world { world.run with steps := world.run.steps.insert flight.stepId flight.step }
    (attemptReport flight stepDef attemptId outcome) env.now
  env.call world .updateWorkflowRun
  .ok { world with run }

end

def finishWorkflowStep (flight : Flight) (attemptId : Iri) (outcome : Option AttemptOutcome) : Except Halt World :=
  match flow.findStep flight.stepId, outcome with
  | some stepDef, some outcome =>
    commitAttempt flow env
      { world with executions := world.executions ++ [{ stepId := flight.stepId, agent := flight.agent }] }
      flight stepDef attemptId outcome
  | _, _ => .error ⟨.attempt, world⟩

end

inductive Verdict where
  | approve
  | reject
  deriving DecidableEq

def Verdict.recordState : Verdict → State
  | .approve => .done
  | .reject => .review

def Verdict.outcome : Verdict → StepOutcome
  | .approve => .pass
  | .reject => .fail

def Verdict.waiting (verdict : Verdict) (stepDef : StepDef) (step : StepInstance) (recordId : RecordId) : StepInstance :=
  { step with
    recordId := some recordId, state := .needsHuman
    attemptCount := match verdict with
      | .approve => max step.attemptCount 1
      | .reject => max stepDef.maxAttempts 1 }

def signOffReport (verdict : Verdict) (stepId : String) (reason : Option String) : StepAttemptReport where
  stepId := stepId
  outcome := verdict.outcome
  attemptIri := none
  tokensUsed := 0
  costUsdMicros := 0
  reason := reason

section

variable (flow : WorkflowDef) (env : Env) (world : World)

/-- Approving and rejecting are the same but for the decision, the copy and the outcome. -/
def signOff (verdict : Verdict) (stepId author : String)
    (reason : Option String) (ownerLogin : String) : Except Halt World := do
  env.call world .getWorkflowRun
  env.call world .getWorkflowDef
  let stepDef ← refuse world (findStepDef flow stepId)
  refuse world (refuseIf (stepId ∉ world.run.activeSteps) (.stepNotActive stepId))
  let step ← refuse world (findInstance world.run stepId)
  env.call world .getProject
  env.call world .listAgents
  refuse world (authorizeStepSignOff env.projectSlug stepDef step author env.agents ownerLogin)
  let (world, recordId) ← ensureRecord env world step
  env.call world .getRecord
  match world.records[recordId]? with
  | none => .error ⟨.noSuchRecord recordId, world⟩
  | some state =>
    env.call world .flushDecision
    let world := { world with
      decisions := world.decisions ++ [.move recordId state verdict.recordState (verdict == .approve)] }
    let world ← setRecordState env world .settleRecordState recordId verdict.recordState
    env.call world .recordStepHandoff
    let run ← advance flow world
      { world.run with steps := world.run.steps.insert stepId (verdict.waiting stepDef step recordId) }
      (signOffReport verdict stepId reason) env.now
    env.call world .updateWorkflowRun
    .ok { world with run := { run with author } }

def approveWorkflowStep (stepId author : String) (note : Option String) (ownerLogin : String) : Except Halt World :=
  signOff flow env world .approve stepId author note ownerLogin

def rejectWorkflowStep (stepId author reason ownerLogin : String) : Except Halt World :=
  signOff flow env world .reject stepId author (some reason) ownerLogin

end

inductive Command where
  | assign (stepId agent : String) (adapter : Option String) (author : String)
  | begin (options : StepExecutionOptions)
  | finish (flight : Nat) (attemptId : Iri) (outcome : Option AttemptOutcome)
  | approve (stepId author : String) (note : Option String) (ownerLogin : String)
  | reject (stepId author reason ownerLogin : String)

inductive Reply where
  | done
  | acted (action : StepExecutionAction)
  | failed (error : WorkflowExecError)
  | idle
  deriving DecidableEq

def answer {α : Type} (reply : α → World × Reply) : Except Halt α → World × Reply
  | .ok a => reply a
  | .error halt => (halt.world, .failed halt.error)

def command (flow : WorkflowDef) (world : World) (event : Env × Command) : World × Reply :=
  match event.2 with
  | .assign stepId agent adapter author =>
    answer (fun world => (world, .done)) (assignWorkflowStep flow event.1 world stepId agent adapter author)
  | .begin options =>
    answer (fun (world, action) => (world, .acted action)) (beginWorkflowStep flow event.1 world options)
  | .finish flight attemptId outcome =>
    match world.inFlight[flight]? with
    | some flying =>
      answer (fun world => (world, .done))
        (finishWorkflowStep flow event.1 { world with inFlight := world.inFlight.eraseIdx flight } flying attemptId outcome)
    | none => (world, .idle)
  | .approve stepId author note ownerLogin =>
    answer (fun world => (world, .done)) (approveWorkflowStep flow event.1 world stepId author note ownerLogin)
  | .reject stepId author reason ownerLogin =>
    answer (fun world => (world, .done)) (rejectWorkflowStep flow event.1 world stepId author reason ownerLogin)

def startedWorld (run : WorkflowRun) : World where
  run := run
  records := ∅
  decisions := []
  executions := []
  inFlight := []

end FerroLoop.Workflow

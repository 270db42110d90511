import FerroLoop.Workflow.Definition
import FerroLoop.Lib.Map

/-!
Runs of a workflow and the step scheduler: what a report of one step attempt, or of a sign-off
decision, does to a run.
-/

namespace FerroLoop.Workflow

open Text Checked

inductive State where
  | todo
  | doing
  | review
  | done
  | needsHuman
  deriving DecidableEq

inductive StepOutcome where
  | pass
  | fail
  | needsHuman
  deriving DecidableEq

structure StepInstance where
  stepId : String
  visitCount : UInt32
  attemptCount : UInt32
  state : State
  assignedAgent : Option String
  adapterUsed : Option String
  recordId : Option RecordId
  latestAttempt : Option Iri
  lastOutcome : Option StepOutcome
  tokensUsed : UInt64
  costUsdMicros : UInt64
  worktreeBranch : Option String
  needsHumanReason : Option String
  deriving DecidableEq

structure WorkflowRun where
  id : WorkflowRunId
  workflowId : WorkflowId
  project : ProjectId
  title : String
  status : WorkflowRunStatus
  activeSteps : List String
  steps : BTreeMap String StepInstance
  totalStepsExecuted : UInt32
  totalTokens : UInt64
  totalCostUsdMicros : UInt64
  createdAt : At
  updatedAt : At
  author : String

/-- Why a call does not return: an error for its caller, or a broken expectation. -/
inductive Stop where
  | refused (error : WorkflowError)
  | panicked (message : String)
  deriving DecidableEq

section

variable (flow : WorkflowDef)

def newInstance (stepDef : StepDef) : StepInstance where
  stepId := stepDef.stepId
  visitCount := if stepDef.stepId = flow.startStep then 1 else 0
  attemptCount := 0
  state := .todo
  assignedAgent := none
  adapterUsed := none
  recordId := none
  latestAttempt := none
  lastOutcome := none
  tokensUsed := 0
  costUsdMicros := 0
  worktreeBranch := none
  needsHumanReason := none

def newSteps : BTreeMap String StepInstance :=
  flow.steps.foldl (fun steps stepDef => steps.insert stepDef.stepId (newInstance flow stepDef)) ∅

def WorkflowRun.new (id : WorkflowRunId) (flow : WorkflowDef) (title : String) (at_ : At) (author : String) :
    Except WorkflowError WorkflowRun := do
  validateWorkflowDef flow
  refuseIf (trim title = "") .emptyTitle
  .ok {
    id, workflowId := flow.id, project := flow.project, title, status := .running
    activeSteps := [flow.startStep], steps := newSteps flow
    totalStepsExecuted := 0, totalTokens := 0, totalCostUsdMicros := 0
    createdAt := at_, updatedAt := at_, author }

structure StepAttemptReport where
  stepId : String
  outcome : StepOutcome
  attemptIri : Option Iri
  tokensUsed : UInt64
  costUsdMicros : UInt64
  reason : Option String

def saturatingAdd (a b : UInt64) : UInt64 :=
  if a.toNat + b.toNat < 2 ^ 64 then a + b else 0xFFFFFFFFFFFFFFFF

def resolvesSignOff (step : StepInstance) (report : StepAttemptReport) : Bool :=
  step.state == .needsHuman && 0 < step.attemptCount && report.attemptIri.isNone && report.tokensUsed == 0 &&
    report.costUsdMicros == 0

def chargeStep (step : StepInstance) (report : StepAttemptReport) : StepInstance :=
  { step with
    attemptCount := if resolvesSignOff step report then step.attemptCount else step.attemptCount + 1
    tokensUsed := saturatingAdd step.tokensUsed report.tokensUsed
    costUsdMicros := saturatingAdd step.costUsdMicros report.costUsdMicros
    latestAttempt := if report.attemptIri.isSome then report.attemptIri else step.latestAttempt }

section

variable (run : WorkflowRun)

def charge (step : StepInstance) (report : StepAttemptReport) (at_ : At) : WorkflowRun :=
  { run with
    steps := run.steps.insert report.stepId (chargeStep step report)
    totalStepsExecuted := if resolvesSignOff step report then run.totalStepsExecuted else run.totalStepsExecuted + 1
    totalTokens := saturatingAdd run.totalTokens report.tokensUsed
    totalCostUsdMicros := saturatingAdd run.totalCostUsdMicros report.costUsdMicros
    updatedAt := at_ }

def overLimit (limit : Option UInt64) (used : UInt64) (reason : String → String) : Option String :=
  match limit with
  | some most => if most < used then some (reason (toString most.toNat)) else none
  | none => none

def ceilingReason (stepDef : StepDef) (run : WorkflowRun) (step : StepInstance) : Option String :=
  (if flow.maxTotalSteps < run.totalStepsExecuted then
    some ("workflow exceeded max_total_steps (" ++ toString flow.maxTotalSteps.toNat ++ ")") else none) <|>
  overLimit flow.budgetUsdMicros run.totalCostUsdMicros
    (fun most => "workflow exceeded budget_usd_micros (" ++ most ++ ")") <|>
  overLimit flow.maxTokens run.totalTokens (fun most => "workflow exceeded max_tokens (" ++ most ++ ")") <|>
  overLimit stepDef.budgetUsdMicros step.costUsdMicros
    (fun most => "step `" ++ stepDef.stepId ++ "` exceeded budget_usd_micros (" ++ most ++ ")") <|>
  overLimit stepDef.maxTokens step.tokensUsed
    (fun most => "step `" ++ stepDef.stepId ++ "` exceeded max_tokens (" ++ most ++ ")")

/-! ### Which way a report takes its step -/

inductive Route where
  | hold (reason : Option String)
  | retry
  | leave (outcome : StepOutcome)
  deriving DecidableEq

def StepCompletion.isHumanSignOff : StepCompletion → Bool
  | .humanSignOff _ => true
  | .gated _ _ | .ungated => false

def holdReason (stepDef : StepDef) : String :=
  match stepDef.completion with
  | .humanSignOff approvalTier => "awaiting " ++ approvalTier.asWire ++ " sign-off"
  | .gated _ _ | .ungated => "step requested human intervention"

section

variable (stepId : String)

def hasNeedsHumanEdge : Bool :=
  flow.edges.any fun edge => edge.fromStep == stepId && edge.on == .needsHuman

/-- The ceilings, the retry of a failed attempt and the hold for a human, in this order; the
run and the step are the charged ones. -/
def route (stepDef : StepDef) (run : WorkflowRun) (step : StepInstance) (wasNeedsHuman : Bool)
    (report : StepAttemptReport) : Route :=
  match ceilingReason flow stepDef run step with
  | some reason => .hold (some reason)
  | none =>
    if !wasNeedsHuman && report.outcome == .fail && step.attemptCount < stepDef.maxAttempts then .retry
    else
      let requiresSignOffHold := !wasNeedsHuman && report.outcome == .pass && stepDef.completion.isHumanSignOff
      if (report.outcome == .needsHuman || requiresSignOffHold) && !hasNeedsHumanEdge flow report.stepId then
        .hold (report.reason <|> some (holdReason stepDef))
      else .leave (if requiresSignOffHold then .needsHuman else report.outcome)

section

variable (step : StepInstance) (reason : Option String)

def heldStep : StepInstance :=
  { step with state := .needsHuman, lastOutcome := some .needsHuman, needsHumanReason := reason }

def hold : WorkflowRun :=
  { run with status := .needsHuman, steps := run.steps.insert stepId (heldStep step reason) }

def retriedStep : StepInstance :=
  { step with state := .todo, lastOutcome := some .fail, needsHumanReason := reason }

def retry : WorkflowRun :=
  { run with steps := run.steps.insert stepId (retriedStep step reason) }

end

def settledState : StepOutcome → State
  | .pass => .done
  | .fail => .review
  | .needsHuman => .needsHuman

def isIn (state : State) : Bool :=
  run.steps[stepId]?.any fun step => step.state == state

def settledStep (step : StepInstance) (outcome : StepOutcome) (reason : Option String) : StepInstance :=
  { step with
    lastOutcome := some outcome, state := settledState outcome
    needsHumanReason := if outcome = .needsHuman then reason else none }

def deactivate (step : StepInstance) : WorkflowRun :=
  { run with activeSteps := run.activeSteps.filter (· != stepId), steps := run.steps.insert stepId step }

end

def refreshStatus : WorkflowRun :=
  if run.status = .needsHuman ∧ ¬ run.activeSteps.any (fun stepId => isIn run stepId .needsHuman) then
    { run with status := .running }
  else run

def leave (stepId : String) (step : StepInstance) (outcome : StepOutcome) (reason : Option String) : WorkflowRun :=
  refreshStatus (deactivate run stepId (settledStep step outcome reason))

def edgeMatches : EdgeCondition → StepOutcome → Bool
  | .always, _ => true
  | .pass, outcome => outcome == .pass
  | .fail, outcome => outcome == .fail
  | .needsHuman, outcome => outcome == .needsHuman

def matchingEdges (stepId : String) (outcome : StepOutcome) : List EdgeDef :=
  flow.edges.filter fun edge => edge.fromStep == stepId && edgeMatches edge.on outcome

def EdgeCondition.isJoined : EdgeCondition → Bool
  | .pass | .always => true
  | .fail | .needsHuman => false

def incomingPreds (target : String) : List String :=
  (flow.edges.filter fun edge => edge.toStep == target && edge.on.isJoined).map (·.fromStep)

def visitsOf (stepId : String) : UInt32 :=
  run.steps[stepId]?.elim 0 (·.visitCount)

def joinHolds (isDone : String → Bool) (targetVisit : UInt32) (reporter : String)
    (visitCount : UInt32) (edge : EdgeDef) (targetDef : StepDef) : Bool :=
  if edge.on.isJoined then
    let preds := incomingPreds flow edge.toStep
    let doneCount := preds.countP fun pred => pred == reporter || isDone pred
    match targetDef.joinPolicy with
    | .all => doneCount == preds.length
    | .any => 1 ≤ doneCount && targetVisit < visitCount
    | .nOfM required => required.toNat ≤ doneCount && targetVisit < visitCount
  else true

def joinSatisfied (reporter : String) (visitCount : UInt32) (edge : EdgeDef) (targetDef : StepDef) : Bool :=
  joinHolds flow (fun pred => isIn run pred .done) (visitsOf run edge.toStep) reporter visitCount edge targetDef

def visitsReason (targetDef : StepDef) (target : String) : String :=
  "step `" ++ target ++ "` exceeded max_visits (" ++ toString targetDef.maxVisits.toNat ++ ")"

def visitedStep (targetDef : StepDef) (target : String) (step : StepInstance) : StepInstance :=
  if targetDef.maxVisits < step.visitCount + 1 then
    { step with
      visitCount := step.visitCount + 1, attemptCount := 0, state := .needsHuman, lastOutcome := some .needsHuman
      needsHumanReason := some (visitsReason targetDef target) }
  else { step with visitCount := step.visitCount + 1, attemptCount := 0, state := .todo, needsHumanReason := none }

def activate (target : String) (targetDef : StepDef) (step : StepInstance) : WorkflowRun :=
  { run with
    status := if targetDef.maxVisits < step.visitCount + 1 then .needsHuman else run.status
    activeSteps := run.activeSteps ++ [target]
    steps := run.steps.insert target (visitedStep targetDef target step) }

end

def followEdge (reporter : String) (visitCount : UInt32) (run : WorkflowRun) (edge : EdgeDef) :
    Except Stop WorkflowRun :=
  if edge.toStep = endStep then .ok run
  else match flow.findStep edge.toStep with
    | none => .error (.panicked "validate_workflow_def guarantees edge target exists")
    | some targetDef =>
      if joinSatisfied flow run reporter visitCount edge targetDef ∧ edge.toStep ∉ run.activeSteps then
        match run.steps[edge.toStep]? with
        | none => .error (.panicked "target step exists in run.steps")
        | some step => .ok (activate run edge.toStep targetDef step)
      else .ok run

def outgoing (stepId : String) : List EdgeDef :=
  flow.edges.filter fun edge => edge.fromStep == stepId

end

def JoinPolicy.isEarly : JoinPolicy → Bool
  | .any | .nOfM _ => true
  | .all => false

section

variable (flow : WorkflowDef) (run : WorkflowRun)

def feedsPassedJoin (edge : EdgeDef) : Bool :=
  edge.toStep != endStep && (flow.steps.any fun step => step.stepId == edge.toStep && step.joinPolicy.isEarly) &&
    run.steps[edge.toStep]?.any fun step => 0 < step.visitCount && step.state == .done

def isBypassed (stepId : String) : Bool :=
  !(outgoing flow stepId).isEmpty && (outgoing flow stepId).all (feedsPassedJoin flow run)

def prune : WorkflowRun :=
  { run with activeSteps := run.activeSteps.filter fun stepId => !isBypassed flow run stepId }

end

def complete (run : WorkflowRun) : WorkflowRun :=
  if run.activeSteps = [] ∧ run.status = .running then { run with status := .completed } else run

def leadsToEnd (edges : List EdgeDef) : Bool :=
  edges.any fun edge => edge.toStep == endStep

def follow (flow : WorkflowDef) (stepId : String) (visitCount : UInt32) (outcome : StepOutcome) (run : WorkflowRun) :
    Except Stop WorkflowRun :=
  let edges := matchingEdges flow stepId outcome
  if edges = [] then
    .ok (if outcome = .fail ∧ run.activeSteps = [] then { run with status := .failed } else run)
  else do
    let followed ← edges.foldlM (followEdge flow stepId visitCount) run
    .ok (if leadsToEnd edges then complete (prune flow followed) else followed)

def settle (flow : WorkflowDef) (stepDef : StepDef) (run : WorkflowRun) (step : StepInstance) (wasNeedsHuman : Bool)
    (report : StepAttemptReport) : Except Stop WorkflowRun :=
  match route flow stepDef run step wasNeedsHuman report with
  | .hold reason => .ok (hold run report.stepId step reason)
  | .retry => .ok (retry run report.stepId step report.reason)
  | .leave outcome =>
    follow flow report.stepId step.visitCount outcome (leave run report.stepId step outcome report.reason)

def advanceWorkflow (flow : WorkflowDef) (run : WorkflowRun) (report : StepAttemptReport) (at_ : At) :
    Except Stop WorkflowRun :=
  if run.status.isTerminal then .error (.refused (.runNotRunning run.status))
  else match flow.findStep report.stepId with
    | none => .error (.refused (.unknownStep report.stepId))
    | some stepDef =>
      if report.stepId ∉ run.activeSteps then .error (.refused (.stepNotActive report.stepId))
      else match run.steps[report.stepId]? with
        | none => .error (.refused (.unknownStep report.stepId))
        | some step =>
          settle flow stepDef (charge run step report at_) (chargeStep step report) (step.state == .needsHuman) report

end FerroLoop.Workflow

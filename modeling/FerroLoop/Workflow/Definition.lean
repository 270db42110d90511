import FerroLoop.Agents.Records
import FerroLoop.Lib.Worklist
import Std.Data.ExtTreeMap

/-!
Workflow definitions: directed graphs of steps, and the static checks a definition passes
before a run of it is made.
-/

namespace FerroLoop.Workflow

open Text Checked List
open Agents (AgentRole isSlugChar validateSlug)

abbrev BTreeMap (κ ν : Type) [Ord κ] := Std.ExtTreeMap κ ν compare

abbrev Iri := String

abbrev WorkflowId := Iri

abbrev WorkflowRunId := Iri

abbrev ProjectId := Iri

abbrev RecordId := Iri

abbrev GateId := Iri

abbrev At := String

def endStep : String := "END"

inductive ApprovalTier where
  | owner
  | labManager
  | lead
  deriving DecidableEq

def ApprovalTier.asWire : ApprovalTier → String
  | .owner => "owner"
  | .labManager => "lab_manager"
  | .lead => "lead"

inductive AssigneeRule where
  | agent (name : String)
  | selector (role : Option AgentRole) (area adapter : Option String)
  | manual
  deriving DecidableEq

/-- How bad it is if a transition proceeds on a false pass. -/
inductive Regret where
  | low
  | high
  deriving DecidableEq

inductive StepCompletion where
  | gated (gates : List GateId) (regret : Regret)
  | humanSignOff (approvalTier : ApprovalTier)
  | ungated
  deriving DecidableEq

/-- Fan-in of a step with several incoming edges. -/
inductive JoinPolicy where
  | all
  | any
  | nOfM (required : UInt32)
  deriving DecidableEq

structure StepDef where
  stepId : String
  title : String
  prompt : String
  assignee : AssigneeRule
  reviewsStep : Option String
  requireDifferentVendor : Bool
  completion : StepCompletion
  joinPolicy : JoinPolicy
  maxAttempts : UInt32
  maxVisits : UInt32
  budgetUsdMicros : Option UInt64
  maxTokens : Option UInt64
  isolateWorktree : Bool

inductive EdgeCondition where
  | pass
  | fail
  | needsHuman
  | always
  deriving DecidableEq

structure EdgeDef where
  fromStep : String
  toStep : String
  on : EdgeCondition
  deriving DecidableEq

inductive MergeMode where
  | conflict
  | append
  | lastWriter
  deriving DecidableEq

structure WorkflowDef where
  id : WorkflowId
  project : ProjectId
  slug : String
  title : String
  startStep : String
  steps : List StepDef
  edges : List EdgeDef
  maxTotalSteps : UInt32
  budgetUsdMicros : Option UInt64
  maxTokens : Option UInt64
  declaredKeys : BTreeMap String MergeMode
  authoredAtCommit : String
  authoredBy : String

inductive WorkflowRunStatus where
  | running
  | needsHuman
  | completed
  | failed
  | canceled
  deriving DecidableEq

def WorkflowRunStatus.isTerminal : WorkflowRunStatus → Bool
  | .completed | .failed | .canceled => true
  | .running | .needsHuman => false

inductive ReviewIndependenceViolation where
  | sameAgent (stepId reviewsStep agent : String)
  | sameVendor (stepId reviewsStep vendor : String)
  deriving DecidableEq

inductive WorkflowError where
  | invalidSlug (slug : String)
  | emptyTitle
  | emptySteps
  | reservedStepId (stepId : String)
  | duplicateStepId (stepId : String)
  | emptyStepTitle (stepId : String)
  | unknownStartStep (stepId : String)
  | invalidStepLimits (detail : String)
  | unknownEdgeStep (fromStep toStep : String)
  | invalidReviewTarget (stepId target : String)
  | invalidJoinThreshold (stepId : String) (required : UInt32) (incoming : Nat)
  | invalidDeclaredKey (key : String)
  | emptyStepGates (stepId : String)
  | unreachableEnd (stepId : String)
  | unknownStep (stepId : String)
  | stepNotActive (stepId : String)
  | runNotRunning (status : WorkflowRunStatus)
  | reviewIndependence (violation : ReviewIndependenceViolation)
  | noEligibleAgent (stepId : String)
  | selfApprovalForbidden (stepId caller : String)
  | insufficientApprovalAuthority (stepId caller : String) (required : ApprovalTier)
  | budgetExhausted (stepId detail : String)
  deriving DecidableEq

def isNormalSlug (text : String) : Bool :=
  match validateSlug text with
  | .ok normalized => normalized == text
  | .error _ => false

def validateStepDef (before : List String) (step : StepDef) : Except WorkflowError (List String) :=
  if eqIgnoreAsciiCase step.stepId endStep then .error (.reservedStepId step.stepId)
  else if !isNormalSlug step.stepId then .error (.invalidSlug step.stepId)
  else if trim step.title = "" then .error (.emptyStepTitle step.stepId)
  else if step.stepId ∈ before then .error (.duplicateStepId step.stepId)
  else .ok (before ++ [step.stepId])

def validateLimits (step : StepDef) : Except WorkflowError Unit :=
  refuseIf (step.maxAttempts = 0 ∨ step.maxVisits = 0)
    (.invalidStepLimits ("step `" ++ step.stepId ++ "` must have max_attempts > 0 and max_visits > 0"))

def validateEdge (stepIds : List String) (edge : EdgeDef) : Except WorkflowError Unit :=
  refuseIf (¬ (edge.fromStep ∈ stepIds ∧ (edge.toStep = endStep ∨ edge.toStep ∈ stepIds)))
    (.unknownEdgeStep edge.fromStep edge.toStep)

section

variable (flow : WorkflowDef)

def incoming (stepId : String) : List EdgeDef :=
  flow.edges.filter fun edge => edge.toStep == stepId

def validateReviewTarget (stepIds : List String) (step : StepDef) : Except WorkflowError Unit :=
  match step.reviewsStep with
  | some target => refuseIf (target = step.stepId ∨ target ∉ stepIds) (.invalidReviewTarget step.stepId target)
  | none => .ok ()

def validateJoinThreshold (step : StepDef) : Except WorkflowError Unit :=
  match step.joinPolicy with
  | .nOfM required =>
    let incoming := (incoming flow step.stepId).length
    refuseIf (required = 0 ∨ incoming < required.toNat) (.invalidJoinThreshold step.stepId required incoming)
  | .all | .any => .ok ()

def validateGates (step : StepDef) : Except WorkflowError Unit :=
  match step.completion with
  | .gated [] _ => .error (.emptyStepGates step.stepId)
  | .gated (_ :: _) _ | .humanSignOff _ | .ungated => .ok ()

def validateWiring (stepIds : List String) (step : StepDef) : Except WorkflowError Unit := do
  validateReviewTarget stepIds step
  validateJoinThreshold flow step
  validateGates step

def validateDeclaredKey (key : String) : Except WorkflowError Unit :=
  refuseIf (!isNormalSlug key) (.invalidDeclaredKey key)

def successors (stepId : String) : List String :=
  (flow.edges.filter fun edge => edge.fromStep == stepId && edge.toStep != endStep).map (·.toStep)

def predecessors (stepId : String) : List String :=
  (flow.edges.filter fun edge => edge.toStep == stepId).map (·.fromStep)

end

-- Every node but the first one of a search is pushed for an edge of its own, so a search takes
-- at most one turn more than there are edges.
section

variable (flow : WorkflowDef)

def reachableFromStart : List String :=
  Worklist.search (successors flow) (flow.edges.length + 1) [flow.startStep] [flow.startStep]

def canReachEnd : List String :=
  let last := Worklist.discover (predecessors flow endStep) [] []
  Worklist.search (predecessors flow) (flow.edges.length + 1) last.1 last.2

def validateReachability (step : StepDef) : Except WorkflowError Unit :=
  refuseIf (step.stepId ∈ reachableFromStart flow ∧ step.stepId ∉ canReachEnd flow) (.unreachableEnd step.stepId)

def validateWorkflowDef : Except WorkflowError Unit := do
  refuseIf (!isNormalSlug flow.slug) (.invalidSlug flow.slug)
  refuseIf (trim flow.title = "") .emptyTitle
  refuseIf (flow.steps = []) .emptySteps
  let stepIds ← flow.steps.foldlM validateStepDef []
  refuseIf (flow.startStep ∉ stepIds) (.unknownStartStep flow.startStep)
  refuseIf (flow.maxTotalSteps = 0) (.invalidStepLimits "max_total_steps must be greater than 0")
  flow.steps.forM validateLimits
  flow.edges.forM (validateEdge stepIds)
  flow.steps.forM (validateWiring flow stepIds)
  flow.declaredKeys.keys.forM validateDeclaredKey
  flow.steps.forM (validateReachability flow)

def WorkflowDef.stepIds : List String :=
  flow.steps.map (·.stepId)

def WorkflowDef.findStep (stepId : String) : Option StepDef :=
  flow.steps.find? fun step => step.stepId == stepId

end

structure WellFormed (flow : WorkflowDef) : Prop where
  distinct : flow.stepIds.Nodup
  named : ∀ stepId ∈ flow.stepIds, isNormalSlug stepId
  reserved : endStep ∉ flow.stepIds
  start : flow.startStep ∈ flow.stepIds
  limits : ∀ step ∈ flow.steps, step.maxAttempts ≠ 0 ∧ step.maxVisits ≠ 0
  edges : ∀ edge ∈ flow.edges, edge.fromStep ∈ flow.stepIds ∧ (edge.toStep = endStep ∨ edge.toStep ∈ flow.stepIds)
  reviews : ∀ step ∈ flow.steps, ∀ target, step.reviewsStep = some target →
    target ≠ step.stepId ∧ target ∈ flow.stepIds

theorem endStep_lower (stepId : String) (same : stepId = endStep) : eqIgnoreAsciiCase stepId endStep = true := by
  subst same
  exact beq_self_eq_true _

variable {step : StepDef} {flow : WorkflowDef} {before after : List String}

theorem validateStepDef_ok (accepted : validateStepDef before step = .ok after) :
    after = before ++ [step.stepId] ∧ step.stepId ≠ endStep ∧ isNormalSlug step.stepId ∧ step.stepId ∉ before := by
  unfold validateStepDef at accepted
  split at accepted
  · cases accepted
  rename_i free
  split at accepted
  · cases accepted
  rename_i slug
  split at accepted
  · cases accepted
  split at accepted
  · cases accepted
  rename_i fresh
  cases accepted
  refine ⟨rfl, ?_, by simpa using slug, fresh⟩
  intro same
  exact free (endStep_lower _ same)

theorem validateStepDefs_ok {steps : List StepDef} (distinct : before.Nodup)
    (accepted : steps.foldlM validateStepDef before = .ok after) :
    after = before ++ steps.map (·.stepId) ∧ after.Nodup ∧
      ∀ step ∈ steps, step.stepId ≠ endStep ∧ isNormalSlug step.stepId := by
  induction steps generalizing before with
  | nil =>
    cases accepted
    exact ⟨(append_nil _).symm, distinct, fun _ member => nomatch member⟩
  | cons step rest ih =>
    obtain ⟨middle, first, others⟩ := bind_ok accepted
    obtain ⟨grown, free, slug, fresh⟩ := validateStepDef_ok first
    subst grown
    have apart : (before ++ [step.stepId]).Nodup := by
      rw [nodup_append]
      refine ⟨distinct, pairwise_singleton _ _, ?_⟩
      intro a here b there same
      rw [mem_singleton] at there
      subst same there
      exact fresh here
    obtain ⟨collected, unique, each⟩ := ih apart others
    refine ⟨by rw [collected, append_assoc]; rfl, unique, ?_⟩
    intro other member
    rcases mem_cons.mp member with same | later
    · rw [same]
      exact ⟨free, slug⟩
    · exact each other later

theorem validateReviewTarget_ok {stepIds : List String} {target : String}
    (accepted : validateReviewTarget stepIds step = .ok ()) (reviews : step.reviewsStep = some target) :
    target ≠ step.stepId ∧ target ∈ stepIds := by
  unfold validateReviewTarget at accepted
  rw [reviews] at accepted
  obtain ⟨other, present⟩ := not_or.mp (refuseIf_ok accepted)
  exact ⟨other, Decidable.not_not.mp present⟩

theorem validateWorkflowDef_ok (accepted : validateWorkflowDef flow = .ok ()) : WellFormed flow := by
  obtain ⟨_, _, accepted⟩ := bind_ok accepted
  obtain ⟨_, _, accepted⟩ := bind_ok accepted
  obtain ⟨_, _, accepted⟩ := bind_ok accepted
  obtain ⟨stepIds, steps, accepted⟩ := bind_ok accepted
  obtain ⟨_, start, accepted⟩ := bind_ok accepted
  obtain ⟨_, _, accepted⟩ := bind_ok accepted
  obtain ⟨_, limits, accepted⟩ := bind_ok accepted
  obtain ⟨_, edges, accepted⟩ := bind_ok accepted
  obtain ⟨_, wiring, _⟩ := bind_ok accepted
  obtain ⟨collected, distinct, each⟩ := validateStepDefs_ok nodup_nil steps
  have ids : stepIds = flow.stepIds := collected
  subst ids
  have known := Decidable.not_not.mp (refuseIf_ok start)
  refine ⟨distinct, ?_, ?_, known, ?_, ?_, ?_⟩
  · intro stepId member
    obtain ⟨step, present, same⟩ := mem_map.mp member
    subst same
    exact (each step present).2
  · intro member
    obtain ⟨step, present, same⟩ := mem_map.mp member
    exact (each step present).1 same
  · intro step member
    exact not_or.mp (refuseIf_ok (forM_ok limits step member))
  · intro edge member
    exact Decidable.not_not.mp (refuseIf_ok (forM_ok edges edge member))
  · intro step member target reviews
    obtain ⟨_, passed, _⟩ := bind_ok (forM_ok wiring step member)
    exact validateReviewTarget_ok passed reviews

variable {stepId : String}

theorem findStep_some (found : flow.findStep stepId = some step) :
    step ∈ flow.steps ∧ step.stepId = stepId :=
  ⟨mem_of_find?_eq_some found, by simpa using find?_some found⟩

theorem findStep_isSome (member : stepId ∈ flow.stepIds) :
    ∃ step, flow.findStep stepId = some step := by
  obtain ⟨step, present, same⟩ := mem_map.mp member
  have found : (flow.findStep stepId).isSome := by
    rw [WorkflowDef.findStep, find?_isSome]
    exact ⟨step, present, by simpa using same⟩
  exact Option.isSome_iff_exists.mp found

end FerroLoop.Workflow

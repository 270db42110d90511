import FerroLoop.Workflow.Schedule

/-!
Who may work on a step: review independence of the agent a step is given to, the choice of an
agent by a step's rule, and the authority to sign a step off.
-/

namespace FerroLoop.Workflow

open Text Checked
open Agents (AgentRole isSlugChar isSlugChar_toNat isWhitespace_toNat validateSlug_normal validateSlug_ok)

structure AgentRecord extends Agents.AgentRecord Iri At where
  registered : isNormalSlug nameKey = true

def nameKeyOf (name : String) : String :=
  toAsciiLowercase (trim name)

def defaultOwnerLogin : String := "lmcfarlin"

def AssigneeRule.adapter : AssigneeRule → Option String
  | .selector _ _ adapter => adapter
  | .agent _ | .manual => none

def validateReviewerIndependence (flow : WorkflowDef) (run : WorkflowRun) (stepId candidateAgent : String)
    (candidateAdapter : Option String) : Except WorkflowError Unit :=
  match flow.findStep stepId with
  | none => .error (.unknownStep stepId)
  | some stepDef =>
    match stepDef.reviewsStep with
    | none => .ok ()
    | some reviewsStep => do
      let upstream := run.steps[reviewsStep]?
      let candidateKey := nameKeyOf candidateAgent
      refuseIf ((upstream.bind (·.assignedAgent)).any fun agent => eqIgnoreAsciiCase agent candidateKey)
        (.reviewIndependence (.sameAgent stepId reviewsStep candidateKey))
      if stepDef.requireDifferentVendor then
        match upstream.bind (·.adapterUsed), candidateAdapter <|> stepDef.assignee.adapter with
        | some upstreamVendor, some candVendor =>
          refuseIf (eqIgnoreAsciiCase upstreamVendor (trim candVendor))
            (.reviewIndependence (.sameVendor stepId reviewsStep (nameKeyOf candVendor)))
        | _, _ => .ok ()
      else .ok ()

structure SelectedStepAgent where
  agentName : String
  adapter : Option String

def firstIndependent (flow : WorkflowDef) (run : WorkflowRun) (stepId : String) (adapter : Option String) :
    List AgentRecord → Except WorkflowError (Option SelectedStepAgent)
  | [] => .error (.noEligibleAgent stepId)
  | candidate :: rest =>
    match validateReviewerIndependence flow run stepId candidate.nameKey adapter with
    | .ok () => .ok (some { agentName := candidate.nameKey, adapter })
    | .error (.reviewIndependence (.sameAgent _ _ _)) => firstIndependent flow run stepId adapter rest
    | .error e => .error e

def eligible (role : Option AgentRole) (area : Option String) (agent : AgentRecord) : Bool :=
  agent.status == .active && role.all (agent.role == ·) && area.all fun area => agent.coversArea (nameKeyOf area)

def selectStepAgent (flow : WorkflowDef) (run : WorkflowRun) (stepId : String) (agents : List AgentRecord)
    (overrideAdapter : Option String) : Except WorkflowError (Option SelectedStepAgent) :=
  match flow.findStep stepId with
  | none => .error (.unknownStep stepId)
  | some stepDef =>
    match stepDef.assignee with
    | .manual => .ok none
    | .agent name =>
      match agents.find? fun agent => agent.status == .active && agent.nameKey == nameKeyOf name with
      | none => .error (.noEligibleAgent stepId)
      | some agent => do
        validateReviewerIndependence flow run stepId agent.nameKey overrideAdapter
        .ok (some { agentName := agent.nameKey, adapter := overrideAdapter })
    | .selector role area adapter =>
      firstIndependent flow run stepId (overrideAdapter <|> adapter)
        ((agents.filter (eligible role area)).mergeSort fun a b => (compare a.nameKey b.nameKey).isLE)

def requiredTier (stepDef : StepDef) : ApprovalTier :=
  match stepDef.completion with
  | .humanSignOff approvalTier => approvalTier
  | .gated _ _ | .ungated => .owner

def hasTier (agent : AgentRecord) (projectSlug : String) : ApprovalTier → Bool
  | .owner => false
  | .labManager => agent.role == .labManager
  | .lead => agent.role == .labManager || agent.role == .lead && agent.coversArea (nameKeyOf projectSlug)

def authorizeStepSignOff (projectSlug : String) (stepDef : StepDef) (step : StepInstance) (caller : String)
    (agents : List AgentRecord) (ownerLogin : String) : Except WorkflowError Unit :=
  let callerKey := nameKeyOf caller
  let ownerKey := if trim ownerLogin = "" then defaultOwnerLogin else nameKeyOf ownerLogin
  if step.assignedAgent.any fun assigned => eqIgnoreAsciiCase assigned callerKey then
    .error (.selfApprovalForbidden stepDef.stepId callerKey)
  else if callerKey = ownerKey ∨ callerKey = "owner" then .ok ()
  else match agents.find? fun agent => agent.status == .active && eqIgnoreAsciiCase agent.nameKey callerKey with
    | none => .error (.insufficientApprovalAuthority stepDef.stepId callerKey (requiredTier stepDef))
    | some agent =>
      if hasTier agent projectSlug (requiredTier stepDef) then .ok ()
      else .error (.insufficientApprovalAuthority stepDef.stepId callerKey (requiredTier stepDef))

/-! ### Names and what the checks exclude -/

variable {c : Char} {adapter : Option String} {stepId : String} {run : WorkflowRun} {flow : WorkflowDef}

theorem solid_of_slug (slug : isSlugChar c.toLower) : isWhitespace c = false := by
  rcases blank : isWhitespace c with _ | _
  · rfl
  have far := isWhitespace_toNat blank
  have value : c.toNat = c.val.toNat := rfl
  have kept : c.toLower = c := by
    unfold Char.toLower
    rw [dif_neg]
    rintro ⟨low, high⟩
    have bounds : (65 : Nat) ≤ c.val.toNat ∧ c.val.toNat ≤ 90 := ⟨UInt32.le_iff_toNat_le.mp low, UInt32.le_iff_toNat_le.mp high⟩
    omega
  rw [kept] at slug
  have near := isSlugChar_toNat slug
  omega

theorem isNormalSlug_chars {text : String} (normal : isNormalSlug text) :
    toAsciiLowercase text = text ∧ ∀ c ∈ text.toList, isSlugChar c := by
  unfold isNormalSlug at normal
  split at normal
  · rename_i normalized valid
    have same : normalized = text := by simpa using normal
    subst same
    exact ⟨(validateSlug_normal valid).1, (validateSlug_ok valid).2.2⟩
  · cases normal

theorem nameKeyOf_eq {name key : String} (normal : isNormalSlug key) (same : eqIgnoreAsciiCase name key) :
    nameKeyOf name = key := by
  obtain ⟨lower, slug⟩ := isNormalSlug_chars normal
  have folded : toAsciiLowercase name = key := (eqIgnoreAsciiCase_iff.mp same).trans lower
  have solid : ∀ c ∈ name.toList, isWhitespace c = false := by
    intro c member
    apply solid_of_slug
    apply slug
    rw [← folded, toAsciiLowercase_toList]
    exact List.mem_map_of_mem member
  rw [nameKeyOf, trim_eq_self solid, folded]

theorem eqIgnoreAsciiCase_refl (name : String) : eqIgnoreAsciiCase name name :=
  eqIgnoreAsciiCase_iff.mpr rfl

variable {agent : String} {stepDef : StepDef} {step : StepInstance}

theorem validateReviewerIndependence_ok {candidate reviewed : String}
    (passed : validateReviewerIndependence flow run stepId candidate adapter = .ok ())
    (found : flow.findStep stepId = some stepDef) (reviews : stepDef.reviewsStep = some reviewed)
    (held : run.steps[reviewed]? = some step) (assigned : step.assignedAgent = some agent) (normal : isNormalSlug agent) :
    ¬ eqIgnoreAsciiCase candidate agent := by
  intro same
  unfold validateReviewerIndependence at passed
  rw [found] at passed
  dsimp only at passed
  rw [reviews] at passed
  obtain ⟨_, apart, _⟩ := bind_ok passed
  apply refuseIf_ok apart
  rw [held, nameKeyOf_eq normal same]
  simp [assigned, eqIgnoreAsciiCase_refl]

variable {selected : SelectedStepAgent}

theorem firstIndependent_ok
    {candidates : List AgentRecord}
    (chosen : firstIndependent flow run stepId adapter candidates = .ok (some selected)) :
    validateReviewerIndependence flow run stepId selected.agentName adapter = .ok () ∧
      isNormalSlug selected.agentName := by
  induction candidates with
  | nil => cases chosen
  | cons candidate rest ih =>
    unfold firstIndependent at chosen
    split at chosen
    · rename_i passed
      cases chosen
      exact ⟨passed, candidate.registered⟩
    · exact ih chosen
    · cases chosen

variable {agents : List AgentRecord}

theorem selectStepAgent_ok
    (chosen : selectStepAgent flow run stepId agents adapter = .ok (some selected)) :
    (∃ checked, validateReviewerIndependence flow run stepId selected.agentName checked = .ok ()) ∧
      isNormalSlug selected.agentName := by
  unfold selectStepAgent at chosen
  split at chosen
  · cases chosen
  split at chosen
  · cases chosen
  · split at chosen
    · cases chosen
    rename_i agent _
    obtain ⟨_, passed, chosen⟩ := bind_ok chosen
    cases chosen
    exact ⟨⟨_, passed⟩, agent.registered⟩
  · obtain ⟨passed, normal⟩ := firstIndependent_ok chosen
    exact ⟨⟨_, passed⟩, normal⟩

theorem authorizeStepSignOff_ok {projectSlug caller ownerLogin : String}
    (allowed : authorizeStepSignOff projectSlug stepDef step caller agents ownerLogin = .ok ())
    (assigned : step.assignedAgent = some agent) (normal : isNormalSlug agent) : ¬ eqIgnoreAsciiCase caller agent := by
  intro same
  unfold authorizeStepSignOff at allowed
  rw [assigned, nameKeyOf_eq normal same] at allowed
  simp [eqIgnoreAsciiCase_refl] at allowed

end FerroLoop.Workflow

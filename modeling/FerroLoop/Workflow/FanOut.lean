import FerroLoop.Workflow.Schedule

namespace FerroLoop.Workflow

open List

section

variable (flow : WorkflowDef)

def Covers (run : WorkflowRun) : Prop :=
  ∀ stepId ∈ flow.stepIds, ∃ step, run.steps[stepId]? = some step

def visited (stepId : String) (step : StepInstance) : StepInstance :=
  match flow.findStep stepId with
  | some targetDef => visitedStep targetDef stepId step
  | none => step

def overVisits (run : WorkflowRun) (stepId : String) : Bool :=
  match flow.findStep stepId, run.steps[stepId]? with
  | some targetDef, some step => targetDef.maxVisits < step.visitCount + 1
  | _, _ => false

def openStep (run : WorkflowRun) (target : String) : WorkflowRun :=
  match flow.findStep target, run.steps[target]? with
  | some targetDef, some step => activate run target targetDef step
  | _, _ => run

def openAll (run : WorkflowRun) (opened : List String) : WorkflowRun :=
  opened.foldl (openStep flow) run

end

variable {stepId : String} {targetDef : StepDef} {step : StepInstance}

section Opening

variable {flow : WorkflowDef} {run : WorkflowRun}

theorem openStep_steps (target stepId : String) :
    (openStep flow run target).steps[stepId]? =
      if target = stepId then run.steps[stepId]?.map (visited flow stepId) else run.steps[stepId]? := by
  unfold openStep
  split
  · rename_i targetDef step found held
    simp only [activate, Map.getElem?_insert]
    split
    · rename_i same
      subst same
      simp [held, visited, found]
    · rfl
  · rename_i missing
    split
    · rename_i same
      subst same
      rcases held : run.steps[target]? with _ | step
      · rfl
      cases found : flow.findStep target with
      | none => simp [visited, found]
      | some targetDef => exact absurd held (missing targetDef step found)
    · rfl

variable {target : String}

theorem openStep_overVisits (other : target ≠ stepId) :
    overVisits flow (openStep flow run target) stepId = overVisits flow run stepId := by
  unfold overVisits
  rw [openStep_steps, if_neg other]

theorem openStep_eq
    (found : flow.findStep target = some targetDef) (held : run.steps[target]? = some step) :
    openStep flow run target = activate run target targetDef step := by
  simp only [openStep, found, held]

theorem openStep_covers (target : String) (covers : Covers flow run) : Covers flow (openStep flow run target) := by
  intro stepId member
  obtain ⟨step, held⟩ := covers stepId member
  rw [openStep_steps, held]
  split
  · exact ⟨_, rfl⟩
  · exact ⟨_, rfl⟩

theorem openStep_activeSteps (covers : Covers flow run) (member : target ∈ flow.stepIds) :
    (openStep flow run target).activeSteps = run.activeSteps ++ [target] := by
  obtain ⟨targetDef, found⟩ := findStep_isSome member
  obtain ⟨step, held⟩ := covers target member
  rw [openStep_eq found held]
  rfl

theorem openStep_status (target : String) :
    (openStep flow run target).status = if overVisits flow run target then .needsHuman else run.status := by
  unfold openStep overVisits
  split
  · simp [activate]
  · simp

theorem openAll_steps {opened : List String} (distinct : opened.Nodup) (stepId : String) :
    (openAll flow run opened).steps[stepId]? =
      if stepId ∈ opened then run.steps[stepId]?.map (visited flow stepId) else run.steps[stepId]? := by
  induction opened generalizing run with
  | nil => rfl
  | cons target rest ih =>
    obtain ⟨apart, others⟩ := nodup_cons.mp distinct
    rw [openAll, foldl_cons, ← openAll, ih others, openStep_steps]
    by_cases same : target = stepId
    · subst same
      simp [apart]
    · have flipped : stepId ≠ target := Ne.symm same
      simp [same, flipped]

theorem openAll_activeSteps {opened : List String} (covers : Covers flow run)
    (known : ∀ target ∈ opened, target ∈ flow.stepIds) :
    (openAll flow run opened).activeSteps = run.activeSteps ++ opened := by
  induction opened generalizing run with
  | nil => exact (append_nil _).symm
  | cons target rest ih =>
    have tail := ih (openStep_covers target covers) (fun other member => known other (mem_cons_of_mem _ member))
    rw [openAll, foldl_cons, ← openAll, tail, openStep_activeSteps covers (known target mem_cons_self),
      append_assoc]
    rfl

theorem openAll_status {opened : List String} (distinct : opened.Nodup) :
    (openAll flow run opened).status = if opened.any (overVisits flow run) then .needsHuman else run.status := by
  induction opened generalizing run with
  | nil => rfl
  | cons target rest ih =>
    obtain ⟨apart, others⟩ := nodup_cons.mp distinct
    have unchanged : rest.any (overVisits flow (openStep flow run target)) = rest.any (overVisits flow run) := by
      rw [Bool.eq_iff_iff, any_eq_true, any_eq_true]
      refine exists_congr fun other => and_congr_right fun member => ?_
      have different : target ≠ other := fun same => apart (same ▸ member)
      rw [openStep_overVisits different]
    rw [openAll, foldl_cons, ← openAll, ih others, unchanged, openStep_status, any_cons]
    cases overVisits flow run target <;> simp

theorem openAll_concat (opened : List String) (target : String) :
    openAll flow run (opened ++ [target]) = openStep flow (openAll flow run opened) target :=
  foldl_append

theorem openAll_covers (opened : List String) (covers : Covers flow run) : Covers flow (openAll flow run opened) := by
  induction opened generalizing run with
  | nil => exact covers
  | cons target rest ih => exact ih (openStep_covers target covers)

end Opening

/-- Whether an edge opens its target, after the steps opened before it: these are active and no
longer done. -/
def opensEdge (flow : WorkflowDef) (run : WorkflowRun) (reporter : String) (visitCount : UInt32) (opened : List String)
    (edge : EdgeDef) : Bool :=
  edge.toStep != endStep && (edge.toStep == reporter || edge.toStep ∉ run.activeSteps) && edge.toStep ∉ opened &&
    (flow.findStep edge.toStep).any fun targetDef =>
      joinHolds flow (fun pred => isIn run pred .done && pred ∉ opened) (visitsOf run edge.toStep) reporter visitCount
        edge targetDef

def openedBy (flow : WorkflowDef) (run : WorkflowRun) (reporter : String) (visitCount : UInt32) :
    List EdgeDef → List String → List String
  | [], opened => opened
  | edge :: rest, opened =>
    openedBy flow run reporter visitCount rest
      (if opensEdge flow run reporter visitCount opened edge then opened ++ [edge.toStep] else opened)

structure Openable (flow : WorkflowDef) (run : WorkflowRun) (reporter : String) (opened : List String) : Prop where
  distinct : opened.Nodup
  known : ∀ target ∈ opened, target ∈ flow.stepIds
  idle : ∀ target ∈ opened, target = reporter ∨ target ∉ run.activeSteps

section Loop

variable {flow : WorkflowDef} {run : WorkflowRun} {reporter : String} {visitCount : UInt32}

variable {edge : EdgeDef}

theorem joinHolds_congr {first second : String → Bool} {targetVisit : UInt32}
    (agree : ∀ pred, pred ≠ reporter → first pred = second pred) :
    joinHolds flow first targetVisit reporter visitCount edge targetDef =
      joinHolds flow second targetVisit reporter visitCount edge targetDef := by
  unfold joinHolds
  have counted : (fun pred => pred == reporter || first pred) = fun pred => pred == reporter || second pred := by
    funext pred
    by_cases same : pred = reporter
    · simp [same]
    · rw [agree pred same]
  rw [counted]

theorem openable_nil : Openable flow run reporter [] :=
  ⟨nodup_nil, fun _ member => (nomatch member), fun _ member => (nomatch member)⟩

theorem opensEdge_openable {opened : List String} (openable : Openable flow run reporter opened)
    (opens : opensEdge flow run reporter visitCount opened edge) :
    Openable flow run reporter (opened ++ [edge.toStep]) := by
  simp only [opensEdge, Bool.and_eq_true, Bool.or_eq_true, beq_iff_eq, decide_eq_true_eq, Option.any_eq_true] at opens
  obtain ⟨⟨⟨_, idle⟩, fresh⟩, targetDef, found, _⟩ := opens
  obtain ⟨present, same⟩ := findStep_some found
  refine ⟨?_, ?_, ?_⟩
  · rw [nodup_append]
    refine ⟨openable.distinct, pairwise_singleton _ _, ?_⟩
    intro a here b there equal
    rw [mem_singleton] at there
    subst equal there
    exact fresh here
  · intro target member
    rcases mem_append.mp member with before | last
    · exact openable.known target before
    · rw [mem_singleton.mp last, ← same]
      exact mem_map_of_mem present
  · intro target member
    rcases mem_append.mp member with before | last
    · exact openable.idle target before
    · rw [mem_singleton.mp last]
      exact idle

theorem openedBy_openable {opened : List String} (openable : Openable flow run reporter opened) (edges : List EdgeDef) :
    Openable flow run reporter (openedBy flow run reporter visitCount edges opened) := by
  induction edges generalizing opened with
  | nil => exact openable
  | cons edge rest ih =>
    apply ih
    split
    · rename_i opens
      exact opensEdge_openable openable opens
    · exact openable

theorem visited_state (stepId : String) (step : StepInstance) (member : stepId ∈ flow.stepIds) :
    (visited flow stepId step).state ≠ .done := by
  obtain ⟨targetDef, found⟩ := findStep_isSome member
  simp only [visited, found, visitedStep]
  split
  · exact State.noConfusion
  · exact State.noConfusion

theorem openAll_isDone {opened : List String} (openable : Openable flow run reporter opened) (stepId : String) :
    isIn (openAll flow run opened) stepId .done = (isIn run stepId .done && stepId ∉ opened) := by
  unfold isIn
  rw [openAll_steps openable.distinct]
  by_cases member : stepId ∈ opened
  · have known := openable.known stepId member
    cases held : run.steps[stepId]? with
    | none => simp [member]
    | some step => simp [member, visited_state stepId step known]
  · simp [member]

theorem openAll_visitsOf {opened : List String} (openable : Openable flow run reporter opened)
    (fresh : stepId ∉ opened) : visitsOf (openAll flow run opened) stepId = visitsOf run stepId := by
  unfold visitsOf
  rw [openAll_steps openable.distinct, if_neg fresh]

section

variable {opened : List String} (formed : WellFormed flow) (covers : Covers flow run) (left : reporter ∉ run.activeSteps) (openable : Openable flow run reporter opened)

include formed covers left openable

theorem followEdge_openAll (member : edge ∈ flow.edges) :
    followEdge flow reporter visitCount (openAll flow run opened) edge = .ok (openAll flow run
        (if opensEdge flow run reporter visitCount opened edge then opened ++ [edge.toStep] else opened)) := by
  unfold followEdge
  by_cases atEnd : edge.toStep = endStep
  · simp [atEnd, opensEdge]
  have target := (formed.edges edge member).2.resolve_left atEnd
  obtain ⟨targetDef, found⟩ := findStep_isSome target
  have active : (edge.toStep ∈ (openAll flow run opened).activeSteps) ↔ edge.toStep ∈ run.activeSteps ∨ edge.toStep ∈ opened := by
    rw [openAll_activeSteps covers openable.known, mem_append]
  rw [if_neg atEnd, found]
  by_cases here : edge.toStep ∈ opened
  · have closed : opensEdge flow run reporter visitCount opened edge = false := by
      simp [opensEdge, here]
    have inside := active.mpr (.inr here)
    simp [closed, inside]
  have join : joinSatisfied flow (openAll flow run opened) reporter visitCount edge targetDef =
      joinHolds flow (fun pred => isIn run pred .done && pred ∉ opened) (visitsOf run edge.toStep) reporter visitCount
        edge targetDef := by
    unfold joinSatisfied
    rw [openAll_visitsOf openable here]
    exact joinHolds_congr fun pred _ => openAll_isDone openable pred
  have inactive : (edge.toStep ∉ (openAll flow run opened).activeSteps) ↔
      edge.toStep = reporter ∨ edge.toStep ∉ run.activeSteps := by
    rw [active]
    constructor
    · intro absent
      exact .inr fun inside => absent (.inl inside)
    · rintro (same | absent) inside
      · rw [same] at inside here
        exact inside.elim left here
      · exact inside.elim absent here
  obtain ⟨step, held⟩ := openAll_covers opened covers edge.toStep target
  have opens : opensEdge flow run reporter visitCount opened edge ↔
      joinSatisfied flow (openAll flow run opened) reporter visitCount edge targetDef ∧
        edge.toStep ∉ (openAll flow run opened).activeSteps := by
    rw [join, inactive]
    simp [opensEdge, atEnd, here, found, and_comm]
  dsimp only
  split
  · rename_i satisfied
    rw [if_pos (opens.mpr satisfied), held, openAll_concat, openStep_eq found held]
  · rename_i satisfied
    rw [if_neg fun yes => satisfied (opens.mp yes)]

theorem followEdges_openAll {edges : List EdgeDef} (members : ∀ edge ∈ edges, edge ∈ flow.edges) :
    edges.foldlM (followEdge flow reporter visitCount) (openAll flow run opened) =
      .ok (openAll flow run (openedBy flow run reporter visitCount edges opened)) := by
  induction edges generalizing opened with
  | nil => rfl
  | cons edge rest ih =>
    rw [foldlM_cons, followEdge_openAll formed covers left openable (members edge mem_cons_self),
      Checked.ok_bind, openedBy]
    apply ih
    · split
      · rename_i opens
        exact opensEdge_openable openable opens
      · exact openable
    · intro other member
      exact members other (mem_cons_of_mem _ member)

end

end Loop

def arrive (flow : WorkflowDef) (stepId : String) (outcome : StepOutcome) (run : WorkflowRun) (opened : List String) :
    WorkflowRun :=
  let edges := matchingEdges flow stepId outcome
  if edges = [] then
    if outcome = .fail ∧ run.activeSteps = [] then { run with status := .failed } else run
  else if leadsToEnd edges then complete (prune flow (openAll flow run opened))
  else openAll flow run opened

theorem matchingEdges_subset (flow : WorkflowDef) (stepId : String) (outcome : StepOutcome) :
    ∀ edge ∈ matchingEdges flow stepId outcome, edge ∈ flow.edges :=
  fun _ member => (mem_filter.mp member).1

variable {run : WorkflowRun} {flow : WorkflowDef} {report : StepAttemptReport} {visitCount : UInt32}

theorem follow_eq {outcome : StepOutcome}
    (formed : WellFormed flow) (covers : Covers flow run) (left : stepId ∉ run.activeSteps) :
    follow flow stepId visitCount outcome run =
      .ok (arrive flow stepId outcome run
        (openedBy flow run stepId visitCount (matchingEdges flow stepId outcome) [])) := by
  unfold follow arrive
  have loop : (matchingEdges flow stepId outcome).foldlM (followEdge flow stepId visitCount) run =
      .ok (openAll flow run (openedBy flow run stepId visitCount (matchingEdges flow stepId outcome) [])) :=
    followEdges_openAll formed covers left openable_nil (matchingEdges_subset flow stepId outcome)
  dsimp only
  split
  · rfl
  · rw [loop]
    rfl

def opened (flow : WorkflowDef) (run : WorkflowRun) (stepId : String) (outcome : StepOutcome) : List String :=
  openedBy flow run stepId (visitsOf run stepId) (matchingEdges flow stepId outcome) []

def left (run : WorkflowRun) (step : StepInstance) (report : StepAttemptReport) (at_ : At) (outcome : StepOutcome) :
    WorkflowRun :=
  leave (charge run step report at_) report.stepId (chargeStep step report) outcome report.reason

theorem openedBy_congr {a b : WorkflowRun} {reporter : String}
    (active : ∀ stepId, stepId ≠ reporter → (stepId ∈ a.activeSteps ↔ stepId ∈ b.activeSteps))
    (done : ∀ stepId, stepId ≠ reporter → isIn a stepId .done = isIn b stepId .done)
    (visits : ∀ stepId, visitsOf a stepId = visitsOf b stepId) (edges : List EdgeDef) (before : List String) :
    openedBy flow a reporter visitCount edges before = openedBy flow b reporter visitCount edges before := by
  induction edges generalizing before with
  | nil => rfl
  | cons edge rest ih =>
    have same : opensEdge flow a reporter visitCount before edge = opensEdge flow b reporter visitCount before edge := by
      have idle : (edge.toStep == reporter || decide (edge.toStep ∉ a.activeSteps)) =
          (edge.toStep == reporter || decide (edge.toStep ∉ b.activeSteps)) := by
        by_cases itself : edge.toStep = reporter
        · simp [itself]
        · simp [active edge.toStep itself]
      have joins : ∀ targetDef, joinHolds flow (fun pred => isIn a pred .done && pred ∉ before) (visitsOf a edge.toStep)
          reporter visitCount edge targetDef = joinHolds flow (fun pred => isIn b pred .done && pred ∉ before)
          (visitsOf b edge.toStep) reporter visitCount edge targetDef := by
        intro targetDef
        rw [visits]
        apply joinHolds_congr
        intro pred other
        rw [done pred other]
      unfold opensEdge
      rw [idle]
      simp only [joins]
    rw [openedBy, openedBy, same]
    exact ih _

section Left

variable {flow : WorkflowDef} {run : WorkflowRun} {step : StepInstance} {report : StepAttemptReport} {at_ : At}
  {outcome : StepOutcome}

theorem refreshStatus_steps (run : WorkflowRun) : (refreshStatus run).steps = run.steps := by
  unfold refreshStatus
  split <;> rfl

theorem refreshStatus_activeSteps (run : WorkflowRun) : (refreshStatus run).activeSteps = run.activeSteps := by
  unfold refreshStatus
  split <;> rfl

theorem left_activeSteps : (left run step report at_ outcome).activeSteps = run.activeSteps.filter (· != report.stepId) :=
  refreshStatus_activeSteps _

theorem left_steps (stepId : String) :
    (left run step report at_ outcome).steps[stepId]? =
      if report.stepId = stepId then some (settledStep (chargeStep step report) outcome report.reason)
      else run.steps[stepId]? := by
  rw [left, leave, refreshStatus_steps]
  simp only [deactivate, charge, Map.getElem?_insert]
  split <;> rfl

theorem hold_steps (reason : Option String) (stepId : String) :
    (hold (charge run step report at_) report.stepId (chargeStep step report) reason).steps[stepId]? =
      if report.stepId = stepId then some (heldStep (chargeStep step report) reason) else run.steps[stepId]? := by
  simp only [hold, charge, Map.getElem?_insert]
  split <;> rfl

theorem retry_steps (reason : Option String) (stepId : String) :
    (retry (charge run step report at_) report.stepId (chargeStep step report) reason).steps[stepId]? =
      if report.stepId = stepId then some (retriedStep (chargeStep step report) reason) else run.steps[stepId]? := by
  simp only [retry, charge, Map.getElem?_insert]
  split <;> rfl

theorem left_isIn (other : report.stepId ≠ stepId) (state : State) :
    isIn (left run step report at_ outcome) stepId state = isIn run stepId state := by
  unfold isIn
  rw [left_steps, if_neg other]

theorem left_visitsOf (held : run.steps[report.stepId]? = some step) (stepId : String) :
    visitsOf (left run step report at_ outcome) stepId = visitsOf run stepId := by
  unfold visitsOf
  rw [left_steps]
  split
  · rename_i same
    subst same
    rw [held]
    rfl
  · rfl

theorem covers_written {after : WorkflowRun} {written : StepInstance} (covers : Covers flow run)
    (inserted : ∀ other : String, after.steps[other]? = if stepId = other then some written else run.steps[other]?) :
    Covers flow after := by
  intro other member
  rw [inserted]
  split
  · exact ⟨_, rfl⟩
  · exact covers other member

theorem left_covers (covers : Covers flow run) : Covers flow (left run step report at_ outcome) :=
  covers_written covers left_steps

theorem left_absent : report.stepId ∉ (left run step report at_ outcome).activeSteps := by
  rw [left_activeSteps]
  simp

theorem left_opened (held : run.steps[report.stepId]? = some step) :
    openedBy flow (left run step report at_ outcome) report.stepId (chargeStep step report).visitCount
      (matchingEdges flow report.stepId outcome) [] = opened flow run report.stepId outcome := by
  have visits : visitsOf run report.stepId = (chargeStep step report).visitCount := by
    unfold visitsOf
    rw [held]
    rfl
  unfold opened
  rw [visits]
  apply openedBy_congr
  · intro stepId other
    rw [left_activeSteps]
    simp [other]
  · intro stepId other
    exact left_isIn (Ne.symm other) .done
  · exact left_visitsOf held

end Left

structure Accepts (flow : WorkflowDef) (run : WorkflowRun) (report : StepAttemptReport) (stepDef : StepDef)
    (step : StepInstance) : Prop where
  unfinished : run.status.isTerminal = false
  found : flow.findStep report.stepId = some stepDef
  active : report.stepId ∈ run.activeSteps
  held : run.steps[report.stepId]? = some step

def routeOf (flow : WorkflowDef) (run : WorkflowRun) (stepDef : StepDef) (step : StepInstance) (report : StepAttemptReport)
    (at_ : At) : Route :=
  route flow stepDef (charge run step report at_) (chargeStep step report) (step.state == .needsHuman) report

theorem advanceWorkflow_accepts {next : WorkflowRun} {at_ : At}
    (advanced : advanceWorkflow flow run report at_ = .ok next) :
    ∃ stepDef step, Accepts flow run report stepDef step ∧
      settle flow stepDef (charge run step report at_) (chargeStep step report) (step.state == .needsHuman) report = .ok next := by
  unfold advanceWorkflow at advanced
  split at advanced
  · cases advanced
  rename_i unfinished
  split at advanced
  · cases advanced
  rename_i stepDef found
  split at advanced
  · cases advanced
  rename_i active
  split at advanced
  · cases advanced
  rename_i step held
  exact ⟨stepDef, step, ⟨by simpa using unfinished, found, Decidable.not_not.mp active, held⟩, advanced⟩

variable {stepDef : StepDef}

theorem advanceWorkflow_settles
    (accepts : Accepts flow run report stepDef step) (at_ : At) :
    advanceWorkflow flow run report at_ =
      settle flow stepDef (charge run step report at_) (chargeStep step report) (step.state == .needsHuman) report := by
  unfold advanceWorkflow
  rw [accepts.unfinished, accepts.found, accepts.held]
  simp [accepts.active]

def exit (flow : WorkflowDef) (run : WorkflowRun) (stepDef : StepDef) (step : StepInstance) (report : StepAttemptReport)
    (at_ : At) : WorkflowRun :=
  match routeOf flow run stepDef step report at_ with
  | .hold reason => hold (charge run step report at_) report.stepId (chargeStep step report) reason
  | .retry => retry (charge run step report at_) report.stepId (chargeStep step report) report.reason
  | .leave outcome =>
    arrive flow report.stepId outcome (left run step report at_ outcome) (opened flow run report.stepId outcome)

theorem advanceWorkflow_eq
    (formed : WellFormed flow) (covers : Covers flow run)
    (accepts : Accepts flow run report stepDef step) (at_ : At) :
    advanceWorkflow flow run report at_ = .ok (exit flow run stepDef step report at_) := by
  rw [advanceWorkflow_settles accepts]
  unfold settle exit routeOf
  cases route flow stepDef (charge run step report at_) (chargeStep step report) (step.state == .needsHuman) report with
  | hold reason => rfl
  | retry => rfl
  | leave outcome =>
    dsimp only
    rw [← left, follow_eq formed (left_covers covers) left_absent, left_opened accepts.held]

end FerroLoop.Workflow

import FerroLoop.Workflow.Ledger
import FerroLoop.Workflow.Stranding

namespace FerroLoop.Workflow

open Checked List Sample

/-- The step was charged for since it was last opened. -/
def charged (run : WorkflowRun) (stepId : String) : Bool :=
  run.steps[stepId]?.any fun step => 0 < step.attemptCount

/-- The active steps that were charged for and have not left. -/
def pending (run : WorkflowRun) : Nat := run.activeSteps.countP (charged run)

/-- How many of the reports take their step out of the active ones. -/
def departures (flow : WorkflowDef) : WorkflowRun → List (StepAttemptReport × At) → Nat
  | _, [] => 0
  | run, event :: rest =>
    (if (leavesWith flow run event.1 event.2).isSome then 1 else 0) + departures flow (reportStep flow run event).1 rest

section Step

variable {flow : WorkflowDef} {run : WorkflowRun} {stepDef : StepDef} {step : StepInstance} {report : StepAttemptReport}
  {at_ : At}

theorem countP_without {α : Type} [DecidableEq α] (p : α → Bool) {xs : List α} (distinct : xs.Nodup) {a : α} (member : a ∈ xs) :
    (xs.filter (· != a)).countP p + (if p a then 1 else 0) = xs.countP p := by
  rw [← distinct.erase_eq_filter, ← countP_cons]
  exact ((perm_cons_erase member).countP_eq p).symm

section Own

variable {after : WorkflowRun} (distinct : run.activeSteps.Nodup) (active : report.stepId ∈ run.activeSteps)
  (others : ∀ other : String, report.stepId ≠ other → after.steps[other]? = run.steps[other]?)

include others

theorem charged_others : (run.activeSteps.filter (· != report.stepId)).countP (charged after) =
    (run.activeSteps.filter (· != report.stepId)).countP (charged run) := by
  apply countP_congr
  intro other listed
  have differ : report.stepId ≠ other := fun equal => by simp [equal] at listed
  unfold charged
  rw [others other differ]

include distinct active

theorem pending_stayed (same : after.activeSteps = run.activeSteps) :
    pending after + (if charged run report.stepId then 1 else 0) ≤ pending run + 1 := by
  have before := countP_without (charged run) distinct active
  have now := countP_without (charged after) distinct active
  rw [charged_others others] at now
  unfold pending
  rw [same, ← now, ← before]
  split <;> split <;> omega

theorem pending_left (gone : after.activeSteps = run.activeSteps.filter (· != report.stepId)) :
    pending after + (if charged run report.stepId then 1 else 0) = pending run := by
  unfold pending
  rw [gone, charged_others others]
  exact countP_without (charged run) distinct active

end Own

section

variable {opened : List String} {reporter : String} (covers : Covers flow run) (absent : reporter ∉ run.activeSteps) (openable : Openable flow run reporter opened)

include covers absent openable

theorem pending_openAll : pending (openAll flow run opened) ≤ pending run := by
  unfold pending
  rw [openAll_activeSteps covers openable.known, countP_append]
  have old : run.activeSteps.countP (charged (openAll flow run opened)) = run.activeSteps.countP (charged run) := by
    apply countP_congr
    intro stepId listed
    have other : stepId ∉ opened := fun member => (openable.idle stepId member).elim (fun same => absent (same ▸ listed))
      fun idle => idle listed
    unfold charged
    rw [openAll_steps openable.distinct, if_neg other]
  have new : opened.countP (charged (openAll flow run opened)) = 0 := by
    rw [countP_eq_zero]
    intro stepId member
    obtain ⟨targetDef, found⟩ := findStep_isSome (openable.known stepId member)
    unfold charged
    rw [openAll_steps openable.distinct, if_pos member]
    rcases run.steps[stepId]? with _ | step
    · simp
    · simp only [Option.map_some, Option.any_some, visited, found, visitedStep]
      split <;> simp
  omega

theorem pending_arrive {outcome : StepOutcome} : pending (arrive flow reporter outcome run opened) ≤ pending run := by
  have grown := pending_openAll covers absent openable
  unfold arrive
  dsimp only
  split
  · split <;> exact Nat.le_refl _
  split
  · have fewer : pending (prune flow (openAll flow run opened)) ≤ pending (openAll flow run opened) :=
      (filter_sublist).countP_le
    unfold complete
    split <;> exact Nat.le_trans fewer grown
  · exact grown

end

theorem resolved_charged (held : run.steps[report.stepId]? = some step) (resolves : resolvesSignOff step report) :
    charged run report.stepId = true := by
  unfold resolvesSignOff at resolves
  simp only [Bool.and_eq_true, decide_eq_true_eq] at resolves
  unfold charged
  rw [held]
  exact decide_eq_true resolves.1.1.1.2

theorem no_ceiling {outcome : StepOutcome} (way : routeOf flow run stepDef step report at_ = .leave outcome) :
    (charge run step report at_).totalStepsExecuted ≤ flow.maxTotalSteps := by
  apply Decidable.byContradiction
  intro over_
  unfold routeOf route ceilingReason at way
  rw [if_pos (UInt32.not_le.mp over_)] at way
  cases way

/-- What one accepted report adds to the departures and to the charged steps that wait, and what it is charged. -/
theorem exit_pays (placed : Placed flow run) (accepts : Accepts flow run report stepDef step) :
    let next := exit flow run stepDef step report at_
    let gone := if (leavesWith flow run report at_).isSome then 1 else 0
    let fee := if resolvesSignOff step report then 0 else 1
    gone + pending next ≤ pending run + fee ∧ next.totalStepsExecuted = run.totalStepsExecuted + UInt32.ofNat fee ∧
      (gone = 1 → next.totalStepsExecuted ≤ flow.maxTotalSteps) := by
  dsimp only
  have total : (exit flow run stepDef step report at_).totalStepsExecuted = (charge run step report at_).totalStepsExecuted :=
    congrArg (·.2.2) exit_totals
  have fee : (charge run step report at_).totalStepsExecuted =
      run.totalStepsExecuted + UInt32.ofNat (if resolvesSignOff step report then 0 else 1) := by
    unfold charge
    dsimp only
    split <;> simp
  -- A sign-off is not charged: the step it takes out was charged for before.
  have paid : 1 ≤ (if charged run report.stepId then 1 else 0) + if resolvesSignOff step report then 0 else 1 := by
    split
    · omega
    · rename_i uncharged
      rw [if_neg fun resolves => uncharged (resolved_charged accepts.held resolves)]
  rw [leavesWith_eq accepts]
  refine ⟨?_, total.trans fee, ?_⟩
  · unfold exit
    cases routeOf flow run stepDef step report at_ with
    | hold reason =>
      have stayed := @pending_stayed run report _ placed.distinct accepts.active
        (fun other differ => (@hold_steps run step report at_ reason other).trans (if_neg differ)) rfl
      simp only [Option.isSome_none, Bool.false_eq_true, if_false]
      omega
    | retry =>
      have stayed := @pending_stayed run report _ placed.distinct accepts.active
        (fun other differ => (@retry_steps run step report at_ report.reason other).trans (if_neg differ)) rfl
      simp only [Option.isSome_none, Bool.false_eq_true, if_false]
      omega
    | leave outcome =>
      have gone := @pending_left run report _ placed.distinct accepts.active
        (fun other differ => (@left_steps run step report at_ outcome other).trans (if_neg differ)) left_activeSteps
      have arrived : pending (arrive flow report.stepId outcome (left run step report at_ outcome)
          (opened flow run report.stepId outcome)) ≤ pending (left run step report at_ outcome) :=
        pending_arrive (left_covers placed.covers) left_absent left_openable
      simp only [Option.isSome_some, if_true]
      omega
  · intro leaves
    rw [total]
    cases way : routeOf flow run stepDef step report at_ with
    | hold reason | retry => simp [way] at leaves
    | leave outcome => exact no_ceiling way

end Step

variable {flow : WorkflowDef} {run : WorkflowRun}

theorem reportStep_pays (formed : WellFormed flow) (placed : Placed flow run) (event : StepAttemptReport × At) :
    ∃ fee ≤ 1, (if (leavesWith flow run event.1 event.2).isSome then 1 else 0) + pending (reportStep flow run event).1 ≤
        pending run + fee ∧
      (reportStep flow run event).1.totalStepsExecuted = run.totalStepsExecuted + UInt32.ofNat fee ∧
      ((leavesWith flow run event.1 event.2).isSome → (reportStep flow run event).1.totalStepsExecuted ≤ flow.maxTotalSteps) := by
  rcases reportStep_cases formed placed.covers event with ⟨same, refused⟩ | ⟨stepDef, step, accepts, left⟩
  · have stays : leavesWith flow run event.1 event.2 = none := by
      rcases leaves : leavesWith flow run event.1 event.2 with _ | outcome
      · rfl
      · obtain ⟨stepDef, step, accepts, -⟩ := leavesWith_accepts leaves
        exact absurd accepts (refused stepDef step)
    rw [same, stays]
    exact ⟨0, Nat.zero_le _, by simp, by simp, fun leaves => by cases leaves⟩
  · obtain ⟨pays, total, bound⟩ := @exit_pays flow run stepDef step event.1 event.2 placed accepts
    rw [left]
    refine ⟨_, ?_, pays, total, fun leaves => bound (if_pos leaves)⟩
    split <;> omega

/-- In every state of a run the active steps are distinct steps of the definition, each with its instance. -/
theorem active_steps_placed {id : WorkflowRunId} {title author : String} {at_ : At}
    (made : WorkflowRun.new id flow title at_ author = .ok run) (events : List (StepAttemptReport × At)) :
    (Machine.run (reportStep flow) run events).activeSteps.Nodup ∧
      ∀ stepId ∈ (Machine.run (reportStep flow) run events).activeSteps, (∃ stepDef, flow.findStep stepId = some stepDef) ∧
        ∃ step, (Machine.run (reportStep flow) run events).steps[stepId]? = some step := by
  have started := new_started made
  have placed := Machine.run_invariant (reportStep_placed started.formed) started.placed events
  refine ⟨placed.distinct, fun stepId member => ?_⟩
  have known := placed.known stepId member
  exact ⟨findStep_isSome known, placed.covers stepId known⟩

/-- Of a run's reports, sign-offs among them, at most `max_total_steps` take a step out of the active ones. -/
theorem departures_bounded {id : WorkflowRunId} {title author : String} {at_ : At}
    (made : WorkflowRun.new id flow title at_ author = .ok run) (events : List (StepAttemptReport × At))
    (few : events.length < 2 ^ 32) : departures flow run events ≤ flow.maxTotalSteps.toNat := by
  have started := new_started made
  have general : ∀ (events : List (StepAttemptReport × At)) (run : WorkflowRun) (earlier : Nat), Placed flow run →
      earlier + pending run ≤ run.totalStepsExecuted.toNat → earlier ≤ flow.maxTotalSteps.toNat →
      run.totalStepsExecuted.toNat + events.length < 2 ^ 32 →
      earlier + departures flow run events ≤ flow.maxTotalSteps.toNat := by
    intro events
    induction events with
    | nil =>
      intro run earlier _ _ bounded _
      exact bounded
    | cons event rest ih =>
      intro run earlier placed paid bounded room
      obtain ⟨fee, small, pays, total, ceiling⟩ := reportStep_pays started.formed placed event
      have counted : (reportStep flow run event).1.totalStepsExecuted.toNat = run.totalStepsExecuted.toNat + fee := by
        rw [total, UInt32.toNat_add, UInt32.toNat_ofNat']
        rw [length_cons] at room
        omega
      have next := ih (reportStep flow run event).1
        (earlier + if (leavesWith flow run event.1 event.2).isSome then 1 else 0)
        (reportStep_placed started.formed run event placed) (by omega) ?_ (by rw [length_cons] at room; omega)
      · rw [departures, ← Nat.add_assoc]
        exact next
      · split
        · rename_i leaves
          have most := UInt32.le_iff_toNat_le.mp (ceiling leaves)
          rw [if_pos leaves] at pays
          omega
        · exact bounded
  have fresh : run.totalStepsExecuted.toNat = 0 ∧ pending run = 0 := by
    obtain ⟨_, _, made⟩ := bind_ok made
    obtain ⟨_, _, made⟩ := bind_ok made
    cases made
    refine ⟨rfl, countP_eq_zero.mpr fun stepId _ => ?_⟩
    unfold charged
    rcases held : (newSteps flow)[stepId]? with _ | step
    · simp
    obtain ⟨stepDef, rfl⟩ := (newSteps_fresh flow).new stepId step held
    simp [newInstance]
  have all := general events run 0 started.placed (by omega) (Nat.zero_le _) (by omega)
  omega

theorem active_steps_placed_sample :
    (Machine.run (reportStep joined) (started joined) [report "plan" .pass]).activeSteps =
        ["build", "check"] ∧
      (Machine.run (reportStep joined) (started joined) [report "plan" .pass]).activeSteps.Nodup :=
  ⟨by decide +kernel, (@active_steps_placed _ _ "urn:run:1" "Run" "owner" "1970-01-01T00:00:00.000Z" rfl _).1⟩

theorem departures_bounded_sample :
    departures joined (started joined) [report "plan" .pass, report "build" .pass] = 2 ∧
      departures joined (started joined) [report "plan" .pass, report "build" .pass] ≤
        joined.maxTotalSteps.toNat := by
  have made : WorkflowRun.new "urn:run:1" joined "Run" "1970-01-01T00:00:00.000Z" "owner" =
      .ok (started joined) := rfl
  exact ⟨by decide +kernel, departures_bounded made _ (by decide)⟩

end FerroLoop.Workflow

import FerroLoop.Wire.Delivery.Ledger

/-!
What a transition can do, said once. Every stored change but a new prepare touches only the
newest attempt of its record: `Moves` lists those changes, one rule for each branch of the
source, and `Ownership` says what happens to the capacity.
-/

namespace FerroLoop.Wire.Delivery
open Checked

/-- The error a sound ledger can still raise: an exhausted counter. -/
def Fault.Benign (fault : Fault) : Prop :=
  fault = .revisionExhausted

inductive Kind where
  | arm (attempt : AttemptBinding)
  | prepare | release | settle | manualAck | invalidatePrepared | annotate | close | retire
  deriving DecidableEq

def DeliveryCommand.kind : DeliveryCommand → Kind
  | .prepare _ => .prepare
  | .arm input => .arm input.attempt
  | .release _ => .release
  | .settle _ => .settle
  | .manualAck _ => .manualAck
  | .invalidatePrepared _ _ _ => .invalidatePrepared
  | .annotate _ _ => .annotate
  | .close _ => .close

/-- What a command can change besides revisions, the annotation and the capacity index: the
newest attempt, the record's standing and the recipient's barrier. -/
structure Front where
  attempt : AttemptSummary
  eligibility : Eligibility
  held : Option HoldReason
  acknowledgment : AcknowledgmentState
  barrier : Option DeliveryKey

def Cell.front (cell : Cell) (attempt : AttemptSummary) : Front where
  attempt
  eligibility := cell.record.eligibility
  held := cell.record.held
  acknowledgment := cell.record.acknowledgment
  barrier := cell.recipient.barrier

def AttemptSummary.freed (attempt : AttemptSummary) (state : CapacityState) : AttemptSummary :=
  if attempt.capacity = .held then { attempt with capacity := state } else attempt

def Front.stopped (f : Front) : AttemptSummary :=
  if f.eligibility = .prepared then f.attempt.freed .released else f.attempt

def lifted (key : DeliveryKey) (barrier : Option DeliveryKey) : Option DeliveryKey :=
  if barrier = some key then none else barrier

def Front.fenced (f : Front) : Bool :=
  f.eligibility == .held && (f.held == some .unconfirmed || f.held == some .evidenceOverflow)

def Front.reopened (f : Front) (prepares : Nat) : Front :=
  { f with
    eligibility := if prepares < 3 then .eligible else .held
    held := if prepares ≥ 3 then some .budgetExhausted else none }

/-- One rule for each way a command or a retirement changes the front of a record. -/
inductive Moves (key : DeliveryKey) (prepares : Nat) : Kind → Front → Front → Prop
  | exhaust {f : Front} : 3 ≤ prepares → f.eligibility = .eligible →
      Moves key prepares .prepare f { f with eligibility := .held, held := some .budgetExhausted }
  | arm {f : Front} (input : ArmInput) : f.eligibility = .prepared → f.attempt.fresh →
      f.attempt.binding = input.attempt → f.barrier = none →
      Moves key prepares (.arm input.attempt) f
        { f with attempt := armedAttempt f.attempt input, eligibility := .mutationArmed, barrier := some key }
  | release {f : Front} (proof : DeliveryEvidence) :
      f.eligibility = .prepared ∨ f.eligibility = .mutationArmed → f.attempt.capacity ≠ .retired →
      (f.attempt.armedAt.isSome → proof = .definitiveNoMutation) →
      Moves key prepares .release f
        (Front.reopened
          { f with
            attempt := { f.attempt with evidence := some proof, frozen := none }.freed .released
            barrier := lifted key f.barrier } prepares)
  | contradict {f : Front} :
      Moves key prepares .settle f
        { f with
          attempt := if f.attempt.armedAt.isNone then f.attempt.freed .released else f.attempt
          eligibility := .held, held := some .unconfirmed, barrier := some key }
  | settleFenced {f : Front} (evidence : DeliveryEvidence) (detail : Excerpt) :
      f.attempt.armedAt.isSome → f.attempt.evidence = none →
      f.attempt.capacity = .retired ∨ f.fenced →
      Moves key prepares .settle f
        { f with attempt := { f.attempt with evidence := some evidence, detail }.freed .released }
  | settleUncertain {f : Front} (evidence : DeliveryEvidence) (detail : Excerpt) (reason : HoldReason) :
      f.attempt.armedAt.isSome → f.attempt.evidence = none → f.attempt.capacity ≠ .retired →
      reason = .unconfirmed ∨ reason = .evidenceOverflow →
      Moves key prepares .settle f
        { f with
          attempt := { f.attempt with evidence := some evidence, detail }.freed .released
          eligibility := .held, held := some reason, barrier := some key }
  | settleNoMutation {f : Front} (detail : Excerpt) :
      f.attempt.armedAt.isSome → f.attempt.evidence = none → f.attempt.capacity ≠ .retired → ¬ f.fenced →
      Moves key prepares .settle f
        { f with
          attempt := { f.attempt with
            evidence := some .definitiveNoMutation, detail, frozen := none }.freed .released
          eligibility := if prepares < 3 ∧ f.acknowledgment.manualAt.isNone ∧
              !f.acknowledgment.legacyUnknown then .eligible else .held
          held := if prepares ≥ 3 then some .budgetExhausted else none
          barrier := lifted key f.barrier }
  | settlePositive {f : Front} (evidence : DeliveryEvidence) (detail : Excerpt) :
      f.attempt.armedAt.isSome → f.attempt.evidence = none → f.attempt.capacity ≠ .retired → ¬ f.fenced →
      Moves key prepares .settle f
        { f with
          attempt := { f.attempt with evidence := some evidence, detail }.freed .released
          eligibility := .settled, held := none, barrier := lifted key f.barrier }
  | acknowledge {f : Front} (at_ : At) : f.acknowledgment.manualAt = none →
      Moves key prepares .manualAck f
        { f with
          attempt := f.stopped
          eligibility := if f.eligibility = .prepared then .held else f.eligibility
          acknowledgment := { f.acknowledgment with manualAt := some at_ } }
  | invalidate {f : Front} : f.eligibility = .prepared →
      Moves key prepares .invalidatePrepared f
        (Front.reopened { f with attempt := f.attempt.freed .released } prepares)
  | note {f : Front} : Moves key prepares .annotate f f
  | overflow {f : Front} :
      Moves key prepares .annotate f
        { f with
          attempt := f.stopped, eligibility := .held
          held := if f.held ≠ some .unconfirmed then some .evidenceOverflow else f.held }
  | close {f : Front} :
      Moves key prepares .close f
        { f with
          attempt := f.stopped, eligibility := .held
          held := if f.held.isNone then some .disabled else f.held }
  | retire {f : Front} : f.attempt.armedAt.isSome → f.attempt.capacity = .held →
      Moves key prepares .retire f { f with attempt := { f.attempt with capacity := .retired } }

def Cell.owner (cell : Cell) (attempt : AttemptSummary) : ActiveOwner where
  key := cell.record.key
  attempt := attempt.binding

/-- A changed attempt keeps its capacity and the controls with it, or gives it back and is
taken out of both controls. -/
inductive Ownership (c c' : Cell) (a a' : AttemptSummary) : Prop
  | kept : a'.capacity = a.capacity → c'.recipient.active = c.recipient.active →
      c'.global.activeIndex = c.global.activeIndex →
      c'.global.activeAttempts = c.global.activeAttempts → Ownership c c' a a'
  | freed : a.capacity = .held → a'.capacity ≠ .held →
      c.recipient.active = some (c.owner a) → c'.recipient.active = none →
      c'.global.activeIndex = c.global.activeIndex.filter (· ≠ c.owner a) →
      c'.global.activeAttempts + 1 = c.global.activeAttempts → Ownership c c' a a'

/-- One stored change of a cell whose newest attempt is `a`. -/
structure Moved (kind : Kind) (c c' : Cell) (earlier : List AttemptSummary) (a a' : AttemptSummary) :
    Prop where
  before : c.record.attempts = earlier ++ [a]
  after : c'.record.attempts = earlier ++ [a']
  schema : c'.record.schema = c.record.schema
  key : c'.record.key = c.record.key
  generation : c'.record.generation = c.record.generation
  binding : c'.record.binding = c.record.binding
  prepares : c'.record.prepares = c.record.prepares
  recipient : c'.recipient.binding = c.recipient.binding
  token : a'.binding = a.binding
  ownership : Ownership c c' a a'
  moves : Moves c.record.key c.record.prepares kind (c.front a) (c'.front a')

/-- What a change of the newest attempt relies on: earlier attempts are over, and the capacity
the newest one holds is its own in both controls. -/
structure Steady (c : Cell) (earlier : List AttemptSummary) (a : AttemptSummary) : Prop where
  newest : c.record.attempts = earlier ++ [a]
  settled : ∀ b ∈ earlier, b.armedAt.isSome → b.evidence.isSome
  free : ∀ b ∈ earlier, b.capacity ≠ .held
  active : a.capacity = .held → c.recipient.active = some (c.owner a)
  indexed : a.capacity = .held → c.owner a ∈ c.global.activeIndex
  global : validGlobal c.global = true

theorem bump_ends (revision : Revision) : Ends Fault.Benign (bump revision) fun _ => True := by
  unfold bump
  split
  · exact True.intro
  · exact rfl

@[simp] theorem freed_binding (a : AttemptSummary) (state : CapacityState) :
    (a.freed state).binding = a.binding := by
  unfold AttemptSummary.freed
  split <;> rfl

theorem validGlobal_length {global : GlobalControl} (valid : validGlobal global = true) :
    global.activeAttempts = global.activeIndex.length := by
  simp only [validGlobal, Bool.and_eq_true, beq_iff_eq] at valid
  exact valid.1.2

variable {c : Cell} {a a₁ a' : AttemptSummary} {w : Work} {earlier : List AttemptSummary}

theorem releaseCapacity_ends {cell : Cell}
    {state : CapacityState} (steady : Steady c earlier a) (notHeld : state ≠ .held)
    (recipient : cell.recipient = c.recipient) (global : cell.global = c.global)
    (key : cell.record.key = c.record.key) (newest : cell.record.attempts = earlier ++ [a₁])
    (binding : a₁.binding = a.binding) (capacity : a₁.capacity = a.capacity) :
    Ends Fault.Benign (releaseCapacity cell earlier.length state) fun out =>
      out.1.record = { cell.record with attempts := earlier ++ [a₁.freed state] } ∧
      out.1.recipient.barrier = c.recipient.barrier ∧ out.1.recipient.binding = c.recipient.binding ∧
      Ownership c out.1 a (a₁.freed state) ∧
      (out.2 = false → out.1.recipient = c.recipient ∧ out.1.global = c.global) := by
  have found : cell.record.attempts[earlier.length]? = some a₁ := by simp [newest]
  simp only [releaseCapacity, found]
  by_cases held : a.capacity = .held
  · have held₁ : a₁.capacity = .held := capacity.trans held
    have active := steady.active held
    have indexed := steady.indexed held
    simp only [Cell.owner] at active indexed
    have positive : 0 < c.global.activeIndex.length := List.length_pos_of_mem indexed
    have count := validGlobal_length steady.global
    have owner : ({ key := cell.record.key, attempt := a₁.binding } : ActiveOwner) = c.owner a := by
      simp [Cell.owner, key, binding]
    simp only [held₁, ne_eq, not_true_eq_false, ↓reduceIte, owner, recipient, global, Cell.owner, active,
      indexed, steady.global, Bool.not_true, Bool.false_eq_true, or_self]
    have counted : decrement c.global.activeAttempts = .ok (c.global.activeAttempts - 1) := by
      unfold decrement
      rw [if_neg (by omega)]
    rw [counted, ok_bind]
    refine Ends.bind (bump_ends _) fun recipientRevision _ => ?_
    refine Ends.bind (bump_ends _) fun globalRevision _ => ?_
    simp only [ends_pure, AttemptSummary.freed, held₁, ↓reduceIte, newest]
    refine ⟨?_, trivial, trivial, ?_, by simp⟩
    · simp
    · exact .freed held notHeld active rfl rfl (by dsimp only; omega)
  · have held₁ : a₁.capacity ≠ .held := by rwa [capacity]
    simp only [held₁, ne_eq, not_false_eq_true, ↓reduceIte, ends_ok, AttemptSummary.freed, recipient, global]
    refine ⟨?_, trivial, trivial, ?_, by simp⟩
    · rw [← newest]
    · exact .kept capacity (by rw [recipient]) (by rw [global]) (by rw [global])

/-- The work started at `c`, whose newest attempt is now `a'`, reports every change it made. -/
structure Tracks (c : Cell) (a : AttemptSummary) (w : Work) (a' : AttemptSummary) : Prop where
  recipient : w.cell.recipient.binding = c.recipient.binding
  ownership : Ownership c w.cell a a'
  recipientKept : w.recipientChanged = false → w.cell.recipient = c.recipient
  globalKept : w.capacityChanged = false → w.cell.global = c.global

variable {a₂ : AttemptSummary}

theorem Ownership.congr {c₁ c₂ : Cell} (h : Ownership c c₁ a a₁)
    (active : c₂.recipient.active = c₁.recipient.active) (global : c₂.global = c₁.global)
    (capacity : a₂.capacity = a₁.capacity) : Ownership c c₂ a a₂ := by
  cases h with
  | kept same sameActive sameIndex sameCount =>
    exact .kept (capacity.trans same) (active.trans sameActive) (by rw [global, sameIndex])
      (by rw [global, sameCount])
  | freed held notHeld own none index count =>
    exact .freed held (by rwa [capacity]) own (active.trans none) (by rw [global, index])
      (by rw [global, count])

theorem Tracks.start (c : Cell) (a : AttemptSummary) : Tracks c a { cell := c } a where
  recipient := rfl
  ownership := .kept rfl rfl rfl rfl
  recipientKept := fun _ => rfl
  globalKept := fun _ => rfl

theorem Tracks.updateRecord (tracks : Tracks c a w a₁)
    (capacity : a₂.capacity = a₁.capacity) (f : DeliveryRecord → DeliveryRecord) :
    Tracks c a (w.updateRecord f) a₂ where
  recipient := tracks.recipient
  ownership := tracks.ownership.congr rfl rfl capacity
  recipientKept := tracks.recipientKept
  globalKept := tracks.globalKept

theorem Work.release_ends
    (steady : Steady c earlier a)
    (recipient : w.cell.recipient = c.recipient) (global : w.cell.global = c.global)
    (key : w.cell.record.key = c.record.key) (newest : w.cell.record.attempts = earlier ++ [a₁])
    (binding : a₁.binding = a.binding) (capacity : a₁.capacity = a.capacity) :
    Ends Fault.Benign (w.release earlier.length) fun w' =>
      w'.cell.record = { w.cell.record with attempts := earlier ++ [a₁.freed .released] } ∧
      w'.cell.recipient.barrier = c.recipient.barrier ∧ w'.receipt = w.receipt ∧
      Tracks c a w' (a₁.freed .released) := by
  refine Ends.bind (releaseCapacity_ends steady (by decide) recipient global key newest binding capacity) ?_
  rintro ⟨cell, changed⟩ ⟨record, barrier, same, ownership, kept⟩
  exact ⟨record, barrier, rfl, same, ownership, fun unchanged => (kept unchanged).1,
    fun unchanged => (kept unchanged).2⟩

theorem Work.setBarrier_ends (tracks : Tracks c a w a')
    (barrier : Option DeliveryKey) :
    Ends Fault.Benign (w.setBarrier barrier) fun w' =>
      w'.cell.record = w.cell.record ∧ w'.cell.recipient.barrier = barrier ∧ w'.receipt = w.receipt ∧
      Tracks c a w' a' := by
  have counted : Ends Fault.Benign (if w.recipientChanged then .ok w.cell.recipient.revision
      else bump w.cell.recipient.revision) fun _ => True := by
    split
    · exact True.intro
    · exact bump_ends _
  refine counted.bind fun revision _ => ?_
  refine ⟨rfl, rfl, rfl, tracks.recipient, tracks.ownership.congr rfl rfl rfl, ?_, tracks.globalKept⟩
  intro h
  cases h

theorem Work.liftBarrier_ends (tracks : Tracks c a w a') :
    Ends Fault.Benign w.liftBarrier fun w' =>
      w'.cell.record = w.cell.record ∧
      w'.cell.recipient.barrier = lifted w.cell.record.key w.cell.recipient.barrier ∧
      w'.receipt = w.receipt ∧ Tracks c a w' a' := by
  unfold Work.liftBarrier lifted
  split
  · exact Work.setBarrier_ends tracks none
  · exact ⟨rfl, rfl, rfl, tracks⟩

theorem Work.raiseBarrier_ends (tracks : Tracks c a w a') :
    Ends Fault.Benign w.raiseBarrier fun w' =>
      w'.cell.record = w.cell.record ∧ w'.cell.recipient.barrier = some w.cell.record.key ∧
      w'.receipt = w.receipt ∧ Tracks c a w' a' := by
  unfold Work.raiseBarrier
  split
  · exact Work.setBarrier_ends tracks _
  · rename_i named
    exact ⟨rfl, by simpa using named, rfl, tracks⟩

end FerroLoop.Wire.Delivery

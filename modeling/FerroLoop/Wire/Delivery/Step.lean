import FerroLoop.Wire.Delivery.Invariant

namespace FerroLoop.Wire.Delivery
open Checked Ledger

def Ledger.store (ledger : Ledger) (c : Cell) : Ledger :=
  { ledger with
    records := put ledger.records c.record.key c.record
    recipients := put ledger.recipients c.recipient.binding.recipientId c.recipient
    global := c.global }

@[simp] theorem put_same {κ ν : Type} [DecidableEq κ] (table : κ → Option ν) (key : κ) (value : ν) :
    put table key value key = some value := by
  simp [put]

theorem put_other {κ ν : Type} [DecidableEq κ] (table : κ → Option ν) {key other : κ} (value : ν)
    (different : other ≠ key) : put table key value other = table other := by
  simp [put, different]

theorem put_present {κ ν : Type} [DecidableEq κ] {table : κ → Option ν} {key : κ} {value : ν}
    (present : table key = some value) : put table key value = table := by
  funext k
  unfold put
  split
  · rename_i same
    rw [same, present]
  · rfl

variable {ledger : Ledger} {delta : DeliveryDelta}

theorem commitDelivery_stores {c c' : Cell} {key : DeliveryKey}
    (present : ledger.cell key = some c) (filed : c.recipient.binding.recipientId = key.recipientId)
    (recipient : c'.recipient.binding = c.recipient.binding) (stores : delta.Stores c.recipient c.global c') :
    ledger.commitDelivery delta = ledger.store c' := by
  obtain ⟨_, control, global⟩ := cell_some present
  have newGlobal : delta.global.getD ledger.global = c'.global := by rw [global]; exact stores.global
  have newRecipient := stores.recipient
  simp only [commitDelivery, stores.record, stores.reservation, putRecord,
    putReservation, store]
  cases changed : delta.recipient with
  | some stored =>
    simp only [changed, Option.getD_some] at newRecipient
    simp [putRecipient, newRecipient, newGlobal]
  | none =>
    simp only [changed, Option.getD_none] at newRecipient
    have kept : put ledger.recipients c'.recipient.binding.recipientId c'.recipient = ledger.recipients := by
      apply put_present
      rw [recipient, filed, control, newRecipient]
    simp [putRecipient, kept, newGlobal]

def Event.key : Event → DeliveryKey
  | .command _ sent => sent.key
  | .retire _ target => target.owner.key

def Event.kind : Event → Kind
  | .command _ sent => sent.kind
  | .retire _ _ => .retire

structure Ledger.Prepared (ledger ledger' : Ledger) (key : DeliveryKey) (ctx : TransitionContext)
    (input : PrepareInput) : Prop where
  context : ∃ around, ledger.context around key = some ctx
  sameKey : input.key = key
  admitted : Admitted ctx input
  records : ∃ revision, ledger'.records =
    put ledger.records key { prepareRecord (startRecord ctx input) input with revision }
  reservations : ledger'.reservations = put ledger.reservations key.originalId
    { originalId := key.originalId, generation := input.generation }
  recipients : ∃ revision, ledger'.recipients = put ledger.recipients key.recipientId
    { ctx.recipient with active := some { key, attempt := input.attempt }, revision }
  index : ledger'.global.activeIndex = ledger.global.activeIndex ++ [{ key, attempt := input.attempt }]
  count : ledger'.global.activeAttempts = ledger.global.activeAttempts + 1

inductive StepEffect (ledger : Ledger) (event : Event) (ledger' : Ledger) (outcome : Outcome) : Prop
  | idle (same : ledger' = ledger)
      (notPrepared : ∀ record, outcome ≠ .delivery (.ok (.prepared record)))
      (notArmed : ∀ record, outcome ≠ .delivery (.ok (.armed record)))
      (applied : ∀ view, outcome = .delivery (.ok (.applied view)) → event.kind = .settle ∨
        (event.kind = .manualAck ∧ ∃ record, ledger.records event.key = some record ∧
          record.acknowledgment.manualAt.isSome))
      (notRetired : ∀ view, outcome ≠ .retirement (.ok (.retired view)))
      (benign : ∀ fault, outcome = .delivery (.error fault) ∨ outcome = .retirement (.error fault) →
        fault.Benign)
  | prepared (ctx : TransitionContext) (input : PrepareInput) (around : Surroundings)
      (same : event = .command around (.prepare input))
      (result : ∃ record, outcome = .delivery (.ok (.prepared record)))
      (prepared : ledger.Prepared ledger' event.key ctx input)
  | stored (earlier : List AttemptSummary) (a : AttemptSummary) (c c' : Cell) (a' : AttemptSummary)
      (present : ledger.cell event.key = some c) (moved : Moved event.kind c c' earlier a a')
      (same : ledger' = ledger.store c')
      (succeeded : ∀ fault, outcome ≠ .delivery (.error fault) ∧ outcome ≠ .retirement (.error fault))
      (notPrepared : ∀ record, outcome ≠ .delivery (.ok (.prepared record)))
      (armed : ∀ record, outcome = .delivery (.ok (.armed record)) → ∃ attempt, event.kind = .arm attempt)

variable {around : Surroundings} {ctx : TransitionContext}

theorem context_some {key : DeliveryKey}
    (h : ledger.context around key = some ctx) :
    ledger.recipients key.recipientId = some ctx.recipient ∧ ctx.key = key ∧
      ctx.record = ledger.records key ∧ ctx.reservation = ledger.reservations key.originalId ∧
      ctx.global = ledger.global := by
  obtain ⟨recipient, control, rfl⟩ := Option.map_eq_some_iff.mp h
  exact ⟨control, rfl, rfl, rfl, rfl⟩

theorem context_cell {key : DeliveryKey}
    {record : DeliveryRecord} (context : ledger.context around key = some ctx)
    (present : ctx.record = some record) :
    ledger.cell key = some { record, recipient := ctx.recipient, global := ctx.global } := by
  obtain ⟨control, _, stored, _, global⟩ := context_some context
  rw [stored] at present
  simp [cell, present, control, global]

theorem Ledger.Inv.context_steady {key : DeliveryKey}
    (inv : ledger.Inv) (context : ledger.context around key = some ctx) :
    ctx.Steady := by
  intro record present
  obtain ⟨earlier, a, _, steady⟩ := inv.steady (context_cell context present)
  exact ⟨earlier, a, steady⟩

variable {input : PrepareInput}

theorem startRecord_key
    (inv : ledger.Inv) (context : ledger.context around input.key = some ctx) :
    (startRecord ctx input).key = input.key := by
  obtain ⟨_, sameKey, storedRecord, _, _⟩ := context_some context
  unfold startRecord
  cases present : ctx.record with
  | none => exact sameKey
  | some record =>
    obtain ⟨earlier, a, sound⟩ := inv.sound input.key record (storedRecord ▸ present)
    exact sound.filed

theorem commitDelivery_prepares
    (inv : ledger.Inv)
    (context : ledger.context around input.key = some ctx) (admitted : Admitted ctx input)
    (prepares : delta.Prepares ctx input) :
    ledger.Prepared (ledger.commitDelivery delta) input.key ctx input := by
  obtain ⟨control, sameKey, _, _, sameGlobal⟩ := context_some context
  obtain ⟨revision, newRecord⟩ := prepares.record
  obtain ⟨recipientRevision, newRecipient⟩ := prepares.recipient
  obtain ⟨globalRevision, newGlobal⟩ := prepares.global
  have recordKey : (prepareRecord (startRecord ctx input) input).key = input.key := startRecord_key inv context
  have filed : ctx.recipient.binding.recipientId = input.key.recipientId := inv.filed _ _ control
  refine ⟨⟨around, context⟩, rfl, admitted, ⟨revision, ?_⟩, ?_, ⟨recipientRevision, ?_⟩, ?_, ?_⟩
  all_goals
    simp only [commitDelivery, newRecord, prepares.reservation, newRecipient, newGlobal,
      putRecord, putReservation, putRecipient, recordKey, sameKey, filed,
      Option.getD_some, sameGlobal]

theorem applyDelivery_effect (sha : Sha256) (inv : ledger.Inv) (around : Surroundings)
    (sent : DeliveryCommand) :
    StepEffect ledger (.command around sent) (applyDelivery sha ledger around sent).1
      (.delivery (applyDelivery sha ledger around sent).2) := by
  unfold applyDelivery
  rcases context : ledger.context around sent.key with _ | ctx
  · exact .idle rfl (by simp) (by simp) (by simp) (by simp) (by simp)
  obtain ⟨control, sameKey, storedRecord, _, sameGlobal⟩ := context_some context
  have ends := transition_ends sha (inv.context_steady context) sent
  dsimp only
  cases result : transition sha ctx sent with
  | error fault =>
    rw [result] at ends
    refine .idle rfl (by simp) (by simp) (by simp) (by simp) ?_
    intro fault' h
    have same : fault = fault' := by simpa using h
    exact same ▸ ends
  | ok delta =>
    rw [result] at ends
    cases ends with
    | idle idle =>
      refine .idle ?_ ?_ ?_ ?_ (by simp) (by simp)
      · simp [commitDelivery, idle.record, idle.reservation, idle.recipient, idle.global,
          putRecord, putReservation, putRecipient]
      · intro record h
        exact idle.notPrepared record (by simpa using h)
      · intro record h
        exact idle.notArmed record (by simpa using h)
      · intro view h
        rcases idle.applied view (by simpa using h) with settle | ⟨ack, record, present, acked⟩
        · exact .inl settle
        · exact .inr ⟨ack, record, storedRecord ▸ present, acked⟩
    | prepared input same admitted prepares =>
      subst same
      obtain ⟨stored, answered⟩ := prepares.result
      exact .prepared ctx input around rfl ⟨stored, by simp only [answered]⟩
        (commitDelivery_prepares inv context admitted prepares)
    | stored record earlier a c' a' present stores moved armed =>
      have cell := context_cell context present
      have filed : ctx.recipient.binding.recipientId = sent.key.recipientId := inv.filed _ _ control
      refine .stored earlier a _ c' a' cell moved ?_ (by simp) ?_ ?_
      · exact commitDelivery_stores cell filed moved.recipient stores
      · intro record h
        exact stores.notPrepared record (by simpa using h)
      · intro record h
        exact armed record (by simpa using h)

theorem retireOrphanCapacity_effect (inv : ledger.Inv) (around : Surroundings)
    (target : CapacityRetirementTarget) :
    StepEffect ledger (.retire around target) (retireOrphanCapacity ledger around target).1
      (.retirement (retireOrphanCapacity ledger around target).2) := by
  unfold retireOrphanCapacity
  rcases context : ledger.context around target.owner.key with _ | ctx
  · exact .idle rfl (by simp) (by simp) (by simp) (by simp) (by simp)
  have ends := transitionCapacityRetirement_ends (inv.context_steady context) target
  dsimp only
  cases result : transitionCapacityRetirement ctx target with
  | error fault =>
    rw [result] at ends
    refine .idle rfl (by simp) (by simp) (by simp) (by simp) ?_
    intro fault' h
    have same : fault = fault' := by simpa using h
    exact same ▸ ends
  | ok delta =>
    rw [result] at ends
    cases ends with
    | idle record recipient global notRetired =>
      refine .idle ?_ (by simp) (by simp) (by simp) ?_ (by simp)
      · simp [commitRetirement, record, recipient, global, putRecord, putRecipient]
      · intro view h
        exact notRetired view (by simpa using h)
    | stored record earlier a c' a' present newRecord newRecipient newGlobal moved =>
      have cell := context_cell context present
      refine .stored earlier a _ c' a' cell moved ?_ (by simp) (by simp) (by simp)
      simp [commitRetirement, newRecord, newRecipient, newGlobal, putRecord,
        putRecipient, store]

theorem step_effect (sha : Sha256) (inv : ledger.Inv) (event : Event) :
    StepEffect ledger event (step sha ledger event).1 (step sha ledger event).2 := by
  cases event with
  | command around sent => exact applyDelivery_effect sha inv around sent
  | retire around target => exact retireOrphanCapacity_effect inv around target

end FerroLoop.Wire.Delivery

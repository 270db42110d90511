import FerroLoop.Wire.Delivery.Ownership

namespace FerroLoop.Wire.Delivery

open List

variable {key : DeliveryKey} {kind : Kind} {f f' : Front}

section

variable {prepares : Nat} (moves : Moves key prepares kind f f')

include moves

theorem Moves.armed (armed : f.attempt.armedAt.isSome) : f'.attempt.armedAt.isSome := by
  have kept : ∀ (a : AttemptSummary) (state : CapacityState), (a.freed state).armedAt = a.armedAt := by
    intro a state
    unfold AttemptSummary.freed
    split <;> rfl
  cases moves with
  | arm input => rfl
  | contradict =>
    dsimp only
    split
    · rwa [kept]
    · exact armed
  | acknowledge | overflow | close =>
    dsimp only [Front.stopped]
    split
    · rwa [kept]
    · exact armed
  | _ => simpa [Front.reopened, kept] using armed

theorem Moves.acked (acked : f.acknowledgment.manualAt.isSome) : f'.acknowledgment.manualAt.isSome := by
  cases moves with
  | acknowledge at_ => rfl
  | _ => exact acked

theorem Moves.barred (barred : f.acknowledgment.manualAt.isSome → f.eligibility ≠ .prepared) :
    f'.acknowledgment.manualAt.isSome → f'.eligibility ≠ .prepared := by
  intro acked
  cases moves with
  | acknowledge at_ fresh =>
    dsimp only
    split
    · decide
    · assumption
  | release | settleNoMutation | invalidate =>
    dsimp only [Front.reopened]
    split <;> decide
  | note | settleFenced | retire => exact barred acked
  | _ => simp

end

variable (sha : Sha256) {binding : AttemptBinding} {key : DeliveryKey} {outcome : Outcome} {ledger : Ledger}

theorem Moves.of_arm {prepares : Nat}
    (moves : Moves key prepares (.arm binding) f f') :
    f.eligibility = .prepared ∧ f.attempt.fresh ∧ f.attempt.binding = binding ∧ f.barrier = none ∧
      f'.attempt.armedAt.isSome := by
  cases moves with
  | arm input prepared fresh same barrier => exact ⟨prepared, fresh, same, barrier, rfl⟩

theorem Moves.of_manualAck {prepares : Nat}
    (moves : Moves key prepares .manualAck f f') : f'.acknowledgment.manualAt.isSome := by
  cases moves with
  | acknowledge at_ => rfl

/-! ### What an answer says of its event -/

variable {event : Event}

theorem prepares_answer
    (h : prepares key (event, outcome) = true) :
    event.key = key ∧ ∃ record, outcome = .delivery (.ok (.prepared record)) := by
  unfold prepares at h
  split at h
  · rename_i same
    obtain ⟨rfl, rfl⟩ := Prod.mk.inj same
    exact ⟨by simpa [Event.key] using h, _, rfl⟩
  · cases h

theorem not_prepares (key : DeliveryKey) (event : Event)
    (other : ∀ record, outcome ≠ .delivery (.ok (.prepared record))) : prepares key (event, outcome) = false := by
  apply Bool.eq_false_iff.mpr
  intro h
  obtain ⟨_, record, answer⟩ := prepares_answer h
  exact other record answer

theorem arms_answer
    (h : arms key binding (event, outcome) = true) :
    event.key = key ∧ event.kind = .arm binding ∧ ∃ record, outcome = .delivery (.ok (.armed record)) := by
  unfold arms at h
  split at h
  · rename_i same
    obtain ⟨rfl, rfl⟩ := Prod.mk.inj same
    simp only [Bool.and_eq_true, beq_iff_eq] at h
    exact ⟨h.1, by rw [← h.2]; rfl, _, rfl⟩
  · cases h

theorem acknowledges_answer
    (h : acknowledges key (event, outcome) = true) :
    event.key = key ∧ event.kind = .manualAck ∧ ∃ view, outcome = .delivery (.ok (.applied view)) := by
  unfold acknowledges at h
  split at h
  · rename_i same
    obtain ⟨rfl, rfl⟩ := Prod.mk.inj same
    exact ⟨by simpa [Event.key, DeliveryCommand.key] using h, rfl, _, rfl⟩
  · cases h

section

variable (ledger : Ledger) (key : DeliveryKey)

/-- The record of `key` keeps an armed attempt with this binding. -/
def Ledger.Armed (binding : AttemptBinding) : Prop :=
  ∃ record a, ledger.records key = some record ∧ a ∈ record.attempts ∧ a.binding = binding ∧ a.armedAt.isSome

/-- The record of `key` is acknowledged by hand. -/
def Ledger.Acked : Prop :=
  ∃ record, ledger.records key = some record ∧ record.acknowledgment.manualAt.isSome

def Ledger.prepareCount : Nat :=
  ((ledger.records key).map (·.prepares)).getD 0

end

def Ledger.Barred (ledger : Ledger) : Prop :=
  ∀ key record, ledger.records key = some record → record.acknowledgment.manualAt.isSome →
    record.eligibility ≠ .prepared

variable {binding : AttemptBinding}

section Stored

variable {ledger : Ledger} {key : DeliveryKey} {kind : Kind} {c c' : Cell}
  {earlier : List AttemptSummary} {a a' : AttemptSummary}

variable {k : DeliveryKey}

section

variable (inv : ledger.Inv) (present : ledger.cell key = some c) (moved : Moved kind c c' earlier a a')

include inv present moved

theorem Ledger.Inv.store_record {record : DeliveryRecord} (row : (ledger.store c').records k = some record) :
    (k = key ∧ record = c'.record) ∨ (k ≠ key ∧ ledger.records k = some record) := by
  rw [(inv.store_rows present moved).1] at row
  by_cases here : k = key
  · subst here
    exact .inl ⟨rfl, by simpa using row.symm⟩
  · exact .inr ⟨here, by rwa [put_other _ _ here] at row⟩

theorem Ledger.Inv.store_armed (armed : ledger.Armed k binding) : (ledger.store c').Armed k binding := by
  obtain ⟨record, b, row, member, same, set⟩ := armed
  have rows := (inv.store_rows present moved).1
  by_cases here : k = key
  · subst here
    have own : record = c.record := Option.some.inj (row.symm.trans (cell_some present).1)
    subst own
    rw [moved.before] at member
    rcases mem_append.mp member with past | newest
    · exact ⟨c'.record, b, by rw [rows]; simp, by simp [moved.after, past], same, set⟩
    have newest : b = a := by simpa using newest
    subst newest
    exact ⟨c'.record, a', by rw [rows]; simp, by simp [moved.after], moved.token.trans same,
      moved.moves.armed set⟩
  · exact ⟨record, b, by rw [rows, put_other _ _ here]; exact row, member, same, set⟩

theorem Ledger.Inv.store_acked (acked : ledger.Acked k) : (ledger.store c').Acked k := by
  obtain ⟨record, row, set⟩ := acked
  have rows := (inv.store_rows present moved).1
  by_cases here : k = key
  · subst here
    have own : record = c.record := Option.some.inj (row.symm.trans (cell_some present).1)
    subst own
    exact ⟨c'.record, by rw [rows]; simp, moved.moves.acked set⟩
  · exact ⟨record, by rw [rows, put_other _ _ here]; exact row, set⟩

theorem Ledger.Inv.store_barred (barred : ledger.Barred) : (ledger.store c').Barred := by
  intro k record row acked
  rcases inv.store_record present moved row with ⟨rfl, rfl⟩ | ⟨_, row⟩
  · exact moved.moves.barred (barred k c.record (cell_some present).1) acked
  · exact barred k record row acked

theorem Ledger.Inv.store_prepareCount (k : DeliveryKey) : (ledger.store c').prepareCount k = ledger.prepareCount k := by
  have rows := (inv.store_rows present moved).1
  unfold Ledger.prepareCount
  by_cases here : k = key
  · subst here
    simp [rows, (cell_some present).1, moved.prepares]
  · rw [rows, put_other _ _ here]

end

end Stored

section Prepared

variable {ledger ledger' : Ledger} {key : DeliveryKey} {ctx : TransitionContext} {input : PrepareInput}

section

variable (prepared : ledger.Prepared ledger' key ctx input)

include prepared

theorem Ledger.Prepared.stored :
    ctx.record = ledger.records key := by
  obtain ⟨around, context⟩ := prepared.context
  exact (context_some context).2.2.1

variable {k : DeliveryKey}

theorem Ledger.Prepared.armed
    (armed : ledger.Armed k binding) : ledger'.Armed k binding := by
  obtain ⟨record, b, row, member, same, set⟩ := armed
  obtain ⟨revision, records⟩ := prepared.records
  by_cases here : k = key
  · subst here
    have start : startRecord ctx input = record := by simp [startRecord, prepared.stored, row]
    refine ⟨_, { b with frozen := none }, by rw [records]; exact put_same _ _ _, ?_, same, set⟩
    refine mem_append_left _ (mem_map.mpr ⟨b, ?_, rfl⟩)
    rwa [start]
  · exact ⟨record, b, by rw [records, put_other _ _ here]; exact row, member, same, set⟩

theorem Ledger.Prepared.not_acked : ¬ ledger.Acked key := by
  rintro ⟨record, row, set⟩
  have unacked := (prepared.admitted.unacked record (prepared.stored.trans row)).1
  rw [unacked] at set
  cases set

theorem Ledger.Prepared.acked
    (acked : ledger.Acked k) : ledger'.Acked k := by
  have other : k ≠ key := by
    rintro rfl
    exact prepared.not_acked acked
  obtain ⟨record, row, set⟩ := acked
  obtain ⟨revision, records⟩ := prepared.records
  exact ⟨record, by rw [records, put_other _ _ other]; exact row, set⟩

theorem Ledger.Prepared.barred (barred : ledger.Barred) :
    ledger'.Barred := by
  intro k record row acked
  obtain ⟨revision, records⟩ := prepared.records
  rw [records] at row
  by_cases here : k = key
  · subst here
    rw [put_same, Option.some.injEq] at row
    subst row
    cases present : ctx.record with
    | none => simp [prepareRecord, startRecord, present] at acked
    | some old =>
      have unacked := (prepared.admitted.unacked old present).1
      simp [prepareRecord, startRecord, present, unacked] at acked
  · exact barred k record (by rwa [put_other _ _ here] at row) acked

theorem Ledger.Prepared.prepareCount (k : DeliveryKey) :
    ledger'.prepareCount k = ledger.prepareCount k + if key = k then 1 else 0 := by
  obtain ⟨revision, records⟩ := prepared.records
  unfold Ledger.prepareCount
  by_cases here : k = key
  · subst here
    rw [records, put_same, if_pos rfl, ← prepared.stored]
    cases present : ctx.record <;> simp [prepareRecord, startRecord, present]
  · rw [records, put_other _ _ here, if_neg (Ne.symm here), Nat.add_zero]

end

end Prepared

structure Remembers (past : List (Event × Outcome)) (ledger : Ledger) : Prop where
  inv : ledger.Inv
  armed : ∀ key binding x, x ∈ past → arms key binding x = true → ledger.Armed key binding
  acked : ∀ key x, x ∈ past → acknowledges key x = true → ledger.Acked key
  counted : ∀ key, past.countP (prepares key) = ledger.prepareCount key
  barred : ledger.Barred

theorem Ledger.Inv.arm_armed {c c' : Cell}
    {earlier : List AttemptSummary} {a a' : AttemptSummary} (inv : ledger.Inv)
    (present : ledger.cell key = some c) (moved : Moved (.arm binding) c c' earlier a a') :
    (ledger.store c').Armed key binding := by
  have row : (ledger.store c').records key = some c'.record := by
    rw [(inv.store_rows present moved).1]
    simp
  obtain ⟨_, _, same, _, armed⟩ := moved.moves.of_arm
  exact ⟨c'.record, a', row, by simp [moved.after], moved.token.trans same, armed⟩

theorem step_remembers (past : List (Event × Outcome)) (ledger : Ledger) (event : Event)
    (before : Remembers past ledger) :
    Remembers (past ++ [(event, (step sha ledger event).2)]) (step sha ledger event).1 := by
  have next := step_inv sha ledger event before.inv
  cases step_effect sha before.inv event with
  | idle same notPrepared notArmed applied =>
    rw [same] at next ⊢
    refine ⟨next, ?_, ?_, ?_, before.barred⟩
    · intro key binding x member h
      rcases mem_append.mp member with old | new
      · exact before.armed key binding x old h
      · obtain rfl := mem_singleton.mp new
        obtain ⟨_, _, record, answer⟩ := arms_answer h
        exact absurd answer (notArmed record)
    · intro key x member h
      rcases mem_append.mp member with old | new
      · exact before.acked key x old h
      obtain rfl := mem_singleton.mp new
      obtain ⟨sameKey, ack, view, answer⟩ := acknowledges_answer h
      rcases applied view answer with settle | ⟨_, acked⟩
      · rw [ack] at settle
        cases settle
      · rwa [sameKey] at acked
    · intro key
      have not := not_prepares key event notPrepared
      rw [countP_append, before.counted key]
      simp [not]
  | prepared ctx input around same result prepared =>
    obtain ⟨record, result⟩ := result
    refine ⟨next, ?_, ?_, ?_, prepared.barred before.barred⟩
    · intro key binding x member h
      rcases mem_append.mp member with old | new
      · exact prepared.armed (before.armed key binding x old h)
      obtain rfl := mem_singleton.mp new
      obtain ⟨_, _, _, answer⟩ := arms_answer h
      rw [result] at answer
      cases answer
    · intro key x member h
      rcases mem_append.mp member with old | new
      · exact prepared.acked (before.acked key x old h)
      obtain rfl := mem_singleton.mp new
      obtain ⟨_, _, _, answer⟩ := acknowledges_answer h
      rw [result] at answer
      cases answer
    · intro key
      rw [countP_append, before.counted key, prepared.prepareCount key, result, same]
      simp only [prepares, Event.key, countP_singleton, beq_iff_eq]
      congr
  | stored earlier a c c' a' present moved same succeeded notPrepared =>
    rw [same] at next ⊢
    refine ⟨next, ?_, ?_, ?_, before.inv.store_barred present moved before.barred⟩
    · intro key binding x member h
      rcases mem_append.mp member with old | new
      · exact before.inv.store_armed present moved (before.armed key binding x old h)
      obtain rfl := mem_singleton.mp new
      obtain ⟨rfl, arm, _⟩ := arms_answer h
      rw [arm] at moved
      exact before.inv.arm_armed present moved
    · intro key x member h
      rcases mem_append.mp member with old | new
      · exact before.inv.store_acked present moved (before.acked key x old h)
      obtain rfl := mem_singleton.mp new
      obtain ⟨rfl, ack, _⟩ := acknowledges_answer h
      rw [ack] at moved
      have row : (ledger.store c').records event.key = some c'.record := by
        rw [(before.inv.store_rows present moved).1]
        simp
      exact ⟨c'.record, row, moved.moves.of_manualAck⟩
    · intro key
      have not := not_prepares key event notPrepared
      rw [countP_append, before.counted key, before.inv.store_prepareCount present moved key]
      simp [not]

theorem Ledger.Empty.remembers (empty : ledger.Empty) : Remembers [] ledger where
  inv := empty.inv
  armed := by simp
  acked := by simp
  counted := by simp [Ledger.prepareCount, empty.records]
  barred := by simp [Ledger.Barred, empty.records]

theorem run_remembers (empty : ledger.Empty) (events : List Event) :
    Remembers (trace sha ledger events) (run sha ledger events) :=
  Machine.history_invariant (step_remembers sha) empty.remembers events

theorem not_answered (inv : ledger.Inv)
    (notPrepared : ∀ ledger' ctx input, ¬ ledger.Prepared ledger' key ctx input)
    (notArmed : ∀ binding c c' earlier a a', ledger.cell key = some c → ¬ Moved (.arm binding) c c' earlier a a')
    (event : Event) :
    prepares key (event, (step sha ledger event).2) = false ∧
      ∀ binding, arms key binding (event, (step sha ledger event).2) = false := by
  cases step_effect sha inv event with
  | idle same noPrepare noArm =>
    refine ⟨not_prepares key event noPrepare, fun binding => Bool.eq_false_iff.mpr fun h => ?_⟩
    obtain ⟨_, _, record, answer⟩ := arms_answer h
    exact noArm record answer
  | prepared ctx input around same result prepared =>
    obtain ⟨record, result⟩ := result
    refine ⟨Bool.eq_false_iff.mpr fun h => ?_, fun binding => Bool.eq_false_iff.mpr fun h => ?_⟩
    · obtain ⟨rfl, _⟩ := prepares_answer h
      exact notPrepared _ _ _ prepared
    · obtain ⟨_, _, _, answer⟩ := arms_answer h
      rw [result] at answer
      cases answer
  | stored earlier a c c' a' present moved same succeeded noPrepare =>
    refine ⟨not_prepares key event noPrepare, fun binding => Bool.eq_false_iff.mpr fun h => ?_⟩
    obtain ⟨rfl, arm, _⟩ := arms_answer h
    rw [arm] at moved
    exact notArmed binding c c' earlier a a' present moved

theorem acked_answer (inv : ledger.Inv) (barred : ledger.Barred)
    (acked : ledger.Acked key) (event : Event) :
    prepares key (event, (step sha ledger event).2) = false ∧
      ∀ binding, arms key binding (event, (step sha ledger event).2) = false := by
  refine not_answered sha inv (fun _ _ _ prepared => prepared.not_acked acked) ?_ event
  intro binding c c' earlier a a' present moved
  obtain ⟨record, row, set⟩ := acked
  obtain rfl : record = c.record := Option.some.inj (row.symm.trans (cell_some present).1)
  exact barred _ _ row set moved.moves.of_arm.1

theorem step_acked (inv : ledger.Inv) (barred : ledger.Barred)
    (acked : ledger.Acked key) (event : Event) :
    (step sha ledger event).1.Inv ∧ (step sha ledger event).1.Barred ∧ (step sha ledger event).1.Acked key := by
  refine ⟨step_inv sha ledger event inv, ?_⟩
  cases step_effect sha inv event with
  | idle same => rw [same]; exact ⟨barred, acked⟩
  | prepared ctx input around same result prepared => exact ⟨prepared.barred barred, prepared.acked acked⟩
  | stored earlier a c c' a' present moved same =>
    rw [same]
    exact ⟨inv.store_barred present moved barred, inv.store_acked present moved acked⟩

/-- An attempt that is armed is the newest and unarmed; every attempt of its key that was armed
before is recorded and proven to have mutated nothing. -/
theorem Remembers.armed_once {past : List (Event × Outcome)}
    (before : Remembers past ledger) (event : Event)
    (h : arms key binding (event, (step sha ledger event).2) = true) :
    ∃ record earlier newest, ledger.records key = some record ∧ record.attempts = earlier ++ [newest] ∧
      (record.attempts.map (·.binding.token)).Nodup ∧ newest.binding = binding ∧ newest.armedAt = none ∧
      (∀ a ∈ earlier, a.armedAt.isSome → a.evidence = some .definitiveNoMutation) ∧
      ∀ b x, x ∈ past → arms key b x = true →
        ∃ a ∈ earlier, a.binding = b ∧ a.armedAt.isSome ∧ a.evidence = some .definitiveNoMutation := by
  obtain ⟨rfl, arm, record, answer⟩ := arms_answer h
  cases step_effect sha before.inv event with
  | idle same notPrepared notArmed => exact absurd answer (notArmed record)
  | prepared ctx input around same result prepared =>
    obtain ⟨_, result⟩ := result
    rw [result] at answer
    cases answer
  | stored earlier a c c' a' present moved =>
    rw [arm] at moved
    obtain ⟨_, fresh, same, _, _⟩ := moved.moves.of_arm
    have row := (cell_some present).1
    have sound := before.inv.sound_at row moved.before
    have unarmed : a.armedAt = none := by
      simp only [Cell.front, AttemptSummary.fresh, Bool.and_eq_true] at fresh
      exact Option.isNone_iff_eq_none.mp fresh.1.1.1
    refine ⟨c.record, earlier, a, row, moved.before, sound.tokens, same, unarmed,
      fun b member armed => (sound.resolved b member armed).1, ?_⟩
    intro b x member armedBefore
    obtain ⟨old, attempt, oldRow, oldMember, oldBinding, set⟩ := before.armed _ b x member armedBefore
    obtain rfl : old = c.record := Option.some.inj (oldRow.symm.trans row)
    rw [moved.before] at oldMember
    rcases mem_append.mp oldMember with past | newest
    · exact ⟨attempt, past, oldBinding, set, (sound.resolved attempt past set).1⟩
    · obtain rfl : attempt = a := by simpa using newest
      rw [unarmed] at set
      cases set

/-- In every run from an empty ledger: when an event is answered `Armed`, every attempt of its
key that was armed before has recorded evidence that it mutated nothing; a key is prepared at
most three times; and after an applied acknowledgement it is neither prepared nor armed. -/
theorem run_emits_at_most_once (sha : Sha256) {ledger : Ledger} (empty : ledger.Empty) (before after : List Event)
    (event : Event) (key : DeliveryKey) :
    (∀ binding, arms key binding (event, (step sha (run sha ledger before) event).2) = true →
      ∃ record earlier newest, (run sha ledger before).records key = some record ∧
        record.attempts = earlier ++ [newest] ∧ (record.attempts.map (·.binding.token)).Nodup ∧
        newest.binding = binding ∧ newest.armedAt = none ∧
        (∀ a ∈ earlier, a.armedAt.isSome → a.evidence = some .definitiveNoMutation) ∧
        ∀ b x, x ∈ trace sha ledger before → arms key b x = true →
          ∃ a ∈ earlier, a.binding = b ∧ a.armedAt.isSome ∧ a.evidence = some .definitiveNoMutation) ∧
    (trace sha ledger before).countP (prepares key) ≤ 3 ∧
    (acknowledges key (event, (step sha (run sha ledger before) event).2) = true →
      ∀ x ∈ trace sha (run sha ledger (before ++ [event])) after,
        prepares key x = false ∧ ∀ binding, arms key binding x = false) := by
  have remembers := run_remembers sha empty before
  refine ⟨fun binding => remembers.armed_once sha event, ?_, ?_⟩
  · rw [remembers.counted key]
    unfold Ledger.prepareCount
    rcases present : (run sha ledger before).records key with _ | record
    · simp
    obtain ⟨earlier, a, sound⟩ := remembers.inv.sound key record present
    have within := sound.within
    simpa [sound.counted] using within
  · intro acknowledged
    have next := step_remembers sha _ _ event remembers
    have acked := next.acked key _ (mem_append_right _ (mem_singleton.mpr rfl)) acknowledged
    rw [run, Machine.run_append]
    refine Machine.trace_forall (fun l => l.Inv ∧ l.Barred ∧ l.Acked key) ?_ ?_
      ⟨next.inv, next.barred, acked⟩ after
    · rintro l e ⟨inv, barred, acked⟩
      exact step_acked sha inv barred acked e
    · rintro l e ⟨inv, barred, acked⟩
      exact acked_answer sha inv barred acked e

open Golden

/-- The first attempt was armed and settled as not mutated, the second is prepared. -/
def Golden.again : List Event := [prepare 1 1000, arm 1 1 2000, settle 1 2 .definitiveNoMutation 3000, prepare 2 4000]

theorem run_emits_at_most_once_golden :
    arms Golden.key (attempt 2) (arm 2 4 5000,
      (step Golden.sha (run Golden.sha Golden.ledger again) (arm 2 4 5000)).2) = true ∧
    ∃ record earlier newest, (run Golden.sha Golden.ledger again).records Golden.key = some record ∧
      record.attempts = earlier ++ [newest] ∧ newest.binding = attempt 2 := by
  have armed : arms Golden.key (attempt 2) (arm 2 4 5000,
      (step Golden.sha (run Golden.sha Golden.ledger again) (arm 2 4 5000)).2) = true := by
    decide +kernel
  obtain ⟨record, earlier, newest, row, shape, _, same, _⟩ :=
    (run_emits_at_most_once Golden.sha ledger_empty again [] (arm 2 4 5000) Golden.key).1
      (attempt 2) armed
  exact ⟨armed, record, earlier, newest, row, shape, same⟩

end FerroLoop.Wire.Delivery

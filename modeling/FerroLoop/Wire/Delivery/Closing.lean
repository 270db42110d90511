import FerroLoop.Wire.Delivery.Barrier

namespace FerroLoop.Wire.Delivery

open Front

/-- A late proof that nothing was mutated would make this closed record eligible again: its
newest attempt may still be settled, no fence, budget or acknowledgement keeps it, and the
barrier names the record itself. -/
def reopenable (c : Cell) : Bool :=
  c.record.attempts.getLast?.any (fun a => a.armedAt.isSome && a.evidence.isNone && a.capacity != .retired) &&
  c.record.held != some .unconfirmed && c.record.held != some .evidenceOverflow &&
  c.record.prepares < 3 && c.record.acknowledgment.manualAt.isNone && !c.record.acknowledgment.legacyUnknown &&
  c.recipient.barrier == some c.record.key

def Front.Unsettled (f : Front) : Prop := f.attempt.armedAt.isSome ∧ f.attempt.evidence = none

def Front.Over (prepares : Nat) (f : Front) : Prop :=
  f.eligibility ≠ .prepared ∧
  (f.acknowledgment.manualAt.isSome ∨ f.acknowledgment.legacyUnknown = true ∨ 3 ≤ prepares ∨
    ((f.eligibility = .held ∨ f.eligibility = .settled) ∧ (f.Shut ∨ ¬ f.Unsettled)))

section Moves

variable {key : DeliveryKey} {prepares : Nat} {kind : Kind} {f f' : Front}

section

variable (moves : Moves key prepares kind f f')

include moves

theorem Moves.not_prepared (before : f.eligibility ≠ .prepared) :
    f'.eligibility ≠ .prepared := by
  cases moves with
  | release | settleNoMutation | invalidate =>
    dsimp only [reopened]
    split <;> decide
  | acknowledge =>
    dsimp only
    split
    · decide
    · exact before
  | note | settleFenced | retire => exact before
  | _ => simp

theorem Moves.legacy :
    f'.acknowledgment.legacyUnknown = f.acknowledgment.legacyUnknown := by
  cases moves <;> rfl

theorem Moves.quiet (standing : f.eligibility = .held ∨ f.eligibility = .settled) (quiet : f.Shut ∨ ¬ f.Unsettled) :
    (f'.eligibility = .held ∨ f'.eligibility = .settled) ∧ (f'.Shut ∨ ¬ f'.Unsettled) := by
  have notOpen : f.attempt.armedAt.isSome → f.attempt.evidence = none → f.attempt.capacity ≠ .retired →
      ¬ f.fenced → False := by
    intro armed open_ notRetired clear
    rcases quiet with (fenced | ⟨_, retired⟩) | settled
    · exact clear fenced
    · exact notRetired retired
    · exact settled ⟨armed, open_⟩
  have shutAfter := moves.shut
  have stopped : f.stopped.armedAt.isSome ∧ f.stopped.evidence = none → f.Unsettled := by
    rw [stopped_armedAt, stopped_evidence]
    exact id
  cases moves with
  | exhaust _ eligible => rw [eligible] at standing; simp at standing
  | arm _ prepared => rw [prepared] at standing; simp at standing
  | release _ open_ => rcases standing with h | h <;> rw [h] at open_ <;> simp at open_
  | invalidate prepared => rw [prepared] at standing; simp at standing
  | contradict => exact ⟨.inl rfl, .inl (.inl rfl)⟩
  | settleFenced => exact ⟨standing, .inr (by simp [Unsettled])⟩
  | settleUncertain => exact ⟨.inl rfl, .inr (by simp [Unsettled])⟩
  | settleNoMutation _ armed open_ notRetired clear
  | settlePositive _ _ armed open_ notRetired clear => exact (notOpen armed open_ notRetired clear).elim
  | note => exact ⟨standing, quiet⟩
  | retire armed => exact ⟨standing, .inl (.inr ⟨armed, rfl⟩)⟩
  | acknowledge =>
    refine ⟨?_, quiet.imp shutAfter fun settled unsettled => settled (stopped unsettled)⟩
    rcases standing with h | h <;> simp [h]
  | overflow | close =>
    exact ⟨.inl rfl, quiet.imp shutAfter fun settled unsettled => settled (stopped unsettled)⟩

theorem Moves.ended (ended : f.Over prepares) : f'.Over prepares := by
  obtain ⟨notPrepared, acked | legacy | spent | ⟨standing, quiet⟩⟩ := ended
  · exact ⟨moves.not_prepared notPrepared, .inl (moves.acked acked)⟩
  · exact ⟨moves.not_prepared notPrepared, .inr (.inl (moves.legacy.trans legacy))⟩
  · exact ⟨moves.not_prepared notPrepared, .inr (.inr (.inl spent))⟩
  · exact ⟨moves.not_prepared notPrepared, .inr (.inr (.inr (moves.quiet standing quiet)))⟩

end

end Moves

def Ledger.Closed (ledger : Ledger) (key : DeliveryKey) : Prop :=
  ledger.Blocked key.recipientId ∨
  ∃ c earlier a, ledger.cell key = some c ∧ c.record.attempts = earlier ++ [a] ∧
    (c.front a).Over c.record.prepares

section Stored

variable {ledger : Ledger} {key : DeliveryKey} {kind : Kind} {c c' : Cell}
  {earlier : List AttemptSummary} {a a' : AttemptSummary}

section

variable (inv : ledger.Inv) (present : ledger.cell key = some c) (moved : Moved kind c c' earlier a a')

include inv present moved

theorem Ledger.Inv.store_cell : (ledger.store c').cell key = some c' := by
  have rows := inv.store_rows present moved
  simp only [Ledger.cell, rows.1, rows.2, put_same]
  rfl

theorem Ledger.Inv.store_over (ended : (c'.front a').Over c'.record.prepares) : (ledger.store c').Closed key :=
  .inr ⟨c', earlier, a', inv.store_cell present moved, moved.after, ended⟩

theorem Ledger.Inv.store_closed {k : DeliveryKey} (closed : ledger.Closed k) : (ledger.store c').Closed k := by
  rcases closed with blocked | ⟨old, before, newest, stored, shape, ended⟩
  · exact .inl (inv.store_blocked present moved blocked)
  by_cases here : k = key
  · subst here
    obtain rfl : old = c := Option.some.inj (stored.symm.trans present)
    obtain ⟨rfl, last⟩ := List.append_inj' (shape.symm.trans moved.before) rfl
    obtain rfl : newest = a := by simpa using last
    refine inv.store_over present moved ?_
    rw [moved.prepares]
    exact moved.moves.ended ended
  · have rows := inv.store_rows present moved
    obtain ⟨row, control, _⟩ := cell_some stored
    obtain ⟨control', row'⟩ : ∃ control', (ledger.store c').recipients k.recipientId = some control' := by
      by_cases same : k.recipientId = key.recipientId
      · exact ⟨c'.recipient, by rw [rows.2, same]; simp⟩
      · exact ⟨old.recipient, by rw [rows.2, put_other _ _ same]; exact control⟩
    refine .inr ⟨{ record := old.record, recipient := control', global := (ledger.store c').global },
      before, newest, ?_, shape, ended⟩
    simp [Ledger.cell, rows.1, put_other _ _ here, row, row']

end

end Stored

variable {ledger : Ledger} {key : DeliveryKey}

theorem Ledger.Closed.not_prepared {ledger' : Ledger} {ctx : TransitionContext}
    {input : PrepareInput} (closed : ledger.Closed key) : ¬ ledger.Prepared ledger' key ctx input := by
  intro prepared
  rcases closed with blocked | ⟨c, earlier, a, stored, _, _, ended⟩
  · exact (prepared.blocked blocked).1 rfl
  have row : ctx.record = some c.record := prepared.stored.trans (cell_some stored).1
  have admitted := prepared.admitted
  rcases ended with acked | legacy | spent | ⟨standing, _⟩
  · have acked : c.record.acknowledgment.manualAt.isSome := acked
    rw [(admitted.unacked _ row).1] at acked
    cases acked
  · have legacy : c.record.acknowledgment.legacyUnknown = true := legacy
    rw [(admitted.unacked _ row).2] at legacy
    cases legacy
  · have budget := admitted.budget _ row
    omega
  · have standing : c.record.eligibility = .held ∨ c.record.eligibility = .settled := standing
    rw [admitted.eligible _ row] at standing
    simp at standing

theorem Ledger.Closed.not_armed (closed : ledger.Closed key)
    (binding : AttemptBinding) (c c' : Cell) (earlier : List AttemptSummary) (a a' : AttemptSummary)
    (present : ledger.cell key = some c) : ¬ Moved (.arm binding) c c' earlier a a' := by
  intro moved
  obtain ⟨prepared, _, _, none, _⟩ := moved.moves.of_arm
  rcases closed with ⟨control, k, record, row, named, _⟩ | ⟨old, before, newest, stored, _, notPrepared, _⟩
  · obtain rfl : control = c.recipient := Option.some.inj (row.symm.trans (cell_some present).2.1)
    have none : c.recipient.barrier = Option.none := none
    rw [named] at none
    cases none
  · obtain rfl : old = c := Option.some.inj (stored.symm.trans present)
    exact notPrepared prepared

theorem step_closed (sha : Sha256) (inv : ledger.Inv)
    (closed : ledger.Closed key) (event : Event) : (step sha ledger event).1.Closed key := by
  cases step_effect sha inv event with
  | idle same => rwa [same]
  | prepared ctx input around same result prepared =>
    have other : key ≠ event.key := by
      rintro rfl
      exact closed.not_prepared prepared
    rcases closed with blocked | ⟨c, earlier, a, stored, shape, ended⟩
    · exact .inl (prepared.blocked blocked).2
    obtain ⟨revision, records⟩ := prepared.records
    obtain ⟨row, control, _⟩ := cell_some stored
    obtain ⟨control', row'⟩ : ∃ control', (step sha ledger event).1.recipients key.recipientId = some control' := by
      have next := step_inv sha ledger event inv
      exact next.controlled key c.record (by rw [records, put_other _ _ other]; exact row)
    refine .inr ⟨{ record := c.record, recipient := control', global := (step sha ledger event).1.global },
      earlier, a, ?_, shape, ended⟩
    simp [Ledger.cell, records, put_other _ _ other, row, row']
  | stored earlier a c c' a' present moved same =>
    rw [same]
    exact inv.store_closed present moved closed

variable {event : Event}

theorem closes_answer {outcome : Outcome}
    (h : closes key (event, outcome) = true) :
    event.key = key ∧ event.kind = .close ∧ ∃ view, outcome = .delivery (.ok (.applied view)) := by
  unfold closes at h
  split at h
  · rename_i same
    obtain ⟨rfl, rfl⟩ := Prod.mk.inj same
    exact ⟨by simpa [Event.key, DeliveryCommand.key] using h, rfl, _, rfl⟩
  · cases h

theorem Moves.of_close {prepares : Nat} {f f' : Front}
    (moves : Moves key prepares .close f f') :
    f'.Over prepares ∨ (f.Unsettled ∧ f.attempt.capacity ≠ .retired ∧ f.held ≠ some .unconfirmed ∧
      f.held ≠ some .evidenceOverflow ∧ prepares < 3 ∧ f.acknowledgment.manualAt = none ∧
      f.acknowledgment.legacyUnknown = false) := by
  cases moves with
  | close =>
    by_cases unsettled : f.Unsettled
    · by_cases shut : f.attempt.capacity = .retired ∨ f.held = some .unconfirmed ∨ f.held = some .evidenceOverflow
      · refine .inl ⟨by simp, .inr (.inr (.inr ⟨.inl rfl, .inl ?_⟩))⟩
        rcases shut with retired | reason | reason
        · exact .inr ⟨by rw [stopped_armedAt]; exact unsettled.1, stopped_retired retired⟩
        · exact .inl (by simp [fenced, reason])
        · exact .inl (by simp [fenced, reason])
      · push Not at shut
        by_cases acked : f.acknowledgment.manualAt = none
        · by_cases legacy : f.acknowledgment.legacyUnknown = true
          · exact .inl ⟨by simp, .inr (.inl legacy)⟩
          · by_cases budget : prepares < 3
            · exact .inr ⟨unsettled, shut.1, shut.2.1, shut.2.2, budget, acked, by simpa using legacy⟩
            · exact .inl ⟨by simp, .inr (.inr (.inl (by omega)))⟩
        · exact .inl ⟨by simp, .inl (Option.isSome_iff_ne_none.mpr acked)⟩
    · refine .inl ⟨by simp, .inr (.inr (.inr ⟨.inl rfl, .inr fun still => unsettled ?_⟩))⟩
      have still : f.stopped.armedAt.isSome ∧ f.stopped.evidence = none := still
      rwa [stopped_armedAt, stopped_evidence] at still

theorem closes_closed (sha : Sha256) (inv : ledger.Inv) (guarded : ledger.Guarded)
    (h : closes key (event, (step sha ledger event).2) = true)
    (final : ∀ c, ledger.cell key = some c → reopenable c = false) :
    (step sha ledger event).1.Closed key := by
  obtain ⟨rfl, kind, view, answer⟩ := closes_answer h
  cases step_effect sha inv event with
  | idle _ _ _ applied =>
    rcases applied view answer with settle | ⟨ack, _⟩
    · rw [kind] at settle
      cases settle
    · rw [kind] at ack
      cases ack
  | prepared ctx input around same result prepared =>
    obtain ⟨_, result⟩ := result
    rw [result] at answer
    cases answer
  | stored earlier a c c' a' present moved same =>
    rw [kind] at moved
    rw [same]
    obtain ⟨own, control, _⟩ := cell_some present
    have sound := inv.sound_at own moved.before
    rcases moved.moves.of_close with ended | ⟨⟨armed, open_⟩, notRetired, clear₁, clear₂, budget, acked, legacy⟩
    · exact inv.store_over present moved (by rw [moved.prepares]; exact ended)
    -- The attempt may still be settled, so the barrier is a fence of another record.
    rcases guarded.pending _ _ _ a own control (by simp [moved.before]) armed open_ with named | blocked
    · have no := final c present
      simp only [Cell.front] at armed open_ notRetired clear₁ clear₂ acked legacy
      simp [reopenable, moved.before, armed, open_, notRetired, clear₁, clear₂, budget, acked, legacy, named,
        sound.filed] at no
    · exact .inl (inv.store_blocked present moved blocked)

/-- In every run from an empty ledger, a close that is applied while the record is not
reopenable is final: no later command for its key is answered `Prepared` or `Armed`. -/
theorem run_close_final (sha : Sha256) {ledger : Ledger} (empty : ledger.Empty) (before after : List Event)
    (event : Event) (key : DeliveryKey)
    (closed : closes key (event, (step sha (run sha ledger before) event).2) = true)
    (final : ∀ c, (run sha ledger before).cell key = some c → reopenable c = false) :
    ∀ x ∈ trace sha (run sha ledger (before ++ [event])) after,
      prepares key x = false ∧ ∀ binding, arms key binding x = false := by
  have start := run_guarded sha empty before
  rw [run, Machine.run_append]
  have preserved : ∀ l e, l.Inv ∧ l.Closed key → (step sha l e).1.Inv ∧ (step sha l e).1.Closed key :=
    fun l e h => ⟨step_inv sha l e h.1, step_closed sha h.1 h.2 e⟩
  refine Machine.trace_forall _ preserved ?_ ⟨step_inv sha _ event start.1, closes_closed sha start.1 start.2 closed final⟩
    after
  rintro l e ⟨inv, closed⟩
  exact not_answered sha inv (fun _ _ _ => closed.not_prepared) closed.not_armed e

open Golden

theorem run_close_final_golden :
    (trace Golden.sha (run Golden.sha Golden.ledger ([prepare 1 1000] ++ [close]))
      [prepare 2 2000]).all (fun x => !prepares Golden.key x) = true := by
  have closed : closes Golden.key (close,
      (step Golden.sha (run Golden.sha Golden.ledger [prepare 1 1000]) close).2) = true := by
    decide +kernel
  have final : ((run Golden.sha Golden.ledger [prepare 1 1000]).cell Golden.key).all
      (fun c => !reopenable c) = true := by
    decide +kernel
  have steady : ∀ c, (run Golden.sha Golden.ledger [prepare 1 1000]).cell Golden.key = some c →
      reopenable c = false := by
    intro c present
    rw [present, Option.all_some, Bool.not_eq_true'] at final
    exact final
  refine List.all_eq_true.mpr fun x member => ?_
  rw [(run_close_final Golden.sha ledger_empty [prepare 1 1000] [prepare 2 2000]
    close Golden.key closed steady x member).1, Bool.not_false]

/-- Closed while armed, the golden message is settled as not mutated and prepared again. -/
theorem close_reopens_golden :
    Golden.ledger.Empty ∧
    closes Golden.key (close, (step Golden.sha (run Golden.sha Golden.ledger
      [prepare 1 1000, arm 1 1 2000]) close).2) = true ∧
    (trace Golden.sha (run Golden.sha Golden.ledger
      [prepare 1 1000, arm 1 1 2000, close])
      [settle 1 3 .definitiveNoMutation 3000, prepare 2 4000]).any (prepares Golden.key) = true :=
  ⟨ledger_empty, by decide +kernel, by decide +kernel⟩

end FerroLoop.Wire.Delivery

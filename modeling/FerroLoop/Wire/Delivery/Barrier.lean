import FerroLoop.Wire.Delivery.Emission

namespace FerroLoop.Wire.Delivery

open Machine Front Option

def Fenced (record : DeliveryRecord) : Prop :=
  uncertaintyFenced record = true ∨ ∃ a ∈ record.attempts, a.armedAt.isSome ∧ a.capacity = .retired

def Front.Shut (f : Front) : Prop :=
  f.fenced = true ∨ (f.attempt.armedAt.isSome ∧ f.attempt.capacity = .retired)

structure Front.Orderly (f : Front) : Prop where
  standing : f.held = some .unconfirmed → f.eligibility = .held
  spent : f.attempt.evidence.isSome → f.attempt.capacity ≠ .held

variable (a : AttemptSummary) (sha : Sha256) {ledger : Ledger} {id : AgentId}

@[simp] theorem freed_armedAt (a : AttemptSummary) (state : CapacityState) :
    (a.freed state).armedAt = a.armedAt := by
  unfold AttemptSummary.freed
  split <;> rfl

@[simp] theorem freed_evidence (a : AttemptSummary) (state : CapacityState) :
    (a.freed state).evidence = a.evidence := by
  unfold AttemptSummary.freed
  split <;> rfl

theorem freed_not_held : (a.freed .released).capacity ≠ .held := by
  unfold AttemptSummary.freed
  split
  · simp
  · assumption

variable {a : AttemptSummary}

theorem freed_retired (retired : a.capacity = .retired) (state : CapacityState) :
    (a.freed state).capacity = .retired := by
  unfold AttemptSummary.freed
  rw [if_neg (by rw [retired]; decide), retired]

section Moves

variable {key : DeliveryKey} {prepares : Nat} {kind : Kind} {f f' : Front}

theorem Front.stopped_retired (retired : f.attempt.capacity = .retired) : f.stopped.capacity = .retired := by
  unfold stopped
  split
  · exact freed_retired retired _
  · exact retired

theorem Front.stopped_armedAt : f.stopped.armedAt = f.attempt.armedAt := by
  unfold stopped
  split
  · exact freed_armedAt _ _
  · rfl

theorem Front.stopped_evidence : f.stopped.evidence = f.attempt.evidence := by
  unfold stopped
  split
  · exact freed_evidence _ _
  · rfl

theorem Front.stopped_spent (spent : f.attempt.capacity ≠ .held) : f.stopped.capacity ≠ .held := by
  unfold stopped
  split
  · exact freed_not_held _
  · exact spent

theorem fenced_held (fenced : f.fenced = true) :
    f.eligibility = .held ∧ (f.held = some .unconfirmed ∨ f.held = some .evidenceOverflow) := by
  simpa [Front.fenced] using fenced

section

variable (moves : Moves key prepares kind f f')

include moves

theorem Moves.shut (shut : f.Shut) : f'.Shut := by
  rcases shut with fenced | ⟨armed, retired⟩
  · obtain ⟨standing, reason⟩ := fenced_held fenced
    left
    cases moves with
    | exhaust _ eligible => rw [standing] at eligible; cases eligible
    | arm _ prepared => rw [standing] at prepared; cases prepared
    | release _ open_ => rw [standing] at open_; simp at open_
    | invalidate prepared => rw [standing] at prepared; cases prepared
    | settleNoMutation _ _ _ _ clear | settlePositive _ _ _ _ _ clear => exact absurd fenced clear
    | settleUncertain _ _ reason _ _ _ kind => rcases kind with rfl | rfl <;> rfl
    | contradict => rfl
    | note | settleFenced | retire => exact fenced
    | acknowledge => simpa [Front.fenced, standing] using reason
    | overflow | close => rcases reason with reason | reason <;> simp [Front.fenced, reason]
  · cases moves with
    | arm _ _ fresh =>
      simp only [AttemptSummary.fresh, Bool.and_eq_true] at fresh
      simp [isNone_iff_eq_none.mp fresh.1.1.1] at armed
    | release _ _ notRetired | settleNoMutation _ _ _ notRetired
    | settlePositive _ _ _ _ notRetired | settleUncertain _ _ _ _ _ notRetired => exact absurd retired notRetired
    | retire _ held => rw [retired] at held; cases held
    | contradict => exact .inl rfl
    | settleFenced evidence detail =>
      exact .inr ⟨by simpa using armed,
        freed_retired (a := { f.attempt with evidence := some evidence, detail }) retired _⟩
    | invalidate => exact .inr ⟨by simpa [reopened] using armed, freed_retired retired _⟩
    | acknowledge | overflow | close =>
      exact .inr ⟨by rw [stopped_armedAt]; exact armed, stopped_retired retired⟩
    | note | exhaust => exact .inr ⟨armed, retired⟩

theorem Moves.orderly (orderly : f.Orderly) : f'.Orderly := by
  obtain ⟨standing, spent⟩ := orderly
  cases moves with
  | exhaust => exact ⟨by simp, spent⟩
  | arm input _ fresh =>
    simp only [AttemptSummary.fresh, Bool.and_eq_true] at fresh
    refine ⟨fun h => ?_, ?_⟩
    · have := standing h
      simp_all
    · simp [armedAttempt, isNone_iff_eq_none.mp fresh.1.2]
  | release =>
    refine ⟨?_, fun _ => freed_not_held _⟩
    dsimp only [reopened]
    split <;> simp
  | contradict =>
    refine ⟨fun _ => rfl, ?_⟩
    split
    · exact fun _ => freed_not_held _
    · exact spent
  | settleFenced => exact ⟨standing, fun _ => freed_not_held _⟩
  | settleUncertain => exact ⟨fun _ => rfl, fun _ => freed_not_held _⟩
  | settleNoMutation =>
    refine ⟨?_, fun _ => freed_not_held _⟩
    split <;> simp
  | settlePositive => exact ⟨by simp, fun _ => freed_not_held _⟩
  | acknowledge =>
    refine ⟨fun h => ?_, fun h => ?_⟩
    · have held := standing h
      simp [held]
    · exact stopped_spent (spent (by rwa [stopped_evidence] at h))
  | invalidate =>
    refine ⟨?_, fun _ => freed_not_held _⟩
    dsimp only [reopened]
    split <;> simp
  | note => exact ⟨standing, spent⟩
  | overflow | close =>
    exact ⟨fun _ => rfl, fun h => stopped_spent (spent (by rwa [stopped_evidence] at h))⟩
  | retire => exact ⟨standing, fun _ => by simp⟩

/-- What a change does to the barrier: it leaves it, lifts its own key off it, or raises it for
a record that is fenced from then on; only an arm raises it from nothing. -/
theorem Moves.barrier :
    f'.barrier = f.barrier ∨ (¬ f.Shut ∧ f'.barrier = lifted key f.barrier ∧ f'.attempt.evidence.isSome) ∨
      (f'.Shut ∧ f'.barrier = some key) ∨ (f.barrier = none ∧ f'.barrier = some key) := by
  have notShut : f.attempt.capacity ≠ .retired → ¬ f.fenced → ¬ f.Shut := by
    rintro notRetired clear (fenced | ⟨_, retired⟩)
    · exact clear fenced
    · exact notRetired retired
  cases moves with
  | arm _ _ _ _ none => exact .inr (.inr (.inr ⟨none, rfl⟩))
  | release proof open_ notRetired =>
    refine .inr (.inl ⟨notShut notRetired fun fenced => ?_, rfl, by simp [reopened]⟩)
    rw [(fenced_held fenced).1] at open_
    simp at open_
  | contradict => exact .inr (.inr (.inl ⟨.inl rfl, rfl⟩))
  | settleUncertain _ _ reason _ _ _ kind =>
    refine .inr (.inr (.inl ⟨.inl ?_, rfl⟩))
    rcases kind with rfl | rfl <;> rfl
  | settleNoMutation _ _ _ notRetired clear
  | settlePositive _ _ _ _ notRetired clear => exact .inr (.inl ⟨notShut notRetired clear, rfl, by simp⟩)
  | _ => exact .inl rfl

theorem Moves.uncertain (held : f'.held = some .unconfirmed) :
    f.held = some .unconfirmed ∨ (f'.Shut ∧ f'.barrier = some key) := by
  cases moves with
  | contradict => exact .inr ⟨.inl rfl, rfl⟩
  | settleUncertain _ _ reason _ _ _ kind =>
    obtain rfl : reason = .unconfirmed := by simpa using held
    exact .inr ⟨.inl rfl, rfl⟩
  | exhaust => cases held
  | release | settleNoMutation | invalidate =>
    dsimp only [reopened] at held
    split at held <;> simp at held
  | settlePositive => cases held
  | overflow | close =>
    split at held
    · cases held
    · exact .inl held
  | _ => exact .inl held

theorem Moves.pending (armed : f'.attempt.armedAt.isSome)
    (open_ : f'.attempt.evidence = none) :
    (f.attempt.armedAt.isSome ∧ f.attempt.evidence = none) ∨ f'.barrier = some key := by
  cases moves with
  | arm | contradict => exact .inr rfl
  | release | settleFenced | settleUncertain | settleNoMutation | settlePositive =>
    simp [reopened] at open_
  | invalidate =>
    simp only [reopened, freed_armedAt, freed_evidence] at armed open_
    exact .inl ⟨armed, open_⟩
  | acknowledge | overflow | close =>
    simp only [stopped_armedAt, stopped_evidence] at armed open_
    exact .inl ⟨armed, open_⟩
  | note | exhaust | retire => exact .inl ⟨armed, open_⟩

end

end Moves

def Ledger.Blocked (ledger : Ledger) (id : AgentId) : Prop :=
  ∃ control key record, ledger.recipients id = some control ∧ control.barrier = some key ∧
    key.recipientId = id ∧ ledger.records key = some record ∧ Fenced record

structure Ledger.Guarded (ledger : Ledger) : Prop where
  standing : ∀ key record, ledger.records key = some record → record.held = some .unconfirmed →
    record.eligibility = .held
  spent : ∀ key record a, ledger.records key = some record → a ∈ record.attempts → a.evidence.isSome →
    a.capacity ≠ .held
  uncertain : ∀ key record, ledger.records key = some record → record.held = some .unconfirmed →
    ledger.Blocked key.recipientId
  pending : ∀ key record control a, ledger.records key = some record →
    ledger.recipients key.recipientId = some control → a ∈ record.attempts → a.armedAt.isSome →
    a.evidence = none → control.barrier = some key ∨ ledger.Blocked key.recipientId

variable {key : DeliveryKey}

theorem Sound.fenced_iff {c : Cell} {earlier : List AttemptSummary}
    (sound : Sound key c.record earlier a) : Fenced c.record ↔ (c.front a).Shut := by
  refine or_congr Iff.rfl ?_
  rw [sound.newest]
  constructor
  · rintro ⟨b, member, armed, retired⟩
    rcases List.mem_append.mp member with past | newest
    · have released := (sound.resolved b past armed).2
      rw [retired] at released
      cases released
    · obtain rfl : b = a := by simpa using newest
      exact ⟨armed, retired⟩
  · rintro ⟨armed, retired⟩
    exact ⟨a, by simp, armed, retired⟩

variable {id : AgentId}

section Stored

variable {ledger : Ledger} {key : DeliveryKey} {kind : Kind} {c c' : Cell}
  {earlier : List AttemptSummary} {a a' : AttemptSummary}

section

variable (inv : ledger.Inv) (present : ledger.cell key = some c) (moved : Moved kind c c' earlier a a')

include inv present moved

theorem Ledger.Inv.store_blocked_own (shut : (c'.front a').Shut)
    (named : c'.recipient.barrier = some key) : (ledger.store c').Blocked key.recipientId := by
  have rows := inv.store_rows present moved
  have sound := moved.sound (inv.sound_at (cell_some present).1 moved.before)
  exact ⟨c'.recipient, key, c'.record, by rw [rows.2]; simp, named, rfl, by rw [rows.1]; simp,
    sound.fenced_iff.mpr shut⟩

theorem Ledger.Inv.store_fenced {k : DeliveryKey} {record : DeliveryRecord}
    (row : ledger.records k = some record) (fenced : Fenced record) :
    ∃ record', (ledger.store c').records k = some record' ∧ Fenced record' := by
  have rows := (inv.store_rows present moved).1
  by_cases here : k = key
  · subst here
    obtain rfl : record = c.record := some.inj (row.symm.trans (cell_some present).1)
    have sound := inv.sound_at (cell_some present).1 moved.before
    refine ⟨c'.record, by rw [rows]; simp, ?_⟩
    exact (moved.sound sound).fenced_iff.mpr (moved.moves.shut (sound.fenced_iff.mp fenced))
  · exact ⟨record, by rw [rows, put_other _ _ here]; exact row, fenced⟩

theorem Ledger.Inv.store_blocked (blocked : ledger.Blocked id) : (ledger.store c').Blocked id := by
  obtain ⟨control, k, record, row, named, own, stored, fenced⟩ := blocked
  obtain ⟨record', stored', fenced'⟩ := inv.store_fenced present moved stored fenced
  have rows := inv.store_rows present moved
  by_cases same : id = key.recipientId
  · subst same
    obtain rfl : control = c.recipient := some.inj (row.symm.trans (cell_some present).2.1)
    have sound := inv.sound_at (cell_some present).1 moved.before
    have kept : c'.recipient.barrier = some k → (ledger.store c').Blocked key.recipientId := fun named' =>
      ⟨c'.recipient, k, record', by rw [rows.2]; simp, named', own, stored', fenced'⟩
    rcases moved.moves.barrier with unchanged | ⟨notShut, lifts, _⟩ | ⟨shut, raised⟩ | ⟨none, _⟩
    · exact kept (unchanged.trans named)
    · -- Lifting takes only the record's own key off, and a fenced record never lifts.
      have other : k ≠ key := by
        rintro rfl
        obtain rfl : record = c.record := some.inj (stored.symm.trans (cell_some present).1)
        exact notShut (sound.fenced_iff.mp fenced)
      apply kept
      have lifts : c'.recipient.barrier = lifted c.record.key c.recipient.barrier := lifts
      rw [lifts, named, sound.filed, lifted, if_neg fun h => other (some.inj h)]
    · exact inv.store_blocked_own present moved shut (by rw [← sound.filed]; exact raised)
    · have none : c.recipient.barrier = Option.none := none
      rw [named] at none
      cases none
  · exact ⟨control, k, record', by rw [rows.2, put_other _ _ same]; exact row, named, own, stored', fenced'⟩

end

section

variable (inv : ledger.Inv) (guarded : ledger.Guarded) (present : ledger.cell key = some c) (moved : Moved kind c c' earlier a a')

include inv guarded present moved

theorem Ledger.Inv.store_pending (k : DeliveryKey)
    (record : DeliveryRecord) (control : RecipientControl) (b : AttemptSummary)
    (row : (ledger.store c').records k = some record)
    (controlled : (ledger.store c').recipients k.recipientId = some control) (member : b ∈ record.attempts)
    (armed : b.armedAt.isSome) (open_ : b.evidence = none) :
    control.barrier = some k ∨ (ledger.store c').Blocked k.recipientId := by
  obtain ⟨own, recipient, _⟩ := cell_some present
  have sound := inv.sound_at own moved.before
  have filed : c.record.key = key := sound.filed
  have rows := inv.store_rows present moved
  rw [rows.2] at controlled
  rcases inv.store_record present moved row with ⟨rfl, rfl⟩ | ⟨other, row⟩
  · -- The stored record: the attempt is its newest one.
    obtain rfl : c'.recipient = control := by simpa using controlled
    have newest : b = a' := by
      rw [moved.after] at member
      rcases List.mem_append.mp member with past | newest
      · have resolved := (sound.resolved b past armed).1
        rw [open_] at resolved
        cases resolved
      · simpa using newest
    subst newest
    rcases moved.moves.pending armed open_ with ⟨armedBefore, openBefore⟩ | raised
    · rcases guarded.pending k c.record c.recipient a own recipient (by simp [moved.before]) armedBefore
        openBefore with named | blocked
      · rcases moved.moves.barrier with unchanged | ⟨_, _, evidence⟩ | ⟨_, raised⟩ | ⟨_, raised⟩
        · exact .inl (unchanged.trans named)
        · have evidence : b.evidence.isSome := evidence
          rw [open_] at evidence
          cases evidence
        · exact .inl (by rw [← filed]; exact raised)
        · exact .inl (by rw [← filed]; exact raised)
      · exact .inr (inv.store_blocked present moved blocked)
    · exact .inl (by rw [← filed]; exact raised)
  · by_cases same : k.recipientId = key.recipientId
    · rw [same] at controlled
      obtain rfl : c'.recipient = control := by simpa using controlled
      rcases guarded.pending k record c.recipient b row (same ▸ recipient) member armed open_ with named | blocked
      · rcases moved.moves.barrier with unchanged | ⟨_, lifts, _⟩ | ⟨shut, raised⟩ | ⟨none, _⟩
        · exact .inl (unchanged.trans named)
        · left
          have lifts : c'.recipient.barrier = lifted c.record.key c.recipient.barrier := lifts
          rw [lifts, named, filed, lifted, if_neg fun h => other (some.inj h)]
        · rw [same]
          exact .inr (inv.store_blocked_own present moved shut (by rw [← filed]; exact raised))
        · have none : c.recipient.barrier = Option.none := none
          rw [named] at none
          cases none
      · exact .inr (inv.store_blocked present moved blocked)
    · rw [put_other _ _ same] at controlled
      rcases guarded.pending k record control b row controlled member armed open_ with named | blocked
      · exact .inl named
      · exact .inr (inv.store_blocked present moved blocked)

theorem Ledger.Inv.store_guarded : (ledger.store c').Guarded := by
  obtain ⟨own, _, _⟩ := cell_some present
  have sound := inv.sound_at own moved.before
  have orderly : (c'.front a').Orderly := moved.moves.orderly
    ⟨guarded.standing key c.record own, guarded.spent key c.record a own (by simp [moved.before])⟩
  refine ⟨?_, ?_, ?_, inv.store_pending guarded present moved⟩
  · intro k record row held
    rcases inv.store_record present moved row with ⟨rfl, rfl⟩ | ⟨_, row⟩
    · exact orderly.standing held
    · exact guarded.standing k record row held
  · intro k record b row member evidence
    rcases inv.store_record present moved row with ⟨rfl, rfl⟩ | ⟨_, row⟩
    · rw [moved.after] at member
      rcases List.mem_append.mp member with past | newest
      · exact sound.free b past
      · obtain rfl : b = a' := by simpa using newest
        exact orderly.spent evidence
    · exact guarded.spent k record b row member evidence
  · intro k record row held
    rcases inv.store_record present moved row with ⟨rfl, rfl⟩ | ⟨_, row⟩
    · rcases moved.moves.uncertain held with before | ⟨shut, raised⟩
      · exact inv.store_blocked present moved (guarded.uncertain k c.record own before)
      · exact inv.store_blocked_own present moved shut (by rw [← sound.filed]; exact raised)
    · exact inv.store_blocked present moved (guarded.uncertain k record row held)

end

end Stored

section Prepared

variable {ledger ledger' : Ledger} {key : DeliveryKey} {ctx : TransitionContext} {input : PrepareInput}

theorem Ledger.Prepared.blocked (prepared : ledger.Prepared ledger' key ctx input)
    (blocked : ledger.Blocked id) : id ≠ key.recipientId ∧ ledger'.Blocked id := by
  obtain ⟨control, k, record, row, named, own, stored, fenced⟩ := blocked
  obtain ⟨around, context⟩ := prepared.context
  have other : id ≠ key.recipientId := by
    rintro rfl
    obtain rfl : control = ctx.recipient := some.inj (row.symm.trans (context_some context).1)
    rw [prepared.admitted.barrier] at named
    cases named
  obtain ⟨revision, records⟩ := prepared.records
  obtain ⟨recipientRevision, recipients⟩ := prepared.recipients
  refine ⟨other, control, k, record, by rw [recipients, put_other _ _ other]; exact row, named, own, ?_, fenced⟩
  rw [records, put_other _ _ fun same => other (by rw [← own, same])]
  exact stored

theorem Ledger.Inv.prepared_guarded (inv : ledger.Inv) (guarded : ledger.Guarded)
    (prepared : ledger.Prepared ledger' key ctx input) : ledger'.Guarded := by
  obtain ⟨around, context⟩ := prepared.context
  obtain ⟨control, _, stored, _, _⟩ := context_some context
  obtain ⟨revision, records⟩ := prepared.records
  obtain ⟨recipientRevision, recipients⟩ := prepared.recipients
  have sound := inv.prepared_sound prepared revision
  have old : ∀ k record, ledger'.records k = some record →
      (k = key ∧ record = { prepareRecord (startRecord ctx input) input with revision }) ∨
      (k ≠ key ∧ ledger.records k = some record) := by
    intro k record row
    rw [records] at row
    by_cases here : k = key
    · subst here
      exact .inl ⟨rfl, by simpa using row.symm⟩
    · exact .inr ⟨here, by rwa [put_other _ _ here] at row⟩
  refine ⟨?_, ?_, ?_, ?_⟩
  · intro k record row held
    rcases old k record row with ⟨_, rfl⟩ | ⟨_, row⟩
    · simp [prepareRecord] at held
    · exact guarded.standing k record row held
  · intro k record b row member evidence
    rcases old k record row with ⟨_, rfl⟩ | ⟨_, row⟩
    · rcases List.mem_append.mp member with past | newest
      · exact sound.free b past
      · obtain rfl : b = preparedSummary input := by simpa using newest
        simp [preparedSummary] at evidence
    · exact guarded.spent k record b row member evidence
  · intro k record row held
    rcases old k record row with ⟨_, rfl⟩ | ⟨_, row⟩
    · simp [prepareRecord] at held
    · exact (prepared.blocked (guarded.uncertain k record row held)).2
  · intro k record other b row controlled member armed open_
    rcases old k record row with ⟨rfl, rfl⟩ | ⟨different, row⟩
    · -- Every attempt of the prepared record is resolved or unarmed.
      rcases List.mem_append.mp member with past | newest
      · have resolved := (sound.resolved b past armed).1
        rw [open_] at resolved
        cases resolved
      · obtain rfl : b = preparedSummary input := by simpa using newest
        simp [preparedSummary] at armed
    · rw [recipients] at controlled
      by_cases same : k.recipientId = key.recipientId
      · rw [same, put_same, some.injEq] at controlled
        rcases guarded.pending k record ctx.recipient b row (same ▸ control) member armed open_ with named | blocked
        · exact .inl (by rw [← controlled]; exact named)
        · exact absurd same (prepared.blocked blocked).1
      · rw [put_other _ _ same] at controlled
        rcases guarded.pending k record other b row controlled member armed open_ with named | blocked
        · exact .inl named
        · exact .inr (prepared.blocked blocked).2

end Prepared

theorem Ledger.Empty.guarded (empty : ledger.Empty) : ledger.Guarded where
  standing := by simp [empty.records]
  spent := by simp [empty.records]
  uncertain := by simp [empty.records]
  pending := by simp [empty.records]

theorem step_guarded (ledger : Ledger) (event : Event) (inv : ledger.Inv) (guarded : ledger.Guarded) :
    (step sha ledger event).1.Guarded := by
  cases step_effect sha inv event with
  | idle same => rwa [same]
  | prepared ctx input around same result prepared => exact inv.prepared_guarded guarded prepared
  | stored earlier a c c' a' present moved same =>
    rw [same]
    exact inv.store_guarded guarded present moved

theorem run_guarded (empty : ledger.Empty) (events : List Event) :
    (run sha ledger events).Inv ∧ (run sha ledger events).Guarded := by
  have preserved : ∀ l e, l.Inv ∧ l.Guarded → (step sha l e).1.Inv ∧ (step sha l e).1.Guarded :=
    fun l e h => ⟨step_inv sha l e h.1, step_guarded sha l e h.1 h.2⟩
  exact run_invariant preserved ⟨empty.inv, empty.guarded⟩ events

theorem step_blocked (inv : ledger.Inv)
    (blocked : ledger.Blocked id) (event : Event) : (step sha ledger event).1.Blocked id := by
  cases step_effect sha inv event with
  | idle same => rwa [same]
  | prepared ctx input around same result prepared => exact (prepared.blocked blocked).2
  | stored earlier a c c' a' present moved same =>
    rw [same]
    exact inv.store_blocked present moved blocked

theorem blocked_answer (inv : ledger.Inv)
    (blocked : ledger.Blocked id) (event : Event) :
    ∀ key, key.recipientId = id → prepares key (event, (step sha ledger event).2) = false ∧
      ∀ binding, arms key binding (event, (step sha ledger event).2) = false := by
  rintro key rfl
  refine not_answered sha inv (fun _ _ _ prepared => (prepared.blocked blocked).1 rfl) ?_ event
  intro binding c c' earlier a a' present moved
  obtain ⟨_, _, _, none, _⟩ := moved.moves.of_arm
  obtain ⟨control, k, record, row, named, _⟩ := blocked
  obtain rfl : control = c.recipient := some.inj (row.symm.trans (cell_some present).2.1)
  have none : c.recipient.barrier = Option.none := none
  rw [named] at none
  cases none

variable {event : Event}

theorem retires_answer {outcome : Outcome}
    (h : retires id (event, outcome) = true) :
    event.key.recipientId = id ∧ event.kind = .retire ∧
      ∃ view, outcome = .retirement (.ok (.retired view)) := by
  unfold retires at h
  split at h
  · rename_i same
    obtain ⟨rfl, rfl⟩ := Prod.mk.inj same
    exact ⟨by simpa [Event.key] using h, rfl, _, rfl⟩
  · cases h

theorem Moves.of_retire {prepares : Nat} {f f' : Front}
    (moves : Moves key prepares .retire f f') :
    f.attempt.armedAt.isSome ∧ f.attempt.capacity = .held ∧ f'.Shut ∧ f'.barrier = f.barrier := by
  cases moves with
  | retire armed held => exact ⟨armed, held, .inr ⟨armed, rfl⟩, rfl⟩

theorem retires_blocked (inv : ledger.Inv) (guarded : ledger.Guarded)
    (h : retires id (event, (step sha ledger event).2) = true) :
    (step sha ledger event).1.Blocked id := by
  obtain ⟨rfl, kind, view, answer⟩ := retires_answer h
  cases step_effect sha inv event with
  | idle _ _ _ _ notRetired => exact absurd answer (notRetired view)
  | prepared ctx input around same result prepared =>
    obtain ⟨_, result⟩ := result
    rw [result] at answer
    cases answer
  | stored earlier a c c' a' present moved same =>
    rw [kind] at moved
    rw [same]
    obtain ⟨own, control, _⟩ := cell_some present
    obtain ⟨armed, held, shut, barrier⟩ := moved.moves.of_retire
    have member : a ∈ c.record.attempts := by simp [moved.before]
    -- Evidence gives the capacity back, so an attempt that holds it has none.
    have open_ : a.evidence = none := by
      cases evidence : a.evidence with
      | none => rfl
      | some e => exact absurd held (guarded.spent _ _ a own member (by simp [evidence]))
    rcases guarded.pending _ _ _ a own control member armed open_ with named | blocked
    · exact inv.store_blocked_own present moved shut (barrier.trans named)
    · exact inv.store_blocked present moved blocked

/-- In every run from an empty ledger, once a settlement leaves a record of a recipient held as
unconfirmed or an armed attempt of the recipient is retired, the recipient's barrier is never
empty again, and no later prepare or arm of any of its keys succeeds. -/
theorem run_barrier_permanent (sha : Sha256) {ledger : Ledger} (empty : ledger.Empty) (before after : List Event)
    (event : Event) (id : AgentId)
    (uncertain : (∃ key record, key.recipientId = id ∧
        settles key (event, (step sha (run sha ledger before) event).2) = true ∧
        (run sha ledger (before ++ [event])).records key = some record ∧
        record.eligibility = .held ∧ record.held = some .unconfirmed) ∨
      retires id (event, (step sha (run sha ledger before) event).2) = true) :
    (∃ control, (run sha ledger (before ++ [event] ++ after)).recipients id = some control ∧
      control.barrier.isSome) ∧
    ∀ x ∈ trace sha (run sha ledger (before ++ [event])) after, ∀ key, key.recipientId = id →
      prepares key x = false ∧ ∀ binding, arms key binding x = false := by
  have start := run_guarded sha empty (before ++ [event])
  have blocked : (run sha ledger (before ++ [event])).Blocked id := by
    rcases uncertain with ⟨key, record, rfl, _, row, _, held⟩ | retired
    · exact start.2.uncertain key record row held
    · have earlier := run_guarded sha empty before
      rw [run, run_append]
      exact retires_blocked sha earlier.1 earlier.2 retired
  have preserved : ∀ l e, l.Inv ∧ l.Blocked id → (step sha l e).1.Inv ∧ (step sha l e).1.Blocked id :=
    fun l e h => ⟨step_inv sha l e h.1, step_blocked sha h.1 h.2 e⟩
  refine ⟨?_, ?_⟩
  · rw [run, run_append]
    obtain ⟨_, control, key, record, row, named, _⟩ := run_invariant preserved ⟨start.1, blocked⟩ after
    exact ⟨control, row, by simp [named]⟩
  · exact trace_forall _ preserved (fun l e h => blocked_answer sha h.1 h.2 e) ⟨start.1, blocked⟩ after

open Golden

/-- The golden message is armed and its settlement reports an unconfirmed mutation. -/
theorem run_barrier_permanent_golden :
    ∃ control, (run Golden.sha Golden.ledger ([prepare 1 1000, arm 1 1 2000] ++
      [settle 1 2 .mutationUnconfirmed 3000] ++ [prepare 2 4000])).recipients recipientId =
        some control ∧ control.barrier.isSome := by
  have applied : settles Golden.key (settle 1 2 .mutationUnconfirmed 3000,
      (step Golden.sha (run Golden.sha Golden.ledger [prepare 1 1000, arm 1 1 2000])
        (settle 1 2 .mutationUnconfirmed 3000)).2) = true := by
    decide +kernel
  have left : ((run Golden.sha Golden.ledger ([prepare 1 1000, arm 1 1 2000] ++
      [settle 1 2 .mutationUnconfirmed 3000])).records Golden.key).map
        (fun record => (record.eligibility, record.held)) = some (.held, some .unconfirmed) := by
    decide +kernel
  obtain ⟨record, row, standing⟩ := map_eq_some_iff.mp left
  obtain ⟨held, reason⟩ := Prod.mk.inj standing
  exact (run_barrier_permanent Golden.sha ledger_empty _ _ _ recipientId
    (.inl ⟨Golden.key, record, rfl, applied, row, held, reason⟩)).1

end FerroLoop.Wire.Delivery

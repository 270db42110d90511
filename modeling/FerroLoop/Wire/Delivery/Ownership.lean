import FerroLoop.Wire.Delivery.Step

namespace FerroLoop.Wire.Delivery

open Ledger GlobalControl

open List hiding getElem?_eq_some_iff
open Text (textBytes)

variable {a : AttemptSummary} {earlier : List AttemptSummary} {record : DeliveryRecord}

theorem Sound.holds_iff {key : DeliveryKey}
    (sound : Sound key record earlier a) (binding : AttemptBinding) :
    (∃ b ∈ record.attempts, b.capacity = .held ∧ b.binding = binding) ↔
      a.capacity = .held ∧ a.binding = binding := by
  rw [sound.newest]
  constructor
  · rintro ⟨b, member, held, same⟩
    rcases mem_append.mp member with past | newest
    · exact absurd held (sound.free b past)
    · have same' : b = a := by simpa using newest
      subst same'
      exact ⟨held, same⟩
  · rintro ⟨held, same⟩
    exact ⟨a, by simp, held, same⟩

variable {owner : ActiveOwner}

theorem Ledger.holds_iff {ledger : Ledger}
    (present : ledger.records owner.key = some record)
    (sound : Sound owner.key record earlier a) :
    ledger.Holds owner ↔ a.capacity = .held ∧ a.binding = owner.attempt := by
  rw [← sound.holds_iff]
  simp [Holds, present]

theorem Ledger.Inv.sound_at {ledger : Ledger} {key : DeliveryKey}
    (inv : ledger.Inv)
    (present : ledger.records key = some record) (newest : record.attempts = earlier ++ [a]) :
    Sound key record earlier a := by
  obtain ⟨earlier', a', sound⟩ := inv.sound key record present
  have same := sound.newest.symm.trans newest
  obtain ⟨rfl, last⟩ := append_inj' same rfl
  obtain rfl : a' = a := by simpa using last
  exact sound

section Stored

variable {ledger : Ledger} {key : DeliveryKey} {kind : Kind} {c c' : Cell}
  {earlier : List AttemptSummary} {a a' : AttemptSummary}

section

variable (inv : ledger.Inv) (present : ledger.cell key = some c) (moved : Moved kind c c' earlier a a')

include inv present moved

theorem Ledger.Inv.store_rows : (ledger.store c').records = put ledger.records key c'.record ∧
    (ledger.store c').recipients = put ledger.recipients key.recipientId c'.recipient := by
  obtain ⟨record, recipient, _⟩ := cell_some present
  have sound := inv.sound_at record moved.before
  have filed := inv.filed _ _ recipient
  simp [store, moved.key, sound.filed, moved.recipient, filed]

theorem Ledger.Inv.store_listed (id : AgentId) (control : RecipientControl)
    (row : (ledger.store c').recipients id = some control) : c'.global.entries id = control.active.toList := by
  obtain ⟨record, recipient, global⟩ := cell_some present
  have sound := inv.sound_at record moved.before
  rw [(inv.store_rows present moved).2] at row
  have before : ∀ other, ledger.recipients id = some other → c.global.entries id = other.active.toList := by
    intro other h
    rw [← global]
    exact inv.listed id other h
  cases moved.ownership with
  | kept _ active index _ =>
    have same : c'.global.entries id = c.global.entries id := by simp [entries, index]
    rw [same]
    by_cases own : id = key.recipientId
    · subst own
      obtain rfl : c'.recipient = control := by simpa using row
      rw [active, before _ recipient]
    · exact before _ (by rwa [put_other _ _ own] at row)
  | freed _ _ owned none index _ =>
    have entries : c'.global.entries id = (c.global.entries id).filter (· ≠ c.owner a) := by
      simp only [entries, index, filter_filter, Bool.and_comm]
    rw [entries]
    by_cases own : id = key.recipientId
    · subst own
      obtain rfl : c'.recipient = control := by simpa using row
      rw [none, before _ recipient, owned]
      simp
    have kept : (c.global.entries id).filter (· ≠ c.owner a) = c.global.entries id := by
      refine filter_eq_self.mpr fun owner member => ?_
      have theirs := (mem_entries.mp member).2
      have different : owner ≠ c.owner a := by
        rintro rfl
        exact own (by rw [← theirs]; simp [Cell.owner, sound.filed])
      simpa using different
    rw [kept]
    exact before _ (by rwa [put_other _ _ own] at row)

theorem Ledger.Inv.store_active (owner : ActiveOwner) (control : RecipientControl)
    (row : (ledger.store c').recipients owner.key.recipientId = some control) :
    control.active = some owner ↔ (ledger.store c').Holds owner := by
  obtain ⟨record, recipient, _⟩ := cell_some present
  have sound := inv.sound_at record moved.before
  have rows := inv.store_rows present moved
  rw [rows.2] at row
  -- A key other than the stored one holds what it held.
  have elsewhere : owner.key ≠ key → ((ledger.store c').Holds owner ↔ ledger.Holds owner) := by
    intro other
    simp only [Holds, rows.1, put_other _ _ other]
  by_cases own : owner.key.recipientId = key.recipientId
  · rw [own] at row
    obtain rfl : c'.recipient = control := by simpa using row
    have before := inv.active owner c.recipient (own ▸ recipient)
    by_cases here : owner.key = key
    · subst here
      have stored : (ledger.store c').records owner.key = some c'.record := by rw [rows.1]; simp
      rw [holds_iff stored (moved.sound sound), moved.token]
      cases moved.ownership with
      | kept capacity active _ _ =>
        rw [active, capacity, before, holds_iff record sound]
      | freed _ notHeld _ none _ _ => simp [none, notHeld]
    · rw [elsewhere here, ← before]
      cases moved.ownership with
      | kept _ active _ _ => rw [active]
      | freed _ _ owned none _ _ =>
        rw [none, owned]
        constructor
        · intro h
          cases h
        · intro h
          exact absurd (by rw [← Option.some.inj h]; exact sound.filed) here
  · rw [put_other _ _ own] at row
    have here : owner.key ≠ key := fun same => own (by rw [same])
    rw [elsewhere here]
    exact inv.active owner control row

theorem Ledger.Inv.store : (ledger.store c').Inv := by
  obtain ⟨record, recipient, global⟩ := cell_some present
  have sound := inv.sound_at record moved.before
  have rows := inv.store_rows present moved
  refine ⟨?_, ?_, inv.store_listed present moved, ?_, ?_, ?_, inv.store_active present moved⟩
  · have valid : validGlobal c.global = true := global ▸ inv.global
    cases moved.ownership with
    | kept _ _ index count =>
      rw [validGlobal_iff] at valid ⊢
      simpa [Ledger.store, index, count] using valid
    | freed _ _ owned _ index count =>
      have entry : c.owner a ∈ c.global.entries key.recipientId := by
        rw [← global, inv.listed _ _ recipient, owned]
        simp
      exact validGlobal_freed valid (mem_entries.mp entry).1 index count
  · intro id control row
    rw [rows.2] at row
    by_cases own : id = key.recipientId
    · subst own
      obtain rfl : c'.recipient = control := by simpa using row
      rw [moved.recipient]
      exact inv.filed _ _ recipient
    · exact inv.filed _ _ (by rwa [put_other _ _ own] at row)
  · intro k r row
    rw [rows.1] at row
    by_cases here : k = key
    · subst here
      obtain rfl : c'.record = r := by simpa using row
      exact ⟨earlier, a', moved.sound sound⟩
    · exact inv.sound k r (by rwa [put_other _ _ here] at row)
  · intro k r row
    rw [rows.1] at row
    by_cases here : k = key
    · subst here
      obtain rfl : c'.record = r := by simpa using row
      rw [moved.generation]
      exact inv.reserved k _ record
    · exact inv.reserved k r (by rwa [put_other _ _ here] at row)
  · intro k r row
    rw [rows.2]
    by_cases own : k.recipientId = key.recipientId
    · exact ⟨c'.recipient, by simp [own]⟩
    · rw [put_other _ _ own]
      rw [rows.1, put_other _ _ fun same => own (by rw [same])] at row
      exact inv.controlled k r row

end

end Stored

section Prepared

variable {ledger ledger' : Ledger} {key : DeliveryKey} {ctx : TransitionContext} {input : PrepareInput}

def thawedAttempts (ctx : TransitionContext) (input : PrepareInput) : List AttemptSummary :=
  (startRecord ctx input).attempts.map fun prior => { prior with frozen := none }

section

variable (inv : ledger.Inv) (prepared : ledger.Prepared ledger' key ctx input)

include inv prepared

theorem Ledger.Inv.prepared_free {record : DeliveryRecord} (present : ctx.record = some record) :
    ∀ b ∈ record.attempts, b.capacity ≠ .held := by
  obtain ⟨around, context⟩ := prepared.context
  obtain ⟨control, _, storedRecord, _, _⟩ := context_some context
  intro b member held
  have active := (inv.active { key, attempt := b.binding } ctx.recipient control).mpr
    ⟨record, b, storedRecord ▸ present, member, held, rfl⟩
  rw [prepared.admitted.active] at active
  cases active

theorem Ledger.Inv.prepared_sound (revision : Revision) :
    Sound key { prepareRecord (startRecord ctx input) input with revision } (thawedAttempts ctx input)
      (preparedSummary input) := by
  obtain ⟨around, context⟩ := prepared.context
  obtain ⟨control, sameKey, storedRecord, _, _⟩ := context_some context
  have admitted := prepared.admitted
  have filed := inv.filed _ _ control
  cases present : ctx.record with
  | none =>
    have start : (startRecord ctx input).attempts = [] := by simp [startRecord, present]
    refine ⟨?_, ?_, ?_, ?_, ?_, ?_, fun _ => rfl, ?_, ?_, ?_, ?_⟩
    all_goals simp [prepareRecord, thawedAttempts, startRecord, present, sameKey, admitted.binding, filed]
  | some record =>
    obtain ⟨earlier, a, sound⟩ := inv.sound key record (storedRecord ▸ present)
    have start : startRecord ctx input = record := by simp [startRecord, present]
    have budget := admitted.budget record present
    have counted := sound.counted
    have free := inv.prepared_free prepared present
    refine ⟨?_, ?_, ?_, ?_, ?_, ?_, fun _ => rfl, ?_, ?_, ?_, ?_⟩
    · simp [prepareRecord, thawedAttempts]
    · simp [prepareRecord, start, sound.schema]
    · simp [prepareRecord, start, sound.filed]
    · simp [prepareRecord, start, sound.recipient]
    · simp only [prepareRecord, start, length_append, length_map, length_singleton]
      omega
    · simp [prepareRecord, start, counted]
    · intro b member armed
      simp only [thawedAttempts, start, mem_map] at member
      obtain ⟨prior, old, rfl⟩ := member
      exact admitted.resolved record present prior old armed
    · intro b member
      simp only [thawedAttempts, start, mem_map] at member
      obtain ⟨prior, old, rfl⟩ := member
      exact free prior old
    · intro b member
      simp only [thawedAttempts, start, mem_map] at member
      obtain ⟨prior, old, rfl⟩ := member
      rfl
    have fresh := admitted.token record present
    simp only [prepareRecord, start, map_append, map_map, map_cons, map_nil,
      preparedSummary]
    refine nodup_append.mpr ⟨sound.tokens, by simp, ?_⟩
    intro token old last same
    obtain ⟨prior, member, rfl⟩ := mem_map.mp old
    have same : last = input.attempt.token := by simpa using same
    rw [same]
    exact fresh prior member

theorem Ledger.Inv.prepared_listed
    (absent : ledger.global.entries key.recipientId = []) (id : AgentId) (control : RecipientControl)
    (row : ledger'.recipients id = some control) : ledger'.global.entries id = control.active.toList := by
  obtain ⟨revision, recipients⟩ := prepared.recipients
  rw [recipients] at row
  have entries : ledger'.global.entries id = ledger.global.entries id ++
      if key.recipientId = id then [{ key, attempt := input.attempt }] else [] := by
    simp only [entries, prepared.index, filter_append, filter_cons, filter_nil,
      decide_eq_true_eq]
  rw [entries]
  by_cases own : id = key.recipientId
  · subst own
    simp only [put_same, Option.some.injEq] at row
    subst row
    simp [absent]
  · rw [put_other _ _ own] at row
    rw [if_neg (Ne.symm own), append_nil, inv.listed id control row]

theorem Ledger.Inv.prepared_reserved
    (k : DeliveryKey) (record : DeliveryRecord) (row : ledger'.records k = some record) :
    ledger'.reservations k.originalId = some { originalId := k.originalId, generation := record.generation } := by
  obtain ⟨around, context⟩ := prepared.context
  obtain ⟨_, _, _, storedReservation, _⟩ := context_some context
  obtain ⟨revision, records⟩ := prepared.records
  have generation : (startRecord ctx input).generation = input.generation := by
    cases present : ctx.record with
    | none => simp [startRecord, present]
    | some record => simp [startRecord, present, (prepared.admitted.same record present).1]
  rw [records] at row
  rw [prepared.reservations]
  by_cases here : k = key
  · subst here
    simp only [put_same, Option.some.injEq] at row
    subst row
    simp [prepareRecord, generation]
  rw [put_other _ _ here] at row
  have old := inv.reserved k record row
  by_cases sameMessage : k.originalId = key.originalId
  · -- Another recipient of the same message was reserved with the same generation.
    rw [sameMessage] at old ⊢
    have agreed := prepared.admitted.reservation _ (storedReservation.trans old)
    rw [put_same, ← agreed.2]
  · rw [put_other _ _ sameMessage]
    exact old

theorem Ledger.Inv.prepared_active (owner : ActiveOwner) (control : RecipientControl)
    (row : ledger'.recipients owner.key.recipientId = some control) :
    control.active = some owner ↔ ledger'.Holds owner := by
  obtain ⟨around, context⟩ := prepared.context
  obtain ⟨before, _, _, _, _⟩ := context_some context
  obtain ⟨revision, records⟩ := prepared.records
  obtain ⟨recipientRevision, recipients⟩ := prepared.recipients
  rw [recipients] at row
  have elsewhere : owner.key ≠ key → (ledger'.Holds owner ↔ ledger.Holds owner) := by
    intro different
    simp only [Holds, records, put_other _ _ different]
  by_cases own : owner.key.recipientId = key.recipientId
  · rw [own, put_same, Option.some.injEq] at row
    subst row
    by_cases here : owner.key = key
    · subst here
      have stored : ledger'.records owner.key =
          some { prepareRecord (startRecord ctx input) input with revision } := by
        rw [records]
        exact put_same _ _ _
      rw [holds_iff stored (inv.prepared_sound prepared revision)]
      cases owner
      simp [preparedSummary]
    · have none : ¬ ledger.Holds owner := by
        rw [← inv.active owner ctx.recipient (own ▸ before), prepared.admitted.active]
        simp
      rw [elsewhere here]
      refine iff_of_false ?_ none
      intro h
      exact here (by rw [← Option.some.inj h])
  · rw [put_other _ _ own] at row
    rw [elsewhere fun same => own (by rw [same])]
    exact inv.active owner control row

end

theorem Ledger.Inv.prepared (inv : ledger.Inv) (prepared : ledger.Prepared ledger' key ctx input) :
    ledger'.Inv := by
  obtain ⟨around, context⟩ := prepared.context
  obtain ⟨control, _, _, _, sameGlobal⟩ := context_some context
  obtain ⟨revision, records⟩ := prepared.records
  obtain ⟨recipientRevision, recipients⟩ := prepared.recipients
  have absent : ledger.global.entries key.recipientId = [] := by
    rw [inv.listed _ _ control, prepared.admitted.active]
    rfl
  refine ⟨?_, ?_, inv.prepared_listed prepared absent, ?_, inv.prepared_reserved prepared, ?_,
    inv.prepared_active prepared⟩
  · have room := prepared.admitted.room
    rw [sameGlobal] at room
    exact validGlobal_joined inv.global room absent prepared.index prepared.count
  · intro id other row
    rw [recipients] at row
    by_cases own : id = key.recipientId
    · subst own
      rw [put_same, Option.some.injEq] at row
      rw [← row]
      exact inv.filed key.recipientId ctx.recipient control
    · exact inv.filed _ _ (by rwa [put_other _ _ own] at row)
  · intro k r row
    rw [records] at row
    by_cases here : k = key
    · subst here
      rw [put_same, Option.some.injEq] at row
      rw [← row]
      exact ⟨_, _, inv.prepared_sound prepared revision⟩
    · exact inv.sound k r (by rwa [put_other _ _ here] at row)
  · intro k r row
    rw [recipients]
    by_cases own : k.recipientId = key.recipientId
    · exact ⟨_, by rw [own]; exact put_same _ _ _⟩
    · rw [put_other _ _ own]
      rw [records, put_other _ _ fun same => own (by rw [same])] at row
      exact inv.controlled k r row

end Prepared

theorem Ledger.Empty.inv {ledger : Ledger} (empty : ledger.Empty) : ledger.Inv where
  global := by simp [validGlobal_iff, empty.index, empty.attempts]
  filed := fun id control row => (empty.recipients id control row).1
  listed := by
    intro id control row
    simp [entries, empty.index, (empty.recipients id control row).2.1]
  sound := fun key record row => by simp [empty.records key] at row
  reserved := fun key record row => by simp [empty.records key] at row
  controlled := fun key record row => by simp [empty.records key] at row
  active := by
    intro owner control row
    simp [(empty.recipients _ control row).2.1, Holds, empty.records]

theorem step_inv (sha : Sha256) (ledger : Ledger) (event : Event) (inv : ledger.Inv) :
    (step sha ledger event).1.Inv := by
  cases step_effect sha inv event with
  | idle same => rwa [same]
  | prepared ctx input around same result prepared => exact inv.prepared prepared
  | stored earlier a c c' a' present moved same =>
    rw [same]
    exact inv.store present moved

theorem run_inv (sha : Sha256) {ledger : Ledger} (empty : ledger.Empty) (events : List Event) :
    (run sha ledger events).Inv :=
  Machine.run_invariant (step_inv sha) empty.inv events

/-- Position `index` of the record of `key` holds capacity, for the recipient `id`. -/
def Ledger.HeldAt (ledger : Ledger) (id : AgentId) (key : DeliveryKey) (index : Nat) : Prop :=
  key.recipientId = id ∧ ∃ record a, ledger.records key = some record ∧
    record.attempts[index]? = some a ∧ a.capacity = .held

variable {id : AgentId} {control : RecipientControl}

theorem Ledger.Inv.heldAt_active {ledger : Ledger} (inv : ledger.Inv)
    (row : ledger.recipients id = some control) {key : DeliveryKey} {index : Nat}
    (held : ledger.HeldAt id key index) :
    ∃ record a, ledger.records key = some record ∧ index + 1 = record.attempts.length ∧
      record.attempts[index]? = some a ∧ control.active = some { key, attempt := a.binding } := by
  obtain ⟨rfl, record, a, present, found, held⟩ := held
  obtain ⟨earlier, newest, sound⟩ := inv.sound key record present
  have member : a ∈ record.attempts := mem_of_getElem? found
  have active := (inv.active { key, attempt := a.binding } control row).mpr ⟨record, a, present, member, held, rfl⟩
  refine ⟨record, a, present, ?_, found, active⟩
  have inside : index < record.attempts.length := (List.getElem?_eq_some_iff.mp found).1
  rw [sound.newest] at found inside ⊢
  rw [length_append, length_singleton] at inside ⊢
  by_cases past : index < earlier.length
  · rw [getElem?_append_left past] at found
    exact absurd held (sound.free a (mem_of_getElem? found))
  · omega

theorem Ledger.Inv.active_heldAt {ledger : Ledger} (inv : ledger.Inv)
    (row : ledger.recipients id = some control)
    (active : control.active = some owner) :
    owner.key.recipientId = id ∧ ∃ record a index, ledger.records owner.key = some record ∧
      record.attempts[index]? = some a ∧ a.binding = owner.attempt ∧
      ∀ key i, ledger.HeldAt id key i ↔ key = owner.key ∧ i = index := by
  have listed := inv.listed id control row
  have entry : owner ∈ ledger.global.entries id := by simp [listed, active]
  have own : owner.key.recipientId = id := (mem_entries.mp entry).2
  subst own
  obtain ⟨record, a, present, member, held, binding⟩ := (inv.active owner control row).mp active
  obtain ⟨index, inside, found⟩ := mem_iff_getElem.mp member
  have found : record.attempts[index]? = some a := by rw [getElem?_eq_getElem inside, found]
  have here : ledger.HeldAt owner.key.recipientId owner.key index := ⟨rfl, record, a, present, found, held⟩
  refine ⟨rfl, record, a, index, present, found, binding, ?_⟩
  intro key i
  constructor
  · intro other
    obtain ⟨_, a₁, _, last₁, _, active₁⟩ := inv.heldAt_active row other
    obtain ⟨_, _, _, last₂, _, _⟩ := inv.heldAt_active row here
    have same : ({ key, attempt := a₁.binding } : ActiveOwner) = owner :=
      Option.some.inj (active₁.symm.trans active)
    have sameKey : key = owner.key := by rw [← same]
    simp_all
    omega
  · rintro ⟨rfl, rfl⟩
    exact here

theorem Ledger.Inv.head_accepts {ledger : Ledger} (inv : ledger.Inv) (around : Surroundings)
    (command : DeliveryCommand) (present : ledger.records command.key = some record) :
    ∃ ctx, ledger.context around command.key = some ctx ∧ ctx.record = some record ∧
      headRefuses ctx command = false ∧ reservationMatches ctx.reservation record = true := by
  obtain ⟨control, row⟩ := inv.controlled _ _ present
  obtain ⟨earlier, a, sound⟩ := inv.sound _ _ present
  have listed := inv.listed _ _ row
  have consistent : capacityConsistent command.key control ledger.global = true := by
    simpa [capacityConsistent, entries] using listed
  refine ⟨_, by rw [context, row]; rfl, present, ?_, ?_⟩
  · simp only [headRefuses, inv.global, inv.filed _ _ row, consistent, present, Option.any_some, sound.valid,
      Bool.not_true, bne_self_eq_false, Bool.or_self, Bool.false_or, Bool.or_eq_false_iff]
    constructor
    · cases message : around.messages command.key.originalId with
      | none => rfl
      | some m => simp [around.messages_filed _ _ message]
    · cases receipt : around.receipts command.key with
      | none => rfl
      | some r => simp [around.receipts_filed _ _ receipt]
  · simp [reservationMatches, inv.reserved _ _ present, sound.filed]

/-- From empty records and controls, after any run: records and the global control are valid;
a recipient's owner is its one index entry and the one attempt of its records that holds
capacity; the next event raises no ownership error and no panic; and a command on a stored
record passes the validity checks. -/
theorem run_control_invariant (sha : Sha256) {ledger : Ledger} (empty : ledger.Empty) (events : List Event) :
    (∀ key record, (run sha ledger events).records key = some record → validRecord record key = true) ∧
    validGlobal (run sha ledger events).global = true ∧
    (run sha ledger events).global.activeAttempts ≤ 16 ∧
    (∀ id control, (run sha ledger events).recipients id = some control →
      (run sha ledger events).global.entries id = control.active.toList ∧
      (∀ owner, control.active = some owner → owner.key.recipientId = id ∧
        ∃ record a index, (run sha ledger events).records owner.key = some record ∧
          record.attempts[index]? = some a ∧ a.binding = owner.attempt ∧
          ∀ key i, (run sha ledger events).HeldAt id key i ↔ key = owner.key ∧ i = index) ∧
      (control.active = none → ∀ key i, ¬ (run sha ledger events).HeldAt id key i)) ∧
    (∀ event fault, (step sha (run sha ledger events) event).2 = .delivery (.error fault) ∨
        (step sha (run sha ledger events) event).2 = .retirement (.error fault) →
      fault ≠ .ownershipCorrupt ∧ fault ≠ .panic) ∧
    (∀ around command record, (run sha ledger events).records command.key = some record →
      ∃ ctx, (run sha ledger events).context around command.key = some ctx ∧ ctx.record = some record ∧
        headRefuses ctx command = false ∧ reservationMatches ctx.reservation record = true) := by
  have inv := run_inv sha empty events
  refine ⟨?_, inv.global, ?_, ?_, ?_, fun around command _ => inv.head_accepts around command⟩
  · intro key record present
    obtain ⟨earlier, a, sound⟩ := inv.sound key record present
    exact sound.valid
  · obtain ⟨bound, counted, _⟩ := (validGlobal_iff _).mp inv.global
    omega
  · intro id control row
    refine ⟨inv.listed id control row, fun owner => inv.active_heldAt row, ?_⟩
    intro none key i held
    obtain ⟨_, _, _, _, _, active⟩ := inv.heldAt_active row held
    rw [none] at active
    cases active
  · intro event fault failed
    have benign : fault.Benign := by
      cases step_effect sha inv event with
      | idle _ _ _ _ _ benign => exact benign fault failed
      | prepared _ _ _ _ result =>
        obtain ⟨record, result⟩ := result
        rw [result] at failed
        simp at failed
      | stored _ _ _ _ _ _ _ _ succeeded =>
        have succeeded := succeeded fault
        rcases failed with failed | failed
        · exact absurd failed succeeded.1
        · exact absurd failed succeeded.2
    rw [benign]
    decide

/-! ### The golden message

The message, payload and digests of the source's own canonical-encoding test, delivered to one
recipient. -/

namespace Golden

def messageId : MessageId := ⟨⟨"urn:uuid:00000000-0000-7000-8000-000000000001"⟩⟩
def recipientId : AgentId := ⟨⟨"urn:uuid:00000000-0000-7000-8000-000000000002"⟩⟩
def key : DeliveryKey := ⟨messageId, recipientId⟩
def zero : Digest := ⟨Vector.replicate 32 0⟩

def generation : Digest := ⟨#v[0x1f, 0x78, 0x50, 0xe9, 0xa8, 0x50, 0x4f, 0x1f, 0x77, 0x79, 0x31, 0x82, 0xb2, 0xeb,
  0xca, 0x7f, 0x12, 0xb6, 0x86, 0x65, 0xb4, 0x32, 0xff, 0xba, 0x1c, 0x1d, 0xf3, 0x2c, 0x50, 0xf6, 0x04, 0x13]⟩

def payload : Digest := ⟨#v[0xcb, 0xea, 0xaa, 0x91, 0x64, 0x35, 0xdb, 0x1d, 0x6e, 0x91, 0xc7, 0x93, 0x2f, 0xa6,
  0x44, 0xe7, 0xf9, 0x8c, 0x3a, 0x12, 0xb3, 0x63, 0x2a, 0xd0, 0x0d, 0x12, 0x77, 0x0b, 0x2d, 0x7e, 0x03, 0x0a]⟩

def on (ms : Nat) : At := ⟨min (1793923200000 + ms) Vault.maxMillis, Nat.min_le_right _ _⟩

def message : WireMessage where
  id := messageId
  threadId := messageId
  replyTo := none
  correlationId := none
  senderId := none
  senderName := "alice"
  senderHost := none
  to_ := .agentName "bob"
  kind := .mail
  urgency := .normal
  durable := false
  subject := "Hello"
  body := "Body"
  createdAt := on 0
  deadlineAt := none

def sha : Sha256 := fun bytes =>
  if bytes = generationBytes message then generation.bytes
  else if bytes = payloadBytes generation peerRendererVersion (textBytes "example\n") then payload.bytes
  else zero.bytes

def binding : Binding := ⟨recipientId, ⟨0⟩, "ai-lab-0", 1, zero⟩

def lifetime : LifetimeRegistration where
  id := zero
  revision := ⟨1⟩
  home := zero
  boot := zero
  inst := ⟨zero.bytes⟩
  worker := ⟨zero.bytes⟩
  connection := ⟨zero.bytes⟩
  emitterScope := zero

def attempt (token : UInt8) : AttemptBinding where
  token := ⟨Vector.replicate 32 token⟩
  daemon := lifetime.inst
  worker := lifetime.worker
  connection := lifetime.connection
  lane := .push
  lifetime := lifetime

def route : RoutePin := ⟨"thread", 1, zero, none, none⟩

def receipt : DeliveryReceipt where
  messageId := messageId
  recipientId := recipientId.iri
  recipientName := "bob"
  status := .pending
  attempts := 0
  updatedAt := on 0
  ackedAt := none

def around : Surroundings where
  continuity :=
    { schema := 1, cutover := ⟨0, by decide⟩, policyHash := zero, localEpoch := 1, enabled := true, intact := true }
  messages := fun id => if id = messageId then some message else none
  receipts := fun k => if k = key then some receipt else none
  identity :=
    { registry := some
        { id := recipientId, nameKey := "bob", displayName := "Bob", email := "bob@artificialhumanity.io", project := "web",
          role := .assistant, extraAreas := [], status := .active, updatedAt := on 0, by_ := "owner" }
      selector := .unique recipientId ⟨0⟩
      receiptAlias := .unique recipientId ⟨0⟩ }
  lifetime := some lifetime
  messages_filed := by
    intro id m h
    split at h
    · rename_i same
      cases h
      exact same.symm
    · cases h
  receipts_filed := by
    intro k r h
    split at h
    · rename_i same
      cases h
      exact ⟨by rw [same]; rfl, by rw [same]; rfl⟩
    · cases h

def ledger : Ledger where
  records := fun _ => none
  reservations := fun _ => none
  recipients := fun id => if id = recipientId then some ⟨binding, ⟨0⟩, none, none, false⟩ else none
  global := {}

theorem ledger_empty : ledger.Empty where
  records := fun _ => rfl
  reservations := fun _ => rfl
  recipients := by
    intro id control row
    simp only [ledger] at row
    split at row
    · rename_i same
      cases row
      exact ⟨same.symm, rfl, rfl⟩
    · cases row
  index := rfl
  attempts := rfl

def prepare (token : UInt8) (ms : Nat) : Event :=
  .command around (.prepare ⟨key, generation, binding, attempt token, route, on ms⟩)

def arm (token : UInt8) (revision ms : Nat) : Event :=
  .command around (.arm ⟨key, ⟨revision⟩, attempt token, route,
    ⟨peerRendererVersion, .queue, none, textBytes "example\n", payload⟩, on ms⟩)

def settle (token : UInt8) (revision : Nat) (evidence : DeliveryEvidence) (ms : Nat) : Event :=
  .command around (.settle ⟨key, ⟨revision⟩, attempt token, evidence, "", on ms⟩)

def close : Event := .command around (.close key)

end Golden

theorem run_control_invariant_golden :
    Golden.ledger.Empty ∧
    validGlobal (run Golden.sha Golden.ledger [Golden.prepare 1 1000, Golden.arm 1 1 2000]).global = true :=
  ⟨Golden.ledger_empty, (run_control_invariant Golden.sha Golden.ledger_empty _).2.1⟩

end FerroLoop.Wire.Delivery

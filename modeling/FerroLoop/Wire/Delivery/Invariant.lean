import FerroLoop.Wire.Delivery.Inversion

namespace FerroLoop.Wire.Delivery
open Checked List

structure Sound (key : DeliveryKey) (record : DeliveryRecord) (earlier : List AttemptSummary)
    (a : AttemptSummary) : Prop where
  newest : record.attempts = earlier ++ [a]
  schema : record.schema = deliverySchemaVersion
  filed : record.key = key
  recipient : record.binding.recipientId = key.recipientId
  within : record.attempts.length ≤ 3
  counted : record.prepares = record.attempts.length
  fresh : record.eligibility = .prepared → a.fresh
  resolved : ∀ b ∈ earlier, b.armedAt.isSome →
    b.evidence = some .definitiveNoMutation ∧ b.capacity = .released
  free : ∀ b ∈ earlier, b.capacity ≠ .held
  thawed : ∀ b ∈ earlier, b.frozen = none
  tokens : (record.attempts.map (·.binding.token)).Nodup

variable {earlier : List AttemptSummary}

theorem filter_newest_le {f : AttemptSummary → Bool} (a : AttemptSummary)
    (none : ∀ b ∈ earlier, f b = false) : ((earlier ++ [a]).filter f).length ≤ 1 := by
  have past : earlier.filter f = [] := filter_eq_nil_iff.mpr fun b member => by simp [none b member]
  rw [filter_append, past, nil_append]
  exact length_filter_le f [a]

variable {key : DeliveryKey} {owner : ActiveOwner} {global : GlobalControl} {a : AttemptSummary}

theorem Sound.valid {record : DeliveryRecord}
    (sound : Sound key record earlier a) : validRecord record key = true := by
  have frozen : (record.attempts.filter (·.frozen.isSome)).length ≤ 1 := by
    rw [sound.newest]
    exact filter_newest_le a fun b member => by simp [sound.thawed b member]
  have held : (record.attempts.filter (·.capacity == .held)).length ≤ 1 := by
    rw [sound.newest]
    exact filter_newest_le a fun b member => by simp [sound.free b member]
  have standing : (record.eligibility != .prepared || record.attempts.getLast?.any AttemptSummary.fresh) = true := by
    by_cases prepared : record.eligibility = .prepared
    · simp [sound.newest, sound.fresh prepared]
    · simp [prepared]
  simp only [validRecord, sound.schema, sound.filed, sound.recipient, sound.counted, standing, frozen, held,
    sound.within, beq_self_eq_true, decide_true, Bool.and_self]

variable {key : DeliveryKey}

theorem Moves.fresh {prepares : Nat} {kind : Kind} {f f' : Front}
    (moves : Moves key prepares kind f f') (before : f.eligibility = .prepared → f.attempt.fresh) :
    f'.eligibility = .prepared → f'.attempt.fresh := by
  intro prepared
  cases moves with
  | note => exact before prepared
  -- An armed attempt is not fresh, so the record was not prepared.
  | settleFenced evidence detail armed | retire armed held =>
    have fresh := before prepared
    simp only [AttemptSummary.fresh, Bool.and_eq_true] at fresh
    simp [Option.isNone_iff_eq_none.mp fresh.1.1.1] at armed
  | _ => simp_all [Front.reopened] <;> split at prepared <;> simp_all

variable {c : Cell}

theorem Moved.sound {kind : Kind} {c' : Cell} {a' : AttemptSummary}
    (moved : Moved kind c c' earlier a a') (sound : Sound key c.record earlier a) :
    Sound key c'.record earlier a' where
  newest := moved.after
  schema := moved.schema.trans sound.schema
  filed := moved.key.trans sound.filed
  recipient := by rw [moved.binding, sound.recipient]
  within := by simpa [moved.after, sound.newest] using sound.within
  counted := by rw [moved.prepares, sound.counted, moved.after, sound.newest]; simp
  fresh := moved.moves.fresh sound.fresh
  resolved := sound.resolved
  free := sound.free
  thawed := sound.thawed
  tokens := by simpa [moved.after, sound.newest, moved.token] using sound.tokens

theorem distinctRecipients_iff (index : List ActiveOwner) :
    distinctRecipients index = true ↔
      index.Pairwise fun earlier later => later.key.recipientId ≠ earlier.key.recipientId := by
  induction index with
  | nil => simp [distinctRecipients]
  | cons owner rest ih => simp [distinctRecipients, ih]

theorem validGlobal_iff (global : GlobalControl) :
    validGlobal global = true ↔ global.activeIndex.length ≤ 16 ∧
      global.activeAttempts = global.activeIndex.length ∧
      global.activeIndex.Pairwise fun earlier later => later.key.recipientId ≠ earlier.key.recipientId := by
  simp [validGlobal, ← distinctRecipients_iff, and_assoc]

def GlobalControl.entries (global : GlobalControl) (id : AgentId) : List ActiveOwner :=
  global.activeIndex.filter fun owner => owner.key.recipientId = id

theorem mem_entries {id : AgentId} :
    owner ∈ global.entries id ↔ owner ∈ global.activeIndex ∧ owner.key.recipientId = id := by
  simp [GlobalControl.entries]

theorem length_filter_ne {index : List ActiveOwner}
    (distinct : index.Pairwise fun earlier later => later.key.recipientId ≠ earlier.key.recipientId)
    (member : owner ∈ index) : (index.filter (· ≠ owner)).length + 1 = index.length := by
  have nodup : index.Nodup := distinct.imp fun different same => different (by rw [same])
  have erased := length_erase_of_mem member
  have positive := length_pos_of_mem member
  have same : index.filter (· ≠ owner) = index.filter (· != owner) :=
    filter_congr fun other _ => by simp [bne, ← Bool.beq_eq_decide_eq]
  rw [nodup.erase_eq_filter, ← same] at erased
  omega

variable {global' : GlobalControl}

theorem validGlobal_freed
    (valid : validGlobal global = true) (member : owner ∈ global.activeIndex)
    (index : global'.activeIndex = global.activeIndex.filter (· ≠ owner))
    (count : global'.activeAttempts + 1 = global.activeAttempts) : validGlobal global' = true := by
  obtain ⟨bound, counted, distinct⟩ := (validGlobal_iff global).mp valid
  have shorter := length_filter_ne distinct member
  rw [← index] at shorter
  refine (validGlobal_iff global').mpr ⟨by omega, by omega, ?_⟩
  rw [index]
  exact distinct.filter _

theorem validGlobal_joined
    (valid : validGlobal global = true) (room : global.activeAttempts < 16)
    (absent : global.entries owner.key.recipientId = [])
    (index : global'.activeIndex = global.activeIndex ++ [owner])
    (count : global'.activeAttempts = global.activeAttempts + 1) : validGlobal global' = true := by
  obtain ⟨bound, counted, distinct⟩ := (validGlobal_iff global).mp valid
  refine (validGlobal_iff global').mpr ⟨?_, ?_, ?_⟩
  · simp only [index, length_append, length_singleton]
    omega
  · simp only [index, length_append, length_singleton]
    omega
  rw [index]
  refine pairwise_append.mpr ⟨distinct, pairwise_singleton _ _, ?_⟩
  intro other member last same
  have same : last = owner := by simpa using same
  subst same
  intro clash
  have entry : other ∈ global.entries last.key.recipientId := mem_entries.mpr ⟨member, clash.symm⟩
  rw [absent] at entry
  cases entry

/-- The attempt `owner` names holds capacity. -/
def Ledger.Holds (ledger : Ledger) (owner : ActiveOwner) : Prop :=
  ∃ record a, ledger.records owner.key = some record ∧ a ∈ record.attempts ∧ a.capacity = .held ∧
    a.binding = owner.attempt

structure Ledger.Inv (ledger : Ledger) : Prop where
  global : validGlobal ledger.global = true
  filed : ∀ id control, ledger.recipients id = some control → control.binding.recipientId = id
  listed : ∀ id control, ledger.recipients id = some control →
    ledger.global.entries id = control.active.toList
  sound : ∀ key record, ledger.records key = some record → ∃ earlier a, Sound key record earlier a
  reserved : ∀ key record, ledger.records key = some record →
    ledger.reservations key.originalId = some { originalId := key.originalId, generation := record.generation }
  controlled : ∀ key record, ledger.records key = some record →
    ∃ control, ledger.recipients key.recipientId = some control
  active : ∀ owner control, ledger.recipients owner.key.recipientId = some control →
    (control.active = some owner ↔ ledger.Holds owner)

def Ledger.cell (ledger : Ledger) (key : DeliveryKey) : Option Cell :=
  match ledger.records key, ledger.recipients key.recipientId with
  | some record, some recipient => some { record, recipient, global := ledger.global }
  | _, _ => none

variable {ledger : Ledger}

theorem cell_some (h : ledger.cell key = some c) :
    ledger.records key = some c.record ∧ ledger.recipients key.recipientId = some c.recipient ∧
      ledger.global = c.global := by
  unfold Ledger.cell at h
  split at h
  · rename_i record recipient storedRecord storedRecipient
    cases h
    exact ⟨storedRecord, storedRecipient, rfl⟩
  · cases h

theorem Ledger.Inv.steady (inv : ledger.Inv)
    (present : ledger.cell key = some c) :
    ∃ earlier a, Sound key c.record earlier a ∧ Steady c earlier a := by
  obtain ⟨record, recipient, global⟩ := cell_some present
  obtain ⟨earlier, a, sound⟩ := inv.sound key c.record record
  have active : a.capacity = .held → c.recipient.active = some (c.owner a) := by
    intro held
    refine (inv.active (c.owner a) c.recipient (by simpa [Cell.owner, sound.filed] using recipient)).mpr ?_
    exact ⟨c.record, a, by simpa [Cell.owner, sound.filed] using record, by simp [sound.newest], held, rfl⟩
  refine ⟨earlier, a, sound, sound.newest, ?_, sound.free, active, ?_, global ▸ inv.global⟩
  · intro b member armed
    simp [(sound.resolved b member armed).1]
  intro held
  have entry : c.owner a ∈ ledger.global.entries key.recipientId := by
    rw [inv.listed _ _ recipient, active held]
    simp
  rw [← global]
  exact (mem_entries.mp entry).1

end FerroLoop.Wire.Delivery

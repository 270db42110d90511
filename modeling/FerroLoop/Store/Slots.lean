import FerroLoop.Store.Published

namespace FerroLoop.Store

open Bytes Checked Disk List

def sector : Nat := 512

/-- The header of a file with nothing pending: the newest slot, and the other, which is older or
was never written. -/
structure Slotted (file : Image) (index : Nat) (sb : Superblock) : Prop where
  slot : index < 2
  fits : sb.Fits
  header : headerBytes ≤ file.length
  newest : slice file (slotOffset index) slotLen = encodeSuperblock sb
  older : slice file (slotOffset (otherSlot index)) slotLen = blankSlot ∨
    ∃ old : Superblock, old.Fits ∧ old.epoch < sb.epoch ∧
      slice file (slotOffset (otherSlot index)) slotLen = encodeSuperblock old

structure Stored (engine : Engine) (serde : SerdeJson) (file : Image) (index : Nat) (sb : Superblock) (state : DocState) :
    Prop where
  slots : Slotted file index sb
  holds : Holds engine serde file sb state

theorem otherSlot_cases {index : Nat} (slot : index < 2) :
    (index = 0 ∧ otherSlot index = 1) ∨ (index = 1 ∧ otherSlot index = 0) := by
  have two : index = 0 ∨ index = 1 := by omega
  rcases two with rfl | rfl
  · exact .inl ⟨rfl, rfl⟩
  · exact .inr ⟨rfl, rfl⟩

def SlotBytes (bytes : List UInt8) : Prop := ∀ from_, sector ≤ from_ → from_ ≤ slotLen →
  bytes.drop from_ = List.replicate (slotLen - from_) 0

theorem slotBytes_encode (sb : Superblock) : SlotBytes (encodeSuperblock sb) := by
  intro from_ after inside
  exact encodeSuperblock_drop sb (by unfold sector at after; omega) inside

theorem slotBytes_blank : SlotBytes blankSlot := by
  intro from_ _ _
  exact drop_replicate

theorem slotOffset_end {slot : Nat} (two : slot < 2) : slotOffset slot + slotLen ≤ headerBytes := by
  unfold slotOffset slotLen headerBytes
  omega

theorem slice_otherSlot {file : Image} {index : Nat} (two : index < 2) (inside : headerBytes ≤ file.length)
    {data : List UInt8} (short : data.length ≤ slotLen) :
    slice (overwrite file (slotOffset (otherSlot index)) data) (slotOffset index) slotLen =
      slice file (slotOffset index) slotLen := by
  rcases otherSlot_cases two with ⟨rfl, other⟩ | ⟨rfl, other⟩
  · have before : Kept 0 slotLen file (overwrite file (slotOffset (otherSlot 0)) data) := by
      apply Kept.overwrite_before
      · unfold slotLen; unfold headerBytes at inside; omega
      · rw [other]; decide
    exact before.slice (Nat.zero_le _) (by decide)
  · have later : Kept slotLen (slotLen + slotLen) file (overwrite file (slotOffset (otherSlot 1)) data) := by
      apply Kept.overwrite_after
      · unfold slotLen; unfold headerBytes at inside; omega
      · rw [other]; unfold slotOffset; omega
    exact later.slice (by decide) (by decide)

namespace Slotted

variable {file final : Image} {index : Nat} {sb next : Superblock}

section

variable (slots : Slotted file index sb)

include slots

theorem otherSlot_lt : otherSlot index < 2 := by
  rcases otherSlot_cases slots.slot with ⟨-, other⟩ | ⟨-, other⟩
  · rw [other]; decide
  · rw [other]; decide

theorem readSlot_newest : readSlot file index = .valid sb := by
  have end_ := slotOffset_end slots.slot
  have header := slots.header
  rw [readSlot, if_neg (by omega), slots.newest, parseSuperblock_encode slots.fits]

theorem readSlot_older :
    readSlot file (otherSlot index) = .invalid ∨
      ∃ old : Superblock, old.epoch < sb.epoch ∧ readSlot file (otherSlot index) = .valid old := by
  have end_ := slotOffset_end slots.otherSlot_lt
  have header := slots.header
  rw [readSlot, if_neg (by omega)]
  rcases slots.older with blank | ⟨old, fits, older, encoded⟩
  · rw [blank, parseSuperblock_blank]
    exact .inl rfl
  · rw [encoded, parseSuperblock_encode fits]
    exact .inr ⟨old, older, rfl⟩

theorem currentSuperblock : currentSuperblock file = .ok (index, sb) := by
  have newest := slots.readSlot_newest
  rcases otherSlot_cases slots.slot with ⟨rfl, other⟩ | ⟨rfl, other⟩
  · rcases slots.readSlot_older with invalid | ⟨old, older, valid⟩
    · rw [other] at invalid
      rw [Store.currentSuperblock, newest, invalid]
      rfl
    · rw [other] at valid
      rw [Store.currentSuperblock, newest, valid]
      simp only [latestSuperblock, parsedSuperblock, betterSlot, ok_bind, older, ↓reduceIte]
  · rcases slots.readSlot_older with invalid | ⟨old, older, valid⟩
    · rw [other] at invalid
      rw [Store.currentSuperblock, newest, invalid]
      rfl
    rw [other] at valid
    have notOlder : ¬ sb.epoch < old.epoch := by omega
    have notSame : sb.epoch ≠ old.epoch := by omega
    rw [Store.currentSuperblock, newest, valid]
    simp only [latestSuperblock, parsedSuperblock, betterSlot, ok_bind, notOlder, notSame, ↓reduceIte]

theorem kept (kept : Kept 0 headerBytes file final) : Slotted final index sb := by
  refine ⟨slots.slot, slots.fits, kept.reaches, ?_, ?_⟩
  · rw [kept.slice (Nat.zero_le _) (slotOffset_end slots.slot)]
    exact slots.newest
  · rw [kept.slice (Nat.zero_le _) (slotOffset_end slots.otherSlot_lt)]
    exact slots.older

theorem slot_write (fits : next.Fits) (epoch : sb.epoch < next.epoch) {length : Nat}
    (least : sector ≤ length) (most : length ≤ slotLen) :
    Slotted (overwrite file (slotOffset (otherSlot index)) ((encodeSuperblock next).take length)) (otherSlot index) next := by
  have inside := slots.header
  have taken : ((encodeSuperblock next).take length).length = length := by
    rw [length_take, encodeSuperblock_length]
    omega
  have otherEnd := slotOffset_end slots.otherSlot_lt
  have back : otherSlot (otherSlot index) = index := by
    rcases otherSlot_cases slots.slot with ⟨rfl, -⟩ | ⟨rfl, -⟩ <;> rfl
  have same := slice_otherSlot slots.slot slots.header (Nat.le_trans (Nat.le_of_eq taken) most)
  -- What the tear leaves of the old slot is zero, as it is in the new one.
  have written : slice (overwrite file (slotOffset (otherSlot index)) ((encodeSuperblock next).take length))
      (slotOffset (otherSlot index)) slotLen = encodeSuperblock next := by
    have oldBytes : SlotBytes (slice file (slotOffset (otherSlot index)) slotLen) := by
      rcases slots.older with blank | ⟨old, -, -, encoded⟩
      · rw [blank]; exact slotBytes_blank
      · rw [encoded]; exact slotBytes_encode old
    have tail : Kept (slotOffset (otherSlot index) + length) headerBytes file
        (overwrite file (slotOffset (otherSlot index)) ((encodeSuperblock next).take length)) :=
      Kept.overwrite_after inside (by omega)
    have own := slice_overwrite file (slotOffset (otherSlot index)) ((encodeSuperblock next).take length)
    rw [taken] at own
    have whole : slotLen = length + (slotLen - length) := by omega
    have kept : slice file (slotOffset (otherSlot index) + length) (slotLen - length) =
        (slice file (slotOffset (otherSlot index)) slotLen).drop length := by
      unfold slice
      rw [drop_take, drop_drop]
    calc slice (overwrite file (slotOffset (otherSlot index)) ((encodeSuperblock next).take length))
          (slotOffset (otherSlot index)) slotLen
        = slice (overwrite file (slotOffset (otherSlot index)) ((encodeSuperblock next).take length))
            (slotOffset (otherSlot index)) (length + (slotLen - length)) := by rw [← whole]
      _ = (encodeSuperblock next).take length ++ (slice file (slotOffset (otherSlot index)) slotLen).drop length := by
          rw [slice_append, own, tail.slice (Nat.le_refl _) (by omega), kept]
      _ = (encodeSuperblock next).take length ++ (encodeSuperblock next).drop length := by
          rw [oldBytes length least most, slotBytes_encode next length least most]
      _ = encodeSuperblock next := take_append_drop _ _
  refine ⟨slots.otherSlot_lt, fits, ?_, written, .inr ⟨sb, slots.fits, epoch, ?_⟩⟩
  · rw [overwrite_length]
    omega
  · rw [back, same]
    exact slots.newest

/-- The slot write on its way to disk leaves the old slots or the new ones, and the rest of the
file alone. -/
theorem slot_survivor (fits : next.Fits) (epoch : sb.epoch < next.epoch)
    (survivor : Survivor sector file [⟨slotOffset (otherSlot index), encodeSuperblock next⟩] final) :
    final = file ∨ (Slotted final (otherSlot index) next ∧
      ∀ high, high ≤ file.length → Kept headerBytes high file final) := by
  have otherEnd := slotOffset_end slots.otherSlot_lt
  cases survivor with
  | dropped others => cases others; exact .inl rfl
  | kept others =>
    cases others
    have whole := slots.slot_write fits epoch (by decide : sector ≤ slotLen) (Nat.le_refl _)
    rw [take_of_length_le (Nat.le_of_eq (encodeSuperblock_length next))] at whole
    refine .inr ⟨whole, fun high inside => Kept.overwrite_after inside ?_⟩
    rw [encodeSuperblock_length]
    exact otherEnd
  | torn bound boundary inside others =>
    cases others
    have bounded := inside.2
    rw [encodeSuperblock_length] at bounded
    have least : sector ≤ bound - slotOffset (otherSlot index) := by
      -- The slot starts on a boundary, so a boundary inside it is at least one sector further.
      obtain ⟨k, rfl⟩ := boundary
      simp only [slotOffset, slotLen, sector] at inside ⊢
      omega
    refine .inr ⟨slots.slot_write fits epoch least (by omega), fun high inside => Kept.overwrite_after inside ?_⟩
    show slotOffset (otherSlot index) + ((encodeSuperblock next).take _).length ≤ headerBytes
    rw [length_take, encodeSuperblock_length]
    omega

end

end Slotted

namespace Stored

variable {engine : Engine} {serde : SerdeJson} {file final : Image} {index : Nat} {sb next : Superblock}
  {state after : DocState}

section

variable (stored : Stored engine serde file index sb state)

include stored

theorem reopen : reopen engine serde file = .ok state := by
  rw [Store.reopen, stored.slots.currentSuperblock, ok_bind]
  simp only
  rw [stored.holds.loadState]
  rfl

theorem kept (kept : Kept 0 (sb.walOffset + sb.walLength) file final) : Stored engine serde final index sb state := by
  have above := stored.holds.fits.wal.1
  exact ⟨stored.slots.kept (kept.mono (Nat.le_refl _) (by omega)),
    stored.holds.kept (kept.mono (Nat.zero_le _) (Nat.le_refl _))⟩

theorem slot_survivor (holds : Holds engine serde file next after)
    (epoch : next.epoch = sb.epoch + 1)
    (survivor : Survivor sector file [⟨slotOffset (otherSlot index), encodeSuperblock next⟩] final) :
    Stored engine serde final index sb state ∨ Stored engine serde final (otherSlot index) next after := by
  rcases stored.slots.slot_survivor holds.fits (by omega) survivor with same | ⟨slots, kept⟩
  · subst same
    exact .inl stored
  · exact .inr ⟨slots, holds.kept (kept _ holds.inside)⟩

theorem slot_written (holds : Holds engine serde file next after)
    (epoch : next.epoch = sb.epoch + 1) :
    Stored engine serde (overwrite file (slotOffset (otherSlot index)) (encodeSuperblock next)) (otherSlot index) next
      after := by
  have slots := stored.slots.slot_write holds.fits (by omega) (by decide : sector ≤ slotLen) (Nat.le_refl _)
  rw [take_of_length_le (Nat.le_of_eq (encodeSuperblock_length next))] at slots
  refine ⟨slots, holds.kept (Kept.overwrite_after holds.inside ?_)⟩
  rw [encodeSuperblock_length]
  exact slotOffset_end stored.slots.otherSlot_lt

end

end Stored

end FerroLoop.Store

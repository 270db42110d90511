import FerroLoop.Store.Readers

namespace FerroLoop.Store

open Bytes Checked Disk List

section Sequences

variable {engine : Engine} {serde : SerdeJson} {file : Image} {fileId : FileId} {sb : Superblock}

variable {frames : List Frame} {snapshotSeq : Nat}

theorem checkSequences_small {expect : Nat} {previous : Option Nat}
    (checked : checkSequences snapshotSeq previous expect frames = .ok ()) :
    ∀ frame ∈ frames, snapshotSeq < frame.1 → frame.1 < u64Max := by
  induction frames generalizing previous expect with
  | nil => exact fun frame member => nomatch member
  | cons first rest ih =>
    obtain ⟨seq, ops⟩ := first
    unfold checkSequences at checked
    split at checked
    · cases checked
    split at checked
    · cases checked
    split at checked
    · rename_i covered
      intro frame member above
      rcases mem_cons.mp member with rfl | later
      · exact absurd above (Nat.not_lt.mpr covered)
      · exact ih checked frame later above
    · split at checked
      · cases checked
      rename_i next sum
      obtain ⟨rfl, small⟩ := checkedAdd_some sum
      split at checked
      · cases checked
      rename_i same
      have here : seq = expect + 1 := Classical.not_not.mp same
      intro frame member above
      rcases mem_cons.mp member with rfl | later
      · rw [here]
        exact small
      · exact ih checked frame later above

variable {state next : DocState}

theorem applyFrames_small
    (small : state.lastSeq < u64Max) (applied : applyFrames engine state snapshotSeq frames = .ok next) :
    next.lastSeq < u64Max := by
  obtain ⟨_, checked, folded⟩ := bind_ok applied
  have each := checkSequences_small checked
  clear applied checked
  induction frames generalizing state with
  | nil =>
    cases folded
    exact small
  | cons frame rest ih =>
    obtain ⟨mid, first, others⟩ := bind_ok folded
    refine ih ?_ others fun frame member => each frame (mem_cons_of_mem _ member)
    unfold applyFrame at first
    split at first
    · cases first
      exact small
    rename_i above
    obtain ⟨changed, -, same⟩ := bind_ok first
    cases same
    exact each frame mem_cons_self (Nat.lt_of_not_le above)

theorem replayFrames_small (small : state.lastSeq < u64Max)
    (replayed : replayFrames engine state frames = .ok (some next)) : next.lastSeq < u64Max := by
  induction frames generalizing state with
  | nil =>
    cases replayed
    exact small
  | cons frame rest ih =>
    obtain ⟨seq, ops⟩ := frame
    unfold replayFrames at replayed
    split at replayed
    · cases replayed
    obtain ⟨⟨overlay, seq⟩, staged, others⟩ := bind_ok replayed
    refine ih ?_ others
    obtain ⟨following, next, rest⟩ := bind_ok staged
    obtain ⟨_, -, same⟩ := bind_ok rest
    cases same
    unfold nextSeq at next
    split at next
    · rename_i found sum
      cases next
      obtain ⟨rfl, fits⟩ := checkedAdd_some sum
      exact fits
    · cases next

variable {fresh : DiskCache}

theorem loadFull_small (fits : sb.Fits) (loaded : loadFull engine serde file fileId sb = .ok fresh) :
    fresh.fileId = fileId ∧ fresh.sb = sb ∧ fresh.state.lastSeq < u64Max := by
  obtain ⟨⟨state, applied⟩, inner, same⟩ := bind_ok loaded
  cases same
  refine ⟨rfl, rfl, ?_⟩
  obtain ⟨snapshot, first, rest⟩ := bind_ok inner
  obtain ⟨wal, -, rest⟩ := bind_ok rest
  obtain ⟨⟨frames, consumed⟩, -, rest⟩ := bind_ok rest
  obtain ⟨final, replayed, same⟩ := bind_ok rest
  cases same
  refine applyFrames_small ?_ replayed
  have seq : snapshot.lastSeq = sb.snapshotSeq := by
    unfold loadSnapshot at first
    split at first
    · cases first
      rfl
    obtain ⟨bytes, -, rest⟩ := bind_ok first
    obtain ⟨decoded, -, rest⟩ := bind_ok rest
    split at rest
    · cases rest
    · rename_i same
      cases rest
      exact Classical.not_not.mp same
  rw [seq]
  exact fits.seq

theorem advance_names {cached : Option DiskCache} (fits : sb.Fits)
    (small : ∀ held, cached = some held → held.state.lastSeq < u64Max)
    (advanced : advance engine serde file fileId cached sb = .ok fresh) :
    fresh.fileId = fileId ∧ fresh.sb = sb ∧ fresh.state.lastSeq < u64Max := by
  unfold advance at advanced
  split at advanced
  · exact loadFull_small fits advanced
  rename_i held
  split at advanced
  · rename_i same
    cases advanced
    exact ⟨same.1, same.2, small _ rfl⟩
  split at advanced
  · rename_i follows
    split at advanced
    · rename_i next replayed
      cases advanced
      unfold replayTail at replayed
      split at replayed
      · cases replayed
      obtain ⟨bytes, -, rest⟩ := bind_ok replayed
      obtain ⟨⟨frames, consumed⟩, -, rest⟩ := bind_ok rest
      obtain ⟨result, tail, rest⟩ := bind_ok rest
      split at rest
      · rename_i state
        cases rest
        exact ⟨follows.1, rfl, replayFrames_small (small _ rfl) tail⟩
      · cases rest
    · exact loadFull_small fits advanced
  · exact loadFull_small fits advanced

end Sequences

namespace Readers

/-! ### The file and what was published in it -/

section Filed

variable (engine : Engine) (serde : SerdeJson) (exact : Prop) (parity : Nat)

/-- The file between two steps. `exact` says that every document published so far comes back from
its text; what a load gives is only said under it. -/
structure Filed (file : Image) (index : Nat) (newest : Version) (older : List Version) : Prop where
  slots : Slotted file index newest.sb
  first : ∃ sb, readSlot file 0 = .valid sb
  named : ∀ slot sb, slot < 2 → readSlot file slot = .valid sb →
    (∃ version ∈ newest :: older, version.sb = sb) ∧ (sb.epoch + slot) % 2 = parity
  fits : ∀ version ∈ newest :: older, version.sb.Fits
  ordered : (newest :: older).Pairwise fun a b => b.sb.epoch < a.sb.epoch
  ends : ∀ version ∈ newest :: older, version.sb.walOffset + version.sb.walLength ≤ newest.sb.walOffset + newest.sb.walLength
  holds : exact → ∀ version ∈ newest :: older, Holds engine serde file version.sb version.state

end Filed

section Filed

variable {engine : Engine} {serde : SerdeJson} {exact : Prop} {parity : Nat} {file : Image} {index : Nat}
  {newest : Version} {older : List Version}

section

variable (filed : Filed engine serde exact parity file index newest older)

include filed

theorem Filed.same_version {a b : Version}
    (left : a ∈ newest :: older) (right : b ∈ newest :: older) (same : a.sb.epoch = b.sb.epoch) : a = b := by
  have one : (newest :: older).Pairwise fun a b => a.sb.epoch = b.sb.epoch → a = b :=
    filed.ordered.imp fun earlier equal => absurd equal (Nat.ne_of_gt earlier)
  have other : (newest :: older).Pairwise (flip fun a b => a.sb.epoch = b.sb.epoch → a = b) :=
    filed.ordered.imp fun earlier equal => absurd equal (Nat.ne_of_lt earlier)
  exact List.Pairwise.forall_of_forall_of_flip (fun _ _ _ => rfl) one other left right same

theorem Filed.kept {next : Image}
    (header : Kept 0 headerBytes file next)
    (kept : exact → Kept headerBytes (newest.sb.walOffset + newest.sb.walLength) file next) :
    Filed engine serde exact parity next index newest older := by
  have same : ∀ slot, slot < 2 → readSlot next slot = readSlot file slot := by
    intro slot two
    have end_ := slotOffset_end two
    have inside := header.inside
    have reaches := header.reaches
    rw [readSlot, readSlot, if_neg (by omega), if_neg (by omega), header.slice (Nat.zero_le _) end_]
  refine ⟨filed.slots.kept header, ?_, ?_, filed.fits, filed.ordered, filed.ends, ?_⟩
  · rw [same 0 (by decide)]
    exact filed.first
  · intro slot sb two valid
    rw [same slot two] at valid
    exact filed.named slot sb two valid
  · intro exactly version member
    exact (filed.holds exactly version member).kept ((kept exactly).mono (Nat.le_refl _) (filed.ends version member))

theorem Filed.extent {write : Write}
    (beyond : newest.sb.walOffset + newest.sb.walLength ≤ write.offset) :
    Filed engine serde exact parity (write.apply file) index newest older := by
  have above := (filed.fits newest mem_cons_self).wal.1
  refine filed.kept (Kept.overwrite_before _ filed.slots.header (by omega)) ?_
  intro exactly
  exact Kept.overwrite_before _ (filed.holds exactly newest mem_cons_self).inside beyond

theorem Filed.readSlot_other (next : Superblock) :
    readSlot (overwrite file (slotOffset (otherSlot index)) (encodeSuperblock next)) index = .valid newest.sb := by
  have end_ := slotOffset_end filed.slots.slot
  have inside := filed.slots.header
  have reaches : file.length ≤ (overwrite file (slotOffset (otherSlot index)) (encodeSuperblock next)).length := by
    rw [overwrite_length]
    omega
  rw [readSlot, if_neg (by omega), slice_otherSlot filed.slots.slot inside (Nat.le_of_eq (encodeSuperblock_length next)),
    filed.slots.newest, parseSuperblock_encode filed.slots.fits]

theorem Filed.publish (next : Version)
    {writes : List Write} (planned : Planned newest.sb next.sb writes)
    (holds : exact → Holds engine serde file next.sb next.state) :
    Filed engine serde exact parity (overwrite file (slotOffset (otherSlot index)) (encodeSuperblock next.sb))
      (otherSlot index) next (newest :: older) := by
  have epoch := planned.epoch
  have otherEnd := slotOffset_end filed.slots.otherSlot_lt
  have slots : Slotted (overwrite file (slotOffset (otherSlot index)) (encodeSuperblock next.sb)) (otherSlot index)
      next.sb := by
    have whole := filed.slots.slot_write planned.fits (by omega) (by decide : sector ≤ slotLen) (Nat.le_refl _)
    rw [take_of_length_le (Nat.le_of_eq (encodeSuperblock_length next.sb))] at whole
    exact whole
  have kept : ∀ high, high ≤ file.length →
      Kept headerBytes high file (overwrite file (slotOffset (otherSlot index)) (encodeSuperblock next.sb)) := by
    intro high reaches
    exact Kept.overwrite_after reaches (by rw [encodeSuperblock_length]; exact otherEnd)
  have newSlot := slots.readSlot_newest
  have oldSlot := filed.readSlot_other next.sb
  have whole := (filed.named index newest.sb filed.slots.slot filed.slots.readSlot_newest).2
  have flips : (next.sb.epoch + otherSlot index) % 2 = parity := by
    rcases otherSlot_cases filed.slots.slot with ⟨rfl, other⟩ | ⟨rfl, other⟩ <;> rw [other] <;> omega
  have two : ∀ slot, slot < 2 → slot = index ∨ slot = otherSlot index := by
    intro slot small
    rcases otherSlot_cases filed.slots.slot with ⟨rfl, other⟩ | ⟨rfl, other⟩ <;> rw [other] <;> omega
  refine ⟨slots, ?_, ?_, ?_, ?_, ?_, ?_⟩
  · rcases two 0 (by decide) with same | same
    · rw [same]
      exact ⟨_, oldSlot⟩
    · rw [same]
      exact ⟨_, newSlot⟩
  · intro slot sb small valid
    rcases two slot small with rfl | rfl
    · rw [oldSlot] at valid
      cases valid
      exact ⟨⟨newest, mem_cons_of_mem _ mem_cons_self, rfl⟩, whole⟩
    · rw [newSlot] at valid
      cases valid
      exact ⟨⟨next, mem_cons_self, rfl⟩, flips⟩
  · intro version member
    rcases mem_cons.mp member with rfl | before
    · exact planned.fits
    · exact filed.fits version before
  · refine pairwise_cons.mpr ⟨?_, filed.ordered⟩
    intro version member
    have upTo : version.sb.epoch ≤ newest.sb.epoch := by
      rcases mem_cons.mp member with rfl | before
      · exact Nat.le_refl _
      · exact Nat.le_of_lt ((pairwise_cons.mp filed.ordered).1 version before)
    omega
  · intro version member
    rcases mem_cons.mp member with rfl | before
    · exact Nat.le_refl _
    · exact Nat.le_trans (filed.ends version before) planned.further
  · intro exactly version member
    rcases mem_cons.mp member with rfl | before
    · exact (holds exactly).kept (kept _ (holds exactly).inside)
    · exact (filed.holds exactly version before).kept (kept _ (filed.holds exactly version before).inside)

end

end Filed

end Readers

end FerroLoop.Store

import FerroLoop.Store.Slots

namespace FerroLoop.Store

open Bytes Checked Disk List

variable {engine : Engine} {serde : SerdeJson} {file final : Image} {index : Nat} {sb next : Superblock}
  {state after : DocState}

theorem checkedAdd_some {a b sum : Nat} (added : checkedAdd a b = some sum) : a + b = sum ∧ a + b < u64Max := by
  unfold checkedAdd at added
  split at added
  · cases added
    exact ⟨rfl, ‹_›⟩
  · cases added

variable {offset : Nat} {writes : List Write} {chunk : List (List UInt8)} {ops : List IoOp}

theorem allocateExtent_ok (fits : sb.Fits) {fileLen length : Nat}
    (extent : allocateExtent fileLen sb length = .ok offset) :
    sb.walOffset + sb.walLength ≤ offset ∧ headerBytes ≤ offset ∧ offset + length < u64Max := by
  have live := fits.wal.2
  unfold allocateExtent at extent
  simp only [saturatingAdd] at extent
  split at extent
  · cases extent
  rename_i sum added
  obtain ⟨-, small⟩ := checkedAdd_some added
  cases extent
  refine ⟨?_, ?_, small⟩ <;> omega

section

variable (stored : Stored engine serde file index sb state)

include stored

section

variable (beyond : ∀ write ∈ writes, sb.walOffset + sb.walLength ≤ write.offset)

include beyond

theorem Stored.extents_survivor (survivor : Survivor sector file writes final) :
    Stored engine serde final index sb state :=
  stored.kept (survivor.keeps_before stored.holds.inside beyond)

theorem Stored.extents_written : Stored engine serde (writes.foldl Write.apply file) index sb state :=
  stored.extents_survivor beyond (Survivor.all _ _)

theorem Stored.extents_cut
    (cut : Cut sector ⟨file, []⟩ (synced writes) final) : Stored engine serde final index sb state := by
  obtain ⟨count, survivor⟩ := cut.of_synced
  exact stored.extents_survivor (fun write member => beyond write (mem_of_mem_take member)) survivor

end

end

structure Switched (engine : Engine) (serde : SerdeJson) (file : Image) (index : Nat) (sb next : Superblock)
    (state after : DocState) (ops : List IoOp) : Prop where
  done : ∃ final, Inode.exec ⟨file, []⟩ ops = ⟨final, []⟩ ∧ Stored engine serde final (otherSlot index) next after ∧
    Kept headerBytes (sb.walOffset + sb.walLength) file final
  cut : ∀ final, Cut sector ⟨file, []⟩ ops final →
    Stored engine serde final index sb state ∨ Stored engine serde final (otherSlot index) next after
  advances : sb.walOffset + sb.walLength ≤ next.walOffset + next.walLength ∧ next.epoch = sb.epoch + 1

theorem Stored.switch (stored : Stored engine serde file index sb state)
    (beyond : ∀ write ∈ writes, sb.walOffset + sb.walLength ≤ write.offset)
    (holds : Holds engine serde (writes.foldl Write.apply file) next after) (epoch : next.epoch = sb.epoch + 1)
    (further : sb.walOffset + sb.walLength ≤ next.walOffset + next.walLength) :
    Switched engine serde file index sb next state after (synced writes ++ slotOps (otherSlot index) next) := by
  have written := stored.extents_written beyond
  have slot := written.slot_written holds epoch
  refine ⟨⟨_, ?_, slot, ?_⟩, ?_, further, epoch⟩
  · rw [Inode.exec_append, exec_synced, slotOps, exec_synced]
    rfl
  · have first : Kept headerBytes (sb.walOffset + sb.walLength) file (writes.foldl Write.apply file) :=
      (Survivor.all _ _ : Survivor sector _ _ _).keeps_before stored.holds.inside beyond
    have otherEnd := slotOffset_end stored.slots.otherSlot_lt
    exact first.trans (Kept.overwrite_after first.reaches (by rw [encodeSuperblock_length]; exact otherEnd))
  intro final cut
  rcases cut.append with extents | slotCut
  · exact .inl (stored.extents_cut beyond extents)
  rw [exec_synced] at slotCut
  obtain ⟨count, survivor⟩ := slotCut.of_synced
  cases count with
  | zero =>
    cases survivor
    exact .inl written
  | succ count =>
    rw [take_of_length_le (by rw [length_singleton]; omega)] at survivor
    exact written.slot_survivor holds epoch survivor

theorem placeFrames_ok {walLength total : Nat} {frames : List (List UInt8)}
    (placed : placeFrames offset walLength frames = .ok (writes, total)) (start : offset < u64Max) :
    writes = consecutive offset frames ∧ total = walLength + frames.flatten.length ∧
      offset + frames.flatten.length < u64Max := by
  induction frames generalizing offset walLength writes total with
  | nil =>
    cases placed
    exact ⟨rfl, rfl, start⟩
  | cons frame rest ih =>
    unfold placeFrames at placed
    split at placed
    · cases placed
    rename_i nextOffset sum
    split at placed
    · cases placed
    rename_i longer longerSum
    obtain ⟨⟨others, count⟩, othersOk, same⟩ := bind_ok placed
    obtain ⟨rfl, fits⟩ := checkedAdd_some sum
    obtain ⟨rfl, -⟩ := checkedAdd_some longerSum
    obtain ⟨rfl, rfl, small⟩ := ih othersOk fits
    cases same
    rw [flatten_cons, length_append]
    exact ⟨rfl, by omega, by omega⟩

structure Follows (engine : Engine) (serde : SerdeJson) (state : DocState) (chunk : List (List UInt8)) (after : DocState) :
    Prop where
  frames : ∃ frames, Encoded serde frames chunk.flatten ∧ Extends engine state frames after ∧ FramesSurvive serde frames

/-- New extents and the superblock that is to name them: they lie behind the live ones, and the
next epoch is its own. -/
structure Planned (sb next : Superblock) (writes : List Write) : Prop where
  beyond : ∀ write ∈ writes, sb.walOffset + sb.walLength ≤ write.offset
  fits : next.Fits
  epoch : next.epoch = sb.epoch + 1
  further : sb.walOffset + sb.walLength ≤ next.walOffset + next.walLength

theorem publishFrames_some
    (published : publishFrames index sb chunk = .ok (some (ops, next))) :
    ops = synced (consecutive (sb.walOffset + sb.walLength) chunk) ++ slotOps (otherSlot index) next ∧
      next = { sb with epoch := sb.epoch + 1, walLength := sb.walLength + chunk.flatten.length } ∧
      sb.epoch + 1 < u64Max ∧ sb.walOffset + sb.walLength + chunk.flatten.length < u64Max := by
  unfold publishFrames at published
  split at published
  · cases published
  split at published
  · cases published
  rename_i start sum
  obtain ⟨rfl, fits⟩ := checkedAdd_some sum
  obtain ⟨⟨writes, walLength⟩, placed, rest⟩ := bind_ok published
  simp only at rest
  split at rest
  · cases rest
  rename_i epoch epochSum
  obtain ⟨rfl, epochFits⟩ := checkedAdd_some epochSum
  cases rest
  obtain ⟨rfl, rfl, small⟩ := placeFrames_ok placed fits
  exact ⟨rfl, rfl, epochFits, small⟩

theorem publishFrames_planned (fits : sb.Fits)
    (published : publishFrames index sb chunk = .ok (some (ops, next))) :
    Planned sb next (consecutive (sb.walOffset + sb.walLength) chunk) := by
  obtain ⟨-, rfl, epochFits, small⟩ := publishFrames_some published
  refine ⟨fun write member => consecutive_offset member, ?_, rfl, by simp only; omega⟩
  exact ⟨⟨Nat.succ_pos _, epochFits⟩, fits.snapshot, ⟨fits.wal.1, by simp only; omega⟩, fits.seq⟩

def frameRoom : Nat := 2 ^ 33

variable {frame : List UInt8}

theorem encodeFrame_room {seq : Nat} {ops : List Op} (wrote : encodeFrame serde seq ops = .ok frame) :
    frame.length ≤ frameRoom := by
  obtain ⟨payload, -, short, rfl⟩ := encodeFrame_ok wrote
  rw [length_append, length_append, toLe_length, crcBytes_length]
  unfold frameRoom
  unfold u32Max at short
  omega

theorem publishFrames_one {index : Nat} {sb : Superblock} {used : Nat}
    (small : sb.walOffset + sb.walLength ≤ used ∧ sb.epoch ≤ used) (short : frame.length ≤ frameRoom)
    (room : used + frameRoom < u64Max) :
    publishFrames index sb [frame] = .ok (some ([.write ⟨sb.walOffset + sb.walLength, frame⟩, .sync,
      .write ⟨slotOffset (otherSlot index), encodeSuperblock { sb with epoch := sb.epoch + 1, walLength := sb.walLength + frame.length }⟩,
      .sync], { sb with epoch := sb.epoch + 1, walLength := sb.walLength + frame.length })) := by
  have start : checkedAdd sb.walOffset sb.walLength = some (sb.walOffset + sb.walLength) := if_pos (by omega)
  have next : checkedAdd (sb.walOffset + sb.walLength) frame.length = some (sb.walOffset + sb.walLength + frame.length) :=
    if_pos (by omega)
  have longer : checkedAdd sb.walLength frame.length = some (sb.walLength + frame.length) := if_pos (by omega)
  have epoch : checkedAdd sb.epoch 1 = some (sb.epoch + 1) := if_pos (by unfold frameRoom at room; omega)
  simp only [publishFrames, isEmpty_cons, Bool.false_eq_true, ↓reduceIte, start, placeFrames, next, longer, ok_bind,
    epoch, synced, slotOps, map_cons, map_nil, cons_append, nil_append]

theorem Holds.publish (keeps : engine.KeepsMetadata) (holds : Holds engine serde file sb state)
    (follows : Follows engine serde state chunk after)
    (published : publishFrames index sb chunk = .ok (some (ops, next))) :
    Holds engine serde ((consecutive (sb.walOffset + sb.walLength) chunk).foldl Write.apply file) next after := by
  have inside := holds.inside
  have planned := publishFrames_planned holds.fits published
  obtain ⟨-, rfl, -, -⟩ := publishFrames_some published
  obtain ⟨frames, encoded, reaches, survive⟩ := follows.frames
  obtain ⟨snapshot, front, contents, before⟩ := holds.contents
  have kept : Kept 0 (sb.walOffset + sb.walLength) file
      ((consecutive (sb.walOffset + sb.walLength) chunk).foldl Write.apply file) :=
    (Survivor.all _ _ : Survivor sector _ _ _).keeps_before inside planned.beyond
  have snapshotInside : sb.snapshotOffset + sb.snapshotLength ≤ sb.walOffset + sb.walLength := by
    have := holds.adjacent
    omega
  refine ⟨planned.fits, holds.adjacent, holds.filled, ?_, ⟨snapshot, front ++ frames, ?_, before.append reaches⟩,
    reaches.durable keeps holds.durable survive⟩
  · have longer := foldl_consecutive_reaches file (sb.walOffset + sb.walLength) chunk inside
    simp only
    omega
  refine ⟨?_, contents.seq, ?_, ?_⟩
  · simp only
    rw [kept.slice (Nat.zero_le _) snapshotInside]
    exact contents.decodes
  · simp only
    rw [slice_append, slice_consecutive, kept.slice (Nat.zero_le _) (Nat.le_refl _)]
    exact contents.encoded.append encoded
  · intro frame member
    rcases mem_append.mp member with old | new
    · exact contents.survive frame old
    · exact survive frame new

theorem Stored.publish (keeps : engine.KeepsMetadata) (stored : Stored engine serde file index sb state)
    (follows : Follows engine serde state chunk after)
    (published : publishFrames index sb chunk = .ok (some (ops, next))) :
    Switched engine serde file index sb next state after ops := by
  have planned := publishFrames_planned stored.holds.fits published
  have holds := stored.holds.publish keeps follows published
  obtain ⟨rfl, -⟩ := publishFrames_some published
  exact stored.switch planned.beyond holds planned.epoch planned.further

structure Checkpointed (serde : SerdeJson) (engine : Engine) (index : Nat) (sb next : Superblock) (state : DocState)
    (offset : Nat) (blob : List UInt8) (ops : List IoOp) : Prop where
  encoded : encodeStateSnapshot serde engine state = .ok blob
  ops : ops = synced [⟨offset, blob⟩] ++ slotOps (otherSlot index) next
  next : next = ⟨sb.epoch + 1, offset, blob.length, offset + blob.length, 0, state.lastSeq⟩
  beyond : sb.walOffset + sb.walLength ≤ offset
  header : headerBytes ≤ offset
  small : sb.epoch + 1 < u64Max ∧ offset + blob.length < u64Max

variable {result : Except StoreError Superblock}

theorem writeCheckpoint_cases (fits : sb.Fits)
    (ran : writeCheckpoint engine serde file index sb state = (ops, result)) :
    match result with
    | .ok next => ∃ offset blob, Checkpointed serde engine index sb next state offset blob ops
    | .error _ => ∃ writes, (ops = synced writes ∨ ops = []) ∧
        ∀ write ∈ writes, sb.walOffset + sb.walLength ≤ write.offset := by
  unfold writeCheckpoint at ran
  simp only at ran
  split at ran
  · cases ran
    exact ⟨[], .inr rfl, fun write member => nomatch member⟩
  rename_i blob offset placed
  obtain ⟨encodedBlob, encoded, rest⟩ := bind_ok placed
  obtain ⟨allocated, extent, same⟩ := bind_ok rest
  cases same
  obtain ⟨beyondLive, beyondHeader, small⟩ := allocateExtent_ok fits extent
  have beyond : ∀ write ∈ [Write.mk offset blob], sb.walOffset + sb.walLength ≤ write.offset := by
    intro write member
    rw [mem_singleton.mp member]
    exact beyondLive
  split at ran
  · cases ran
    exact ⟨_, .inl rfl, beyond⟩
  rename_i epoch epochSum
  obtain ⟨rfl, epochFits⟩ := checkedAdd_some epochSum
  split at ran
  · cases ran
    exact ⟨_, .inl rfl, beyond⟩
  rename_i walOffset sum
  obtain ⟨rfl, -⟩ := checkedAdd_some sum
  cases ran
  exact ⟨offset, blob, encoded, rfl, rfl, beyondLive, beyondHeader, epochFits, small⟩

variable {blob : List UInt8}

theorem Checkpointed.planned
    (done : Checkpointed serde engine index sb next state offset blob ops) (seq : state.lastSeq < u64Max) :
    Planned sb next [⟨offset, blob⟩] := by
  obtain ⟨-, -, rfl, beyond, header, epochFits, small⟩ := done
  refine ⟨?_, ⟨⟨Nat.succ_pos _, epochFits⟩, ⟨header, small⟩, ⟨by simp only; omega, small⟩, seq⟩, rfl, by simp only; omega⟩
  intro write member
  rw [mem_singleton.mp member]
  exact beyond

theorem Holds.checkpoint (holds : Holds engine serde file sb state)
    (done : Checkpointed serde engine index sb next state offset blob ops) :
    Holds engine serde (overwrite file offset blob) next state := by
  have planned := done.planned holds.durable.seq
  obtain ⟨encoded, -, rfl, -, -, -⟩ := done
  obtain ⟨decodes, filled⟩ := decodeSnapshot_encodeStateSnapshot holds.durable encoded
  refine ⟨planned.fits, rfl, length_pos_iff.mpr filled, ?_, ⟨state, [], ?_, .nil state⟩, holds.durable⟩
  · simp only
    rw [overwrite_length]
    omega
  · refine ⟨?_, rfl, .nil, fun frame member => nomatch member⟩
    simp only
    rw [slice_overwrite]
    exact decodes

theorem Stored.checkpoint (stored : Stored engine serde file index sb state)
    (ran : writeCheckpoint engine serde file index sb state = (ops, result)) :
    match result with
    | .ok next => Switched engine serde file index sb next state state ops
    | .error _ => ∃ writes, (ops = synced writes ∨ ops = []) ∧
        ∀ write ∈ writes, sb.walOffset + sb.walLength ≤ write.offset := by
  have cases_ := writeCheckpoint_cases stored.holds.fits ran
  rcases result with err | next
  · exact cases_
  obtain ⟨offset, blob, done⟩ := cases_
  have planned := done.planned stored.holds.durable.seq
  have holds := stored.holds.checkpoint done
  have switched := stored.switch planned.beyond holds planned.epoch planned.further
  rw [← done.ops] at switched
  exact switched

end FerroLoop.Store

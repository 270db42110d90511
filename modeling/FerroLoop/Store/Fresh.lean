import FerroLoop.Store.Crash

namespace FerroLoop.Store

open Bytes Checked Disk List

def freshSuperblock (epoch length seq : Nat) : Superblock := ⟨epoch, headerBytes, length, headerBytes + length, 0, seq⟩

theorem blankSlot_length : blankSlot.length = slotLen := length_replicate

theorem slice_fresh (sb : Superblock) (blob : List UInt8) :
    slice (encodeSuperblock sb ++ blankSlot ++ blob) 0 slotLen = encodeSuperblock sb ∧
      slice (encodeSuperblock sb ++ blankSlot ++ blob) slotLen slotLen = blankSlot ∧
      slice (encodeSuperblock sb ++ blankSlot ++ blob) headerBytes blob.length = blob := by
  have first := encodeSuperblock_length sb
  have second := blankSlot_length
  refine ⟨?_, ?_, ?_⟩
  · unfold slice
    rw [drop_zero, append_assoc, take_left' first]
  · unfold slice
    rw [append_assoc, drop_left' first, take_left' second]
  have both : (encodeSuperblock sb ++ blankSlot).length = headerBytes := by
    rw [length_append, first, second]
    rfl
  unfold slice
  rw [drop_left' both, take_length]

variable {file : Image} {state : DocState}

theorem freshFile_stored {engine : Engine} {serde : SerdeJson} {epoch : Nat}
    (durable : state.Durable engine serde) (epochFits : 0 < epoch ∧ epoch < u64Max)
    (fresh : freshFile engine serde epoch state = .ok file) (small : file.length < u64Max) :
    Stored engine serde file 0 (freshSuperblock epoch (file.length - headerBytes) state.lastSeq) state := by
  obtain ⟨blob, encoded, same⟩ := bind_ok fresh
  cases same
  obtain ⟨decodes, filled⟩ := decodeSnapshot_encodeStateSnapshot durable encoded
  have total : ∀ sb : Superblock, (encodeSuperblock sb ++ blankSlot ++ blob).length = headerBytes + blob.length := by
    intro sb
    rw [length_append, length_append, encodeSuperblock_length, blankSlot_length]
    rfl
  rw [total] at small ⊢
  rw [Nat.add_sub_cancel_left]
  obtain ⟨first, second, snapshot⟩ := slice_fresh (freshSuperblock epoch blob.length state.lastSeq) blob
  have fits : (freshSuperblock epoch blob.length state.lastSeq).Fits :=
    ⟨epochFits, ⟨Nat.le_refl _, small⟩, ⟨Nat.le_add_right _ _, small⟩, durable.seq⟩
  have whole := total (freshSuperblock epoch blob.length state.lastSeq)
  refine ⟨⟨by decide, fits, ?_, ?_, .inl ?_⟩, fits, rfl, length_pos_iff.mpr filled, ?_, ⟨state, [], ?_, .nil state⟩, durable⟩
  · show headerBytes ≤ (encodeSuperblock (freshSuperblock epoch blob.length state.lastSeq) ++ blankSlot ++ blob).length
    rw [whole]
    exact Nat.le_add_right _ _
  · exact first
  · exact second
  · show headerBytes + blob.length + 0 ≤ (encodeSuperblock (freshSuperblock epoch blob.length state.lastSeq) ++ blankSlot ++ blob).length
    rw [whole]
    exact Nat.le_refl _
  · refine ⟨?_, rfl, .nil, fun frame member => nomatch member⟩
    show decodeSnapshot engine serde (slice (encodeSuperblock (freshSuperblock epoch blob.length state.lastSeq) ++ blankSlot ++ blob)
      headerBytes blob.length) = _
    rw [snapshot]
    exact decodes

theorem freshFile_second {engine : Engine} {serde : SerdeJson} {epoch : Nat}
    (fresh : freshFile engine serde epoch state = .ok file) : readSlot file 1 = .invalid := by
  obtain ⟨blob, -, same⟩ := bind_ok fresh
  cases same
  unfold readSlot
  split
  · rfl
  · rw [show slotOffset 1 = slotLen from rfl, (slice_fresh _ blob).2.1, parseSuperblock_blank]

/-! ### The new store on which the theorems are tried -/

namespace Sample

theorem engine_keeps : engine.KeepsMetadata where
  upsert held next id bytes metadata upserted other record there := by
    cases upserted
    exact .inr ⟨record, there, rfl⟩
  deleteId held next id deleted other record there := by
    cases deleted
    exact ⟨record, there, rfl⟩

def emptyState : DocState := ⟨newStoreDocs, ∅, ∅, 0⟩

theorem emptyState_durable : emptyState.Durable engine serde := by
  refine ⟨?_, ?_, ?_, by decide⟩
  · intro collection id doc held
    rw [emptyState, newStoreDocs, Docs.get_insert] at held
    split at held
    · cases held
      refine serde_documented.reads_back ⟨.number (.posInt 8), trivial⟩ ⟨by decide, fun bits member => ?_⟩
      cases member
    · cases held
  · intro name table held
    cases held
  · intro name collection held
    cases held

theorem emptyState_encodes : ∃ blob, encodeStateSnapshot serde engine emptyState = .ok blob ∧ blob.length < 1000 :=
  ⟨_, rfl, by decide⟩

theorem initEmpty_stored : ∃ file length, initEmpty engine serde = .ok file ∧
    Stored engine serde file 0 (freshSuperblock 1 length 0) emptyState ∧ headerBytes + length ≤ 10000 := by
  obtain ⟨blob, encoded, short⟩ := emptyState_encodes
  have fresh : initEmpty engine serde = .ok (encodeSuperblock (freshSuperblock 1 blob.length 0) ++ blankSlot ++ blob) := by
    have opened : freshFile engine serde 1 emptyState =
        .ok (encodeSuperblock (freshSuperblock 1 blob.length 0) ++ blankSlot ++ blob) := by
      rw [freshFile, encoded]
      rfl
    exact opened
  have total : (encodeSuperblock (freshSuperblock 1 blob.length 0) ++ blankSlot ++ blob).length = headerBytes + blob.length := by
    rw [length_append, length_append, encodeSuperblock_length, blankSlot_length]
    rfl
  have bound : headerBytes + 1000 ≤ 10000 ∧ 10000 < u64Max := by decide
  refine ⟨_, _, fresh, freshFile_stored emptyState_durable (by decide) fresh ?_, ?_⟩
  · omega
  · omega

end Sample

end FerroLoop.Store

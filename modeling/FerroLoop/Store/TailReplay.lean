import FerroLoop.Store.TornTail

namespace FerroLoop.Store

open Bytes Checked Disk List Sample

variable {engine : Engine} {serde : SerdeJson} {snapshotSeq : Nat} {previous : Option Nat}

theorem checkSequences_cons_ok {expect seq : Nat} {ops : List Op} {rest : List Frame}
    (checked : checkSequences snapshotSeq previous expect ((seq, ops) :: rest) = .ok ()) :
    (seq ≤ snapshotSeq ∧ ∀ more, checkSequences snapshotSeq previous expect ((seq, ops) :: more) =
        checkSequences snapshotSeq (some seq) expect more) ∨
      (snapshotSeq < seq ∧ seq = expect + 1 ∧ ∀ more, checkSequences snapshotSeq previous expect ((seq, ops) :: more) =
        checkSequences snapshotSeq (some seq) seq more) := by
  rw [checkSequences] at checked
  split at checked
  · cases checked
  rename_i positive
  split at checked
  · cases checked
  rename_i increasing
  by_cases held : seq ≤ snapshotSeq
  · refine .inl ⟨held, fun more => ?_⟩
    rw [checkSequences, if_neg positive, if_neg increasing, if_pos held]
  rw [if_neg held] at checked
  rcases sum : checkedAdd expect 1 with _ | next
  · rw [sum] at checked
    cases checked
  rw [sum] at checked
  dsimp only at checked
  split at checked
  · cases checked
  rename_i expected
  have equal : seq = next := Classical.byContradiction expected
  subst equal
  refine .inr ⟨Nat.lt_of_not_le held, (checkedAdd_some sum).1.symm, fun more => ?_⟩
  rw [checkSequences, if_neg positive, if_neg increasing, if_neg held, sum]
  exact if_neg expected

variable {last : DocState} {file : Image} {sb : Superblock} {cached : DiskCache} {frames : List Frame} {first : DocState}

theorem checkSequences_behind
    (reached : snapshotSeq ≤ first.lastSeq) (older : ∀ prev ∈ previous, prev ≤ first.lastSeq)
    (checked : checkSequences snapshotSeq previous first.lastSeq frames = .ok ())
    (applied : frames.foldlM (applyFrame engine snapshotSeq) first = .ok last) :
    snapshotSeq ≤ last.lastSeq ∧ ∃ latest : Option Nat, (∀ prev ∈ latest, prev ≤ last.lastSeq) ∧
      ∀ more, checkSequences snapshotSeq previous first.lastSeq (frames ++ more) =
        checkSequences snapshotSeq latest last.lastSeq more := by
  induction frames generalizing previous first with
  | nil =>
    cases applied
    exact ⟨reached, previous, older, fun _ => rfl⟩
  | cons frame rest ih =>
    obtain ⟨seq, ops⟩ := frame
    obtain ⟨mid, stepped, others⟩ := bind_ok applied
    rw [applyFrame] at stepped
    have latestIs : ∀ bound, seq ≤ bound → ∀ prev ∈ some seq, prev ≤ bound := by
      intro bound below prev same
      cases same
      exact below
    rcases checkSequences_cons_ok checked with ⟨held, goesOn⟩ | ⟨new, expected, goesOn⟩
    · rw [if_pos held] at stepped
      cases stepped
      rw [goesOn] at checked
      obtain ⟨behind, latest, below, more⟩ := ih reached (latestIs _ (by omega)) checked others
      exact ⟨behind, latest, below, fun later => (goesOn _).trans (more later)⟩
    · rw [if_neg (by omega)] at stepped
      obtain ⟨next, -, same⟩ := bind_ok stepped
      cases same
      rw [goesOn] at checked
      obtain ⟨behind, latest, below, more⟩ := @ih (some seq) { next with lastSeq := seq } (Nat.le_of_lt new)
        (latestIs _ (Nat.le_refl _)) checked others
      exact ⟨behind, latest, below, fun later => (goesOn _).trans (more later)⟩

theorem extends_of_replayFrames
    (replayed : replayFrames engine first frames = .ok (some last)) : Extends engine first frames last := by
  induction frames generalizing first with
  | nil =>
    cases replayed
    exact .nil _
  | cons frame rest ih =>
    obtain ⟨seq, ops⟩ := frame
    rw [replayFrames] at replayed
    split at replayed
    · cases replayed
    obtain ⟨⟨overlay, next⟩, staged, others⟩ := bind_ok replayed
    rename_i follows
    have sum : checkedAdd first.lastSeq 1 = some seq := Classical.byContradiction follows
    obtain ⟨equal, -⟩ := checkedAdd_some sum
    obtain ⟨equalNext, -, -⟩ := stageOps_ok staged
    have same : next = seq := by omega
    subst same
    exact (publishOverlay_extends staged).append (ih others)

variable {snapshot : DocState}

theorem applyFrames_append {front back : List Frame} {mid : DocState}
    (applied : applyFrames engine snapshot snapshot.lastSeq front = .ok mid) (follows : Extends engine mid back last) :
    applyFrames engine snapshot snapshot.lastSeq (front ++ back) = .ok last := by
  obtain ⟨_, checked, folded⟩ := bind_ok applied
  have nothing : ∀ prev ∈ (none : Option Nat), prev ≤ snapshot.lastSeq := by
    intro prev none
    cases none
  obtain ⟨behind, latest, below, goesOn⟩ := checkSequences_behind (Nat.le_refl _) nothing checked folded
  rw [applyFrames, goesOn, follows.checkSequences behind below, ok_bind, foldlM_append, folded]
  exact follows.foldlM_applyFrame behind

variable {offset length : Nat}

theorem readRange_ok {bytes : List UInt8}
    (read : readRange file offset length = .ok bytes) :
    bytes = slice file offset length ∧ bytes.length = length ∧
      (0 < length → offset + length < u64Max ∧ offset + length ≤ file.length) := by
  unfold readRange at read
  split at read
  · rename_i none
    cases read
    subst none
    exact ⟨rfl, rfl, fun some_ => absurd some_ (Nat.lt_irrefl 0)⟩
  split at read
  · cases read
  rename_i bound sum
  obtain ⟨rfl, small⟩ := checkedAdd_some sum
  split at read
  · cases read
  · cases read
    exact ⟨rfl, slice_length (by omega), fun _ => ⟨small, by omega⟩⟩

theorem readRange_slice (small : offset + length < u64Max)
    (inside : offset + length ≤ file.length) : readRange file offset length = .ok (slice file offset length) := by
  unfold readRange
  split
  · rename_i none
    subst none
    rfl
  have sum : checkedAdd offset length = some (offset + length) := if_pos small
  rw [sum]
  dsimp only
  rw [if_neg (by omega)]

theorem loadSnapshot_seq
    (loads : loadSnapshot engine serde file sb = .ok snapshot) : snapshot.lastSeq = sb.snapshotSeq := by
  unfold loadSnapshot at loads
  split at loads
  · cases loads
    rfl
  obtain ⟨bytes, -, rest⟩ := bind_ok loads
  obtain ⟨decoded, -, last⟩ := bind_ok rest
  split at last
  · cases last
  · rename_i same
    cases last
    exact Classical.byContradiction same

theorem loadSnapshot_congr {older : Image} {held : Superblock} (offset : sb.snapshotOffset = held.snapshotOffset)
    (length : sb.snapshotLength = held.snapshotLength) (seq : sb.snapshotSeq = held.snapshotSeq)
    (kept : readRange file held.snapshotOffset held.snapshotLength =
      readRange older held.snapshotOffset held.snapshotLength) :
    loadSnapshot engine serde file sb = loadSnapshot engine serde older held := by
  rw [loadSnapshot, loadSnapshot, offset, length, seq, kept]

theorem loadFull_ok {fileId : FileId}
    (loaded : loadFull engine serde file fileId sb = .ok cached) :
    cached.fileId = fileId ∧ cached.sb = sb ∧ loadState engine serde file sb = .ok (cached.state, cached.walApplied) := by
  obtain ⟨⟨state, applied⟩, stateOk, same⟩ := bind_ok loaded
  cases same
  exact ⟨rfl, rfl, stateOk⟩

theorem replayTail_ok {next : DiskCache}
    (replayed : replayTail engine serde file cached sb = .ok (some next)) :
    sb.walOffset + cached.walApplied < u64Max ∧ ∃ bytes frames consumed state,
      readRange file (sb.walOffset + cached.walApplied) (sb.walLength - cached.walApplied) = .ok bytes ∧
      decodeWalPrefix serde bytes = .ok (frames, consumed) ∧ Extends engine cached.state frames state ∧
      next = ⟨cached.fileId, sb, state, cached.walApplied + consumed⟩ := by
  unfold replayTail at replayed
  split at replayed
  · cases replayed
  rename_i start sum
  obtain ⟨rfl, small⟩ := checkedAdd_some sum
  obtain ⟨bytes, readOk, afterRead⟩ := bind_ok replayed
  obtain ⟨⟨frames, consumed⟩, decoded, afterDecode⟩ := bind_ok afterRead
  obtain ⟨result, framesOk, last⟩ := bind_ok afterDecode
  cases result with
  | none => cases last
  | some state =>
    cases last
    exact ⟨small, bytes, frames, consumed, state, readOk, decoded, extends_of_replayFrames framesOk, rfl⟩

theorem tailFollows_iff (follows : tailFollows cached sb = true) :
    cached.walApplied = cached.sb.walLength ∧ sb.snapshotOffset = cached.sb.snapshotOffset ∧
      sb.snapshotLength = cached.sb.snapshotLength ∧ sb.snapshotSeq = cached.sb.snapshotSeq ∧
      sb.walOffset = cached.sb.walOffset ∧ cached.sb.walLength < sb.walLength := by
  simp only [tailFollows, Bool.and_eq_true, beq_iff_eq, decide_eq_true_eq] at follows
  obtain ⟨⟨⟨⟨⟨⟨applied, -⟩, offset⟩, length⟩, seq⟩, wal⟩, longer⟩ := follows
  exact ⟨applied, offset, length, seq, wal, longer⟩

/-- A cache that a full load of an earlier superblock made, with the extents of that superblock as they
were: if replaying the tail of a later one gives a state, the full load of it gives the same cache. -/
theorem replayTail_eq_loadFull {older file : Image} {fileId : FileId} {held sb : Superblock} {cached next : DiskCache}
    (loaded : loadFull engine serde older fileId held = .ok cached)
    (snapshotKept : readRange file held.snapshotOffset held.snapshotLength =
      readRange older held.snapshotOffset held.snapshotLength)
    (walKept : readRange file held.walOffset held.walLength = readRange older held.walOffset held.walLength)
    (follows : tailFollows cached sb = true) (replayed : replayTail engine serde file cached sb = .ok (some next)) :
    loadFull engine serde file fileId sb = .ok next := by
  obtain ⟨rfl, rfl, stateOk⟩ := loadFull_ok loaded
  obtain ⟨whole, offset, length, seq, walOffset, longer⟩ := tailFollows_iff follows
  obtain ⟨snapshot, snapshotOk, afterSnapshot⟩ := bind_ok stateOk
  obtain ⟨wal, walOk, afterWal⟩ := bind_ok afterSnapshot
  obtain ⟨⟨front, applied⟩, frontOk, afterFront⟩ := bind_ok afterWal
  obtain ⟨state, appliedOk, same⟩ := bind_ok afterFront
  obtain ⟨rfl, coversAll⟩ := Prod.mk.inj (Except.ok.inj same)
  obtain ⟨-, bytes, frames, consumed, last, readOk, decoded, extends_, nextEq⟩ := replayTail_ok replayed
  -- the whole WAL is the bytes the cache holds and the tail
  obtain ⟨-, -, room⟩ := readRange_ok readOk
  obtain ⟨walEq, walLength, -⟩ := readRange_ok (walKept.trans walOk)
  obtain ⟨small, inside⟩ := room (by omega)
  have both : slice file sb.walOffset sb.walLength = wal ++ bytes := by
    have split : sb.walLength = cached.sb.walLength + (sb.walLength - cached.walApplied) := by omega
    obtain ⟨bytesEq, -, -⟩ := readRange_ok readOk
    rw [split, slice_append, walEq, bytesEq, walOffset, whole]
  have walRead : readRange file sb.walOffset sb.walLength = .ok (wal ++ bytes) := by
    rw [readRange_slice (by omega) (by omega), both]
  have nothingLeft : wal.drop applied = [] := drop_of_length_le (by omega)
  have allDecoded : decodeWalPrefix serde (wal ++ bytes) = .ok (front ++ frames, applied + consumed) := by
    rw [decodeWalPrefix_longer frontOk bytes, nothingLeft, nil_append, decoded]
    rfl
  have snapshotSeq := loadSnapshot_seq snapshotOk
  rw [← snapshotSeq] at appliedOk
  have allApplied := applyFrames_append appliedOk extends_
  rw [snapshotSeq, ← seq] at allApplied
  have loads : loadState engine serde file sb = .ok (last, applied + consumed) := by
    rw [loadState, loadSnapshot_congr offset length seq snapshotKept, snapshotOk, ok_bind, walRead, ok_bind, allDecoded,
      ok_bind]
    dsimp only
    rw [allApplied]
    rfl
  rw [loadFull, loads, nextEq, coversAll]
  rfl

namespace Torn

/-- A store with nothing published, and with one frame. -/
def emptyBlock : Superblock := ⟨1, headerBytes, 0, headerBytes, 0, 0⟩

def framedBlock : Superblock := ⟨2, headerBytes, 0, headerBytes, 35, 0⟩

def emptyFile : Image := List.replicate headerBytes 0

noncomputable def framedFile : Image := emptyFile ++ frame

def emptyCache : DiskCache := ⟨(0, 0), emptyBlock, DocState.atSeq 0, 0⟩

theorem loadFull_emptyFile : loadFull engine serde emptyFile (0, 0) emptyBlock = .ok emptyCache := by
  have snapshot : loadSnapshot engine serde emptyFile emptyBlock = .ok (DocState.atSeq 0) := rfl
  have wal : readRange emptyFile emptyBlock.walOffset emptyBlock.walLength = .ok [] := rfl
  rw [loadFull, loadState, snapshot, ok_bind, wal, ok_bind, decodeWalPrefix_nil, ok_bind]
  rfl

theorem slice_framedFile : slice framedFile headerBytes 35 = frame := by
  have front : emptyFile.length = headerBytes := length_replicate
  rw [slice, framedFile, drop_left' front, ← frame_length, take_length]

theorem replayTail_framedFile :
    ∃ next, replayTail engine serde framedFile emptyCache framedBlock = .ok (some next) := by
  have start : checkedAdd framedBlock.walOffset emptyCache.walApplied = some headerBytes := by decide
  have size : framedFile.length = headerBytes + 35 := by
    rw [framedFile, length_append, emptyFile, length_replicate, frame_length]
  have read : readRange framedFile headerBytes (framedBlock.walLength - emptyCache.walApplied) = .ok frame := by
    have length : framedBlock.walLength - emptyCache.walApplied = 35 := rfl
    rw [length, readRange_slice (by decide) (Nat.le_of_eq size.symm), slice_framedFile]
  have noValues : ∀ op ∈ ops, ∀ value ∈ op.values, serde.Survives value := by
    intro op member value held
    cases mem_singleton.mp member
    cases held
  have decoded := decodeWalPrefix_frame (show 1 < u64Max by decide) noValues frame_encodes []
  rw [append_nil, decodeWalPrefix_nil, ok_bind] at decoded
  rw [replayTail, start]
  dsimp only
  rw [read, ok_bind, decoded, ok_bind]
  exact ⟨_, rfl⟩

end Torn

/-- The first frame of a store, read as a tail and in full. -/
theorem replayTail_eq_loadFull_sample : ∃ next,
    replayTail Sample.engine Sample.serde Torn.framedFile Torn.emptyCache Torn.framedBlock = .ok (some next) ∧
      loadFull Sample.engine Sample.serde Torn.framedFile (0, 0) Torn.framedBlock = .ok next := by
  obtain ⟨next, replayed⟩ := Torn.replayTail_framedFile
  have nothing : ∀ file : Image, readRange file headerBytes 0 = .ok [] := fun _ => if_pos rfl
  have kept : readRange Torn.framedFile headerBytes 0 = readRange Torn.emptyFile headerBytes 0 := by
    rw [nothing, nothing]
  exact ⟨next, replayed, replayTail_eq_loadFull Torn.loadFull_emptyFile kept kept (by decide) replayed⟩

end FerroLoop.Store

import FerroLoop.Store.Fresh

namespace FerroLoop.Store

open Bytes Checked Disk List Sample DocState Inode

inductive WalHead where
  | torn
  | damaged
  | whole (payload rest : List UInt8)
  deriving DecidableEq

def walHead (buf : List UInt8) : WalHead :=
  if buf.length < 8 then .torn
  else
    let len := fromLe (buf.take 4)
    let rest := buf.drop 8
    if rest.length < len then .torn
    else if (crc32 (rest.take len)).toNat ≠ fromLe ((buf.drop 4).take 4) then
      if rest.drop len = [] ∨ frameFits (rest.drop len) = false then .torn else .damaged
    else .whole (rest.take len) (rest.drop len)

section Decode

variable {serde : SerdeJson}

theorem decodeWalPrefix_head (buf : List UInt8) :
    decodeWalPrefix serde buf =
      (match walHead buf with
      | .torn => .ok ([], 0)
      | .damaged => .error (corrupt "wal frame crc does not match and another frame follows")
      | .whole payload rest => do
        let frame ← decodePayload serde payload
        let (frames, consumed) ← decodeWalPrefix serde rest
        .ok (frame :: frames, 8 + payload.length + consumed)) := by
  rw [decodeWalPrefix]
  unfold walHead
  dsimp only
  split
  · rfl
  split
  · rfl
  rename_i long
  split
  · split <;> rfl
  · dsimp only
    rw [length_take, Nat.min_eq_left (by omega)]

theorem walHead_whole {buf payload rest : List UInt8} (head : walHead buf = .whole payload rest) (more : List UInt8) :
    walHead (buf ++ more) = .whole payload (rest ++ more) ∧ buf.drop (8 + payload.length) = rest ∧ 8 + payload.length ≤ buf.length := by
  unfold walHead at head
  by_cases short : buf.length < 8
  · rw [if_pos short] at head
    cases head
  rw [if_neg short] at head
  by_cases beyond : (buf.drop 8).length < fromLe (buf.take 4)
  · rw [if_pos beyond] at head
    cases head
  rw [if_neg beyond] at head
  split at head
  · split at head <;> cases head
  rename_i same
  cases head
  have length : (buf.drop 8).length = buf.length - 8 := length_drop
  have payloadLength : ((buf.drop 8).take (fromLe (buf.take 4))).length = fromLe (buf.take 4) := by
    rw [length_take]
    omega
  have lenField : (buf ++ more).take 4 = buf.take 4 := take_append_of_le_length (by omega)
  have crcField : ((buf ++ more).drop 4).take 4 = (buf.drop 4).take 4 := by
    rw [drop_append_of_le_length (by omega), take_append_of_le_length (by rw [length_drop]; omega)]
  have body : (buf ++ more).drop 8 = buf.drop 8 ++ more := drop_append_of_le_length (by omega)
  refine ⟨?_, ?_, by rw [payloadLength]; omega⟩
  · unfold walHead
    rw [if_neg (by rw [length_append]; omega), lenField, crcField, body]
    rw [if_neg (by rw [length_append]; omega), take_append_of_le_length (by omega), if_neg same,
      drop_append_of_le_length (by omega)]
  · rw [payloadLength, drop_drop]

theorem decodeWalPrefix_longer {wal : List UInt8} {frames : List Frame} {consumed : Nat}
    (decoded : decodeWalPrefix serde wal = .ok (frames, consumed)) (more : List UInt8) :
    decodeWalPrefix serde (wal ++ more) = (do
      let (later, count) ← decodeWalPrefix serde (wal.drop consumed ++ more)
      .ok (frames ++ later, consumed + count)) := by
  induction length : wal.length using Nat.strongRecOn generalizing wal frames consumed with
  | ind size ih =>
    subst length
    have first := @decodeWalPrefix_head serde wal
    cases head : walHead wal with
    | torn =>
      rw [head, decoded] at first
      cases first
      rw [drop_zero]
      cases decodeWalPrefix serde (wal ++ more) with
      | error err => rfl
      | ok found => exact congrArg Except.ok (Prod.ext rfl (Nat.zero_add found.2).symm)
    | damaged =>
      rw [head, decoded] at first
      cases first
    | whole payload rest =>
      obtain ⟨longer, back, within⟩ := walHead_whole head more
      rw [head, decoded] at first
      obtain ⟨frame, payloadOk, after⟩ := bind_ok first.symm
      obtain ⟨⟨others, count⟩, othersOk, same⟩ := bind_ok after
      cases same
      have smaller : rest.length < wal.length := by
        rw [← back, length_drop]
        omega
      rw [decodeWalPrefix_head (wal ++ more), longer]
      dsimp only
      rw [payloadOk, ok_bind, ih rest.length smaller othersOk rfl]
      have tail : wal.drop (8 + payload.length + count) = rest.drop count := by
        rw [← back, drop_drop]
      rw [tail]
      rcases decodeWalPrefix serde (rest.drop count ++ more) with err | found
      · rfl
      refine congrArg Except.ok (Prod.ext rfl ?_)
      show 8 + payload.length + (count + found.2) = 8 + payload.length + count + found.2
      omega

end Decode

section Publish

variable {engine : Engine} {serde : SerdeJson} {file : Image} {index : Nat} {sb next : Superblock}

theorem betterSlot_valid {best : Option (Nat × Superblock)} {slot : Nat} {read : SlotRead} {found : Nat × Superblock}
    (chosen : betterSlot best slot read = .ok (some found)) : best = some found ∨ (found.1 = slot ∧ read = .valid found.2) := by
  unfold betterSlot at chosen
  split at chosen
  · split at chosen
    · split at chosen
      · exact .inl (Except.ok.inj chosen)
      split at chosen
      · cases chosen
      · cases chosen
        exact .inr ⟨rfl, rfl⟩
    · cases chosen
      exact .inr ⟨rfl, rfl⟩
  · exact .inl (Except.ok.inj chosen)
  · cases chosen

theorem currentSuperblock_valid (current : currentSuperblock file = .ok (index, sb)) :
    index < 2 ∧ readSlot file index = .valid sb := by
  unfold currentSuperblock latestSuperblock at current
  obtain ⟨best, parsed, rest⟩ := bind_ok current
  rcases best with _ | found
  · cases rest
  cases rest
  obtain ⟨first, firstOk, secondOk⟩ := bind_ok parsed
  rcases betterSlot_valid secondOk with earlier | ⟨slot, valid⟩
  · rw [earlier] at firstOk
    rcases betterSlot_valid firstOk with never | ⟨slot, valid⟩
    · cases never
    · cases slot
      exact ⟨by decide, valid⟩
  · cases slot
    exact ⟨by decide, valid⟩

theorem readSlot_fits (valid : readSlot file index = .valid sb) : sb.Fits := by
  unfold readSlot at valid
  split at valid
  · cases valid
  · exact parseSuperblock_fits valid

theorem currentSuperblock_newer (two : index < 2) (old : readSlot file index = .valid sb)
    (new : readSlot file (otherSlot index) = .valid next) (epoch : sb.epoch < next.epoch) :
    currentSuperblock file = .ok (otherSlot index, next) := by
  have notOlder : ¬next.epoch < sb.epoch := by omega
  have notSame : next.epoch ≠ sb.epoch := by omega
  rcases otherSlot_cases two with ⟨rfl, other⟩ | ⟨rfl, other⟩
  · rw [other] at new ⊢
    rw [currentSuperblock, old, new]
    simp only [latestSuperblock, parsedSuperblock, betterSlot, ok_bind, notOlder, notSame, ↓reduceIte]
  · rw [other] at new ⊢
    rw [currentSuperblock, old, new]
    simp only [latestSuperblock, parsedSuperblock, betterSlot, ok_bind, epoch, ↓reduceIte]

/-- What an acknowledged publish leaves: the new superblock is the one an open reads, everything
from the header to the end of the old WAL is as it was, and the frames follow it. -/
structure Appended (file final : Image) (sb next : Superblock) (chunk : List (List UInt8)) : Prop where
  kept : Kept headerBytes (sb.walOffset + sb.walLength) file final
  frames : slice final (sb.walOffset + sb.walLength) chunk.flatten.length = chunk.flatten
  reaches : sb.walOffset + sb.walLength + chunk.flatten.length ≤ final.length
  next : next = { sb with epoch := sb.epoch + 1, walLength := sb.walLength + chunk.flatten.length }
  small : sb.walOffset + sb.walLength + chunk.flatten.length < u64Max

theorem publishFrames_appends (current : currentSuperblock file = .ok (index, sb))
    (inside : sb.walOffset + sb.walLength ≤ file.length) {chunk : List (List UInt8)} {ops : List IoOp}
    (publishes : publishFrames index sb chunk = .ok (some (ops, next))) :
    Appended file (exec ⟨file, []⟩ ops).durable sb next chunk ∧
      currentSuperblock (exec ⟨file, []⟩ ops).durable = .ok (otherSlot index, next) := by
  obtain ⟨two, valid⟩ := currentSuperblock_valid current
  have fits := readSlot_fits valid
  have planned := publishFrames_planned fits publishes
  obtain ⟨rfl, same, -, small⟩ := publishFrames_some publishes
  have above := fits.wal.1
  have other : otherSlot index < 2 := by
    rcases otherSlot_cases two with ⟨-, named⟩ | ⟨-, named⟩ <;> rw [named] <;> decide
  have otherEnd := slotOffset_end other
  have ownEnd := slotOffset_end two
  -- The frames first.
  generalize written : (consecutive (sb.walOffset + sb.walLength) chunk).foldl Write.apply file = mid
  have before : Kept 0 (sb.walOffset + sb.walLength) file mid := by
    rw [← written]
    exact (Survivor.all _ _ : Survivor sector _ _ _).keeps_before inside planned.beyond
  have longer : sb.walOffset + sb.walLength + chunk.flatten.length ≤ mid.length := by
    rw [← written]
    exact foldl_consecutive_reaches file _ chunk inside
  have placed : slice mid (sb.walOffset + sb.walLength) chunk.flatten.length = chunk.flatten := by
    rw [← written]
    exact slice_consecutive file _ chunk
  -- Then the slot, which lies in the header.
  have final : (exec ⟨file, []⟩ (synced (consecutive (sb.walOffset + sb.walLength) chunk) ++
      slotOps (otherSlot index) next)).durable = overwrite mid (slotOffset (otherSlot index)) (encodeSuperblock next) := by
    rw [exec_append, exec_synced, slotOps, exec_synced, written]
    rfl
  rw [final]
  have header : headerBytes ≤ mid.length := by omega
  have rest : ∀ high, high ≤ mid.length →
      Kept headerBytes high mid (overwrite mid (slotOffset (otherSlot index)) (encodeSuperblock next)) :=
    fun high reaches => Kept.overwrite_after reaches (by rw [encodeSuperblock_length]; exact otherEnd)
  have grown := (rest _ longer).reaches
  refine ⟨⟨?_, ?_, grown, same, small⟩, ?_⟩
  · exact (before.mono (Nat.zero_le _) (Nat.le_refl _)).trans (rest _ before.reaches)
  · rw [(rest _ longer).slice (by omega) (Nat.le_refl _)]
    exact placed
  refine @currentSuperblock_newer _ index sb next two ?_ ?_ (by rw [planned.epoch]; omega)
  · unfold readSlot at valid ⊢
    rw [if_neg (by omega)] at valid ⊢
    rw [slice_otherSlot two header (Nat.le_of_eq (encodeSuperblock_length next)),
      before.slice (Nat.zero_le _) (by omega)]
    exact valid
  · have own := slice_overwrite mid (slotOffset (otherSlot index)) (encodeSuperblock next)
    rw [encodeSuperblock_length] at own
    rw [readSlot, if_neg (by omega), own, parseSuperblock_encode planned.fits]

theorem loadState_ok {state : DocState} {applied : Nat} (loads : loadState engine serde file sb = .ok (state, applied))
    (filled : 0 < sb.walLength) : ∃ snapshot frames, loadSnapshot engine serde file sb = .ok snapshot ∧
      sb.walOffset + sb.walLength ≤ file.length ∧
      decodeWalPrefix serde (slice file sb.walOffset sb.walLength) = .ok (frames, applied) ∧
      applyFrames engine snapshot sb.snapshotSeq frames = .ok state := by
  obtain ⟨snapshot, snapshotOk, afterSnapshot⟩ := bind_ok loads
  obtain ⟨wal, walOk, afterWal⟩ := bind_ok afterSnapshot
  obtain ⟨⟨frames, consumed⟩, decoded, afterFrames⟩ := bind_ok afterWal
  obtain ⟨last, appliedOk, same⟩ := bind_ok afterFrames
  cases same
  unfold readRange at walOk
  rw [if_neg (by omega)] at walOk
  split at walOk
  · cases walOk
  rename_i bound sum
  obtain ⟨rfl, -⟩ := checkedAdd_some sum
  split at walOk
  · cases walOk
  · cases walOk
    exact ⟨snapshot, frames, snapshotOk, by omega, decoded, appliedOk⟩

variable {final : Image} {chunk : List (List UInt8)} {state : DocState} {applied : Nat}

/-- The bytes the next load reads behind the frames it knows. -/
def readOn (file : Image) (sb : Superblock) (applied : Nat) (chunk : List (List UInt8)) : List UInt8 :=
  (slice file sb.walOffset sb.walLength).drop applied ++ chunk.flatten

theorem Appended.readRange_wal (appended : Appended file final sb next chunk) (above : headerBytes ≤ sb.walOffset)
    (filled : 0 < sb.walLength + chunk.flatten.length) :
    readRange final next.walOffset next.walLength = .ok (slice file sb.walOffset sb.walLength ++ chunk.flatten) := by
  have small := appended.small
  have reaches := appended.reaches
  rw [appended.next]
  unfold readRange
  dsimp only
  rw [if_neg (by omega)]
  have sum : checkedAdd sb.walOffset (sb.walLength + chunk.flatten.length) =
      some (sb.walOffset + (sb.walLength + chunk.flatten.length)) := if_pos (by omega)
  rw [sum]
  dsimp only
  rw [if_neg (by omega), slice_append, appended.frames, appended.kept.slice above (Nat.le_refl _)]

theorem Appended.loadSnapshot (appended : Appended file final sb next chunk) (above : headerBytes ≤ sb.snapshotOffset)
    (before : sb.snapshotOffset + sb.snapshotLength ≤ sb.walOffset + sb.walLength) {snapshot : DocState}
    (loads : loadSnapshot engine serde file sb = .ok snapshot) : Store.loadSnapshot engine serde final next = .ok snapshot := by
  have inside := appended.kept.inside
  have reaches := appended.kept.reaches
  have same : readRange final sb.snapshotOffset sb.snapshotLength = readRange file sb.snapshotOffset sb.snapshotLength := by
    unfold readRange
    split
    · rfl
    split
    · rfl
    · rename_i bound sum
      obtain ⟨rfl, -⟩ := checkedAdd_some sum
      rw [if_neg (by omega), if_neg (by omega), appended.kept.slice above before]
  rw [appended.next]
  unfold Store.loadSnapshot at loads ⊢
  rw [same]
  exact loads

end Publish

def Reported (serde : SerdeJson) (bytes : List UInt8) : Prop :=
  walHead bytes = .damaged ∨
    ∃ payload rest err, walHead bytes = .whole payload rest ∧ decodePayload serde payload = .error err

theorem decodeWalPrefix_reported {serde : SerdeJson} {bytes : List UInt8} (reported : Reported serde bytes) :
    ∃ err, decodeWalPrefix serde bytes = .error err := by
  rw [decodeWalPrefix_head]
  rcases reported with damaged | ⟨payload, rest, err, whole, bad⟩
  · rw [damaged]
    exact ⟨_, rfl⟩
  rw [whole]
  dsimp only
  rw [bad]
  exact ⟨err, rfl⟩

def KeepsCommit (engine : Engine) (serde : SerdeJson) (file : Image) (after : DocState) : Prop :=
  (∃ err, reopen engine serde file = .error err) ∨ reopen engine serde file = .ok after

namespace Torn

/-- Eight bytes of a WAL: a length no file has, and a checksum. -/
def endless : List UInt8 := [255, 255, 255, 255, 0, 0, 0, 0]

/-- Eight bytes of a WAL: no payload, and a checksum that does not match. -/
def mismatched : List UInt8 := [0, 0, 0, 0, 1, 0, 0, 0]

def block : Superblock := ⟨1, headerBytes, 0, headerBytes, 8, 0⟩

def file (tail : List UInt8) : Image := encodeSuperblock block ++ blankSlot ++ tail

def ops : List Op := [.delete "notes" "a"]

noncomputable def frame : List UInt8 := (encodeFrame serde 1 ops).toOption.getD []

theorem frame_encodes : encodeFrame serde 1 ops = .ok frame := ok_of_toOption (by decide +kernel)

theorem frame_length : frame.length = 35 := by decide +kernel

theorem block_fits : block.Fits := ⟨by decide, by decide, by decide, by decide⟩

variable {tail : List UInt8} (eight : tail.length = 8)

include eight

theorem file_length : (file tail).length = headerBytes + 8 := by
  rw [file, length_append, length_append, encodeSuperblock_length, blankSlot_length, eight]
  rfl

theorem currentSuperblock_file : currentSuperblock (file tail) = .ok (0, block) := by
  obtain ⟨first, second, -⟩ := slice_fresh block tail
  have slots : Slotted (file tail) 0 block :=
    ⟨by decide, block_fits, by rw [file_length eight]; exact Nat.le_add_right _ _, first, .inl second⟩
  exact slots.currentSuperblock

theorem wal_file : slice (file tail) block.walOffset block.walLength = tail := by
  have wal := (slice_fresh block tail).2.2
  rw [eight] at wal
  exact wal

theorem loadState_file (torn : walHead tail = .torn) :
    loadState engine serde (file tail) block = .ok (atSeq 0, 0) := by
  have read : readRange (file tail) block.walOffset block.walLength = .ok tail := by
    have sum : checkedAdd block.walOffset block.walLength = some (headerBytes + 8) := by decide
    unfold readRange
    rw [if_neg (by decide), sum]
    dsimp only
    rw [if_neg (by rw [file_length eight]; omega), wal_file eight]
  have nothing : decodeWalPrefix serde tail = .ok ([], 0) := by rw [decodeWalPrefix_head, torn]
  have snapshot : loadSnapshot engine serde (file tail) block = .ok (atSeq 0) := rfl
  rw [loadState, snapshot, ok_bind, read, ok_bind, nothing, ok_bind]
  rfl

theorem readOn_file : readOn (file tail) block 0 [frame] = tail ++ frame := by
  rw [readOn, wal_file eight, drop_zero, flatten_cons, flatten_nil, append_nil]

omit eight

theorem publishes : ∃ io next, publishFrames 0 block [frame] = .ok (some (io, next)) := by
  have start : checkedAdd block.walOffset block.walLength = some (headerBytes + 8) := by decide
  have placed : checkedAdd (headerBytes + 8) frame.length = some (headerBytes + 43) := by
    rw [frame_length]
    decide
  have longer : checkedAdd block.walLength frame.length = some 43 := by
    decide
  have epoch : checkedAdd block.epoch 1 = some 2 := by decide
  simp only [publishFrames, isEmpty_cons, Bool.false_eq_true, ↓reduceIte, start, placeFrames, placed, longer, ok_bind,
    epoch]
  exact ⟨_, _, rfl⟩

end Torn

section Commit

variable {engine : Engine} {serde : SerdeJson} {file : Image} {index : Nat} {sb next : Superblock} {state after : DocState}
  {applied : Nat} {chunk : List (List UInt8)} {io : List IoOp}

section

variable (current : currentSuperblock file = .ok (index, sb))

include current

section

variable (loads : loadState engine serde file sb = .ok (state, applied)) (torn : applied < sb.walLength) (publishes : publishFrames index sb chunk = .ok (some (io, next)))

include loads torn publishes

theorem torn_commit_reported (reported : Reported serde (readOn file sb applied chunk)) :
    ∃ err, reopen engine serde (exec ⟨file, []⟩ io).durable = .error err := by
  have fits := readSlot_fits (currentSuperblock_valid current).2
  have filled : 0 < sb.walLength := by omega
  obtain ⟨snapshot, frames, -, inside, decoded, -⟩ := loadState_ok loads filled
  obtain ⟨appended, newest⟩ := publishFrames_appends current inside publishes
  have replayed := decodeWalPrefix_longer decoded chunk.flatten
  obtain ⟨err, fails⟩ := decodeWalPrefix_reported reported
  rw [← readOn, fails] at replayed
  rw [reopen, newest, ok_bind]
  dsimp only
  unfold loadState
  cases loadSnapshot engine serde (exec ⟨file, []⟩ io).durable next with
  | error early => exact ⟨early, rfl⟩
  | ok found =>
    rw [ok_bind, appended.readRange_wal fits.wal.1 (by omega), ok_bind, replayed]
    exact ⟨err, rfl⟩

theorem torn_commit_swallowed (advances : state.lastSeq < after.lastSeq)
    (swallowed : walHead (readOn file sb applied chunk) = .torn)
    (before : sb.snapshotOffset + sb.snapshotLength ≤ sb.walOffset + sb.walLength) :
    ¬KeepsCommit engine serde (exec ⟨file, []⟩ io).durable after := by
  have fits := readSlot_fits (currentSuperblock_valid current).2
  have filled : 0 < sb.walLength := by omega
  obtain ⟨snapshot, frames, snapshotOk, inside, decoded, appliedOk⟩ := loadState_ok loads filled
  obtain ⟨appended, newest⟩ := publishFrames_appends current inside publishes
  have replayed := decodeWalPrefix_longer decoded chunk.flatten
  have nothing : decodeWalPrefix serde (readOn file sb applied chunk) = .ok ([], 0) := by
    rw [decodeWalPrefix_head, swallowed]
  rw [← readOn, nothing, ok_bind] at replayed
  have same : next.snapshotSeq = sb.snapshotSeq := by rw [appended.next]
  have lost : reopen engine serde (exec ⟨file, []⟩ io).durable = .ok state := by
    rw [reopen, newest, ok_bind]
    dsimp only
    rw [loadState, appended.loadSnapshot fits.snapshot.1 before snapshotOk, ok_bind,
      appended.readRange_wal fits.wal.1 (by omega), ok_bind, replayed, ok_bind, append_nil, same]
    dsimp only
    rw [appliedOk]
    rfl
  rintro (⟨err, fails⟩ | found)
  · rw [lost] at fails
    cases fails
  · rw [lost] at found
    cases found
    exact Nat.lt_irrefl _ advances

end

/-- A commit onto a torn tail is kept or reported where the bytes of the tail, read on into its
frames, are found damaged or not to decode. Where they are found torn again, the commit is lost. -/
theorem torn_commit_kept (loads : loadState engine serde file sb = .ok (state, applied)) (torn : applied < sb.walLength)
    (publishes : publishFrames index sb chunk = .ok (some (io, next))) (advances : state.lastSeq < after.lastSeq) :
    (Reported serde (readOn file sb applied chunk) →
        KeepsCommit engine serde (exec ⟨file, []⟩ io).durable after) ∧
      (walHead (readOn file sb applied chunk) = .torn →
        sb.snapshotOffset + sb.snapshotLength ≤ sb.walOffset + sb.walLength →
        ¬KeepsCommit engine serde (exec ⟨file, []⟩ io).durable after) :=
  ⟨fun reported => .inl (torn_commit_reported current loads torn publishes reported),
    fun swallowed before => torn_commit_swallowed current loads torn publishes advances swallowed before⟩

end

end Commit

/-- A tail whose checksum does not match: the commit onto it is reported. -/
theorem torn_commit_sample : ∃ io next,
    publishFrames 0 Torn.block [Torn.frame] = .ok (some (io, next)) ∧
      KeepsCommit engine serde (exec ⟨Torn.file Torn.mismatched, []⟩ io).durable (atSeq 1) := by
  have eight : Torn.mismatched.length = 8 := rfl
  obtain ⟨io, next, published⟩ := Torn.publishes
  have advances : (atSeq 0).lastSeq < (atSeq 1).lastSeq := Nat.zero_lt_one
  refine ⟨io, next, published, ?_⟩
  refine (torn_commit_kept (Torn.currentSuperblock_file eight) (Torn.loadState_file eight (by decide +kernel))
    (by decide) published advances).1 (.inl ?_)
  rw [Torn.readOn_file eight]
  decide +kernel

/-- An acknowledged commit that the next load leaves out without an error. -/
theorem torn_commit_lost : ∃ overlay io next,
    currentSuperblock (Torn.file Torn.endless) = .ok (0, Torn.block) ∧
      loadState engine serde (Torn.file Torn.endless) Torn.block = .ok (atSeq 0, 0) ∧
      0 < Torn.block.walLength ∧ stageOps engine (atSeq 0) Torn.ops = .ok (overlay, 1) ∧
      encodeFrame serde 1 Torn.ops = .ok Torn.frame ∧
      publishFrames 0 Torn.block [Torn.frame] = .ok (some (io, next)) ∧
      ¬KeepsCommit engine serde (exec ⟨Torn.file Torn.endless, []⟩ io).durable
        (publishOverlay (atSeq 0) overlay 1) := by
  have eight : Torn.endless.length = 8 := rfl
  have current := Torn.currentSuperblock_file eight
  have loads := Torn.loadState_file eight (by decide +kernel)
  have staged : ∃ overlay, stageOps engine (atSeq 0) Torn.ops = .ok (overlay, 1) := ⟨_, rfl⟩
  obtain ⟨overlay, staged⟩ := staged
  obtain ⟨io, next, published⟩ := Torn.publishes
  refine ⟨overlay, io, next, current, loads, by decide, staged, Torn.frame_encodes, published, ?_⟩
  refine torn_commit_swallowed current loads (by decide) published Nat.zero_lt_one ?_ (by decide)
  rw [Torn.readOn_file eight]
  decide +kernel

end FerroLoop.Store

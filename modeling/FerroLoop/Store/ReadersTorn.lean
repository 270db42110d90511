import FerroLoop.Store.ReadersForward

namespace FerroLoop.Store.Readers

open Bytes Checked Disk List Sample World

variable {fileId : FileId}

/-- Whatever the publishes around it, a read that ended returned a state exactly when its two slot
reads were not both torn. -/
theorem read_succeeds_iff {engine : Engine} {serde : SerdeJson} {parity : Nat} {world : World}
    (keeps : engine.KeepsMetadata) (start : Start engine serde fileId True parity world) (events : List Event)
    (fine : ∀ event ∈ events, event.Sound engine serde True) {id : Nat} {reader : Reader}
    {result : Except StoreError DiskCache} (there : (run engine serde fileId world events).readers id = some reader)
    (ended : reader.phase = .done result) :
    (∃ entry, result = .ok entry) ↔ ¬ (reader.torn.1 = true ∧ reader.torn.2 = true) := by
  have phase := ((run_inv keeps start.inv fine).readers id reader there).phase
  rw [ended] at phase
  cases result with
  | ok entry =>
    refine ⟨fun _ both => phase.2.1 (Prod.ext both.1 both.2), fun _ => ⟨entry, rfl⟩⟩
  | error err =>
    have torn := phase trivial
    refine ⟨fun ok => ?_, fun whole => ?_⟩
    · obtain ⟨entry, never⟩ := ok
      cases never
    · rw [torn] at whole
      exact absurd ⟨rfl, rfl⟩ whole

structure Committing (world : World) (handle index : Nat) (base : DiskCache) (used : Nat) : Prop where
  writer : world.writer = some ⟨handle, .ready index base⟩
  sane : world.poisoned handle = false
  small : base.sb.walOffset + base.sb.walLength ≤ used ∧ base.sb.epoch ≤ used ∧ base.state.lastSeq ≤ used

structure Switching (world : World) (handle index : Nat) (base : DiskCache) (target : Target) (used : Nat) : Prop where
  writer : ∃ data, world.writer = some ⟨handle, .writing index base
    [.write ⟨slotOffset (otherSlot index), data⟩, .sync] true (some target)⟩
  sane : world.poisoned handle = false
  commit : target.checkpoint = false
  small : target.sb.walOffset + target.sb.walLength ≤ used ∧ target.sb.epoch ≤ used ∧ target.state.lastSeq ≤ used

variable {handle used index : Nat} {target : Target} {base : DiskCache} {world : World}

theorem Switching.overwrites
    (switching : Switching world handle index base target used) : world.overwrites (otherSlot index) = true := by
  obtain ⟨data, writer⟩ := switching.writer
  simp [World.overwrites, writer]

theorem Switching.landed
    (switching : Switching world handle index base target used) :
    (step engine serde fileId world .write).writer = some ⟨handle, .writing index base [.sync] false (some target)⟩ ∧
      (step engine serde fileId world .write).readers = world.readers ∧
      (step engine serde fileId world .write).poisoned = world.poisoned ∧
      (step engine serde fileId world .write).acked = world.acked ∧
      (step engine serde fileId world .write).doubtful = world.doubtful := by
  obtain ⟨data, writer⟩ := switching.writer
  simp only [step, writer, write, setStage]
  exact ⟨trivial, trivial, trivial, trivial, trivial⟩

variable {state : DocState}

theorem sampleCommit_ok (fits : state.lastSeq + 1 < u64Max) :
    ∃ frame after, sampleCommit state = .ok ⟨[frame], after⟩ ∧ frame.length ≤ frameRoom ∧
      after.lastSeq = state.lastSeq + 1 := by
  obtain ⟨frame, wrote⟩ := put_encodes (by decide : 1 ≤ 1000) (state.lastSeq + 1)
  have staged : stageOps engine state [put 1] =
      .ok (Overlay.empty.put "notes" "a" (nested 1), state.lastSeq + 1) := by
    rw [stageOps, nextSeq, checkedAdd, if_pos fits]
    rfl
  refine ⟨frame, publishOverlay state (Overlay.empty.put "notes" "a" (nested 1)) (state.lastSeq + 1), ?_, ?_, rfl⟩
  · rw [sampleCommit, commitPublish, staged, ok_bind]
    simp only [wrote, ok_bind]
  · exact encodeFrame_room wrote

noncomputable def toSlot : List Event := [.publish sampleCommit, .write, .sync true, .begins]

def fromSlot : List Event := [.write, .sync true, .finish]

theorem run_toSlot
    (committing : Committing world handle index base used) (room : used + frameRoom < u64Max) :
    ∃ target, Switching (run engine serde fileId world toSlot) handle index base target (used + frameRoom) ∧
      (run engine serde fileId world toSlot).readers = world.readers ∧
      (run engine serde fileId world toSlot).poisoned = world.poisoned ∧
      (run engine serde fileId world toSlot).acked = world.acked ∧
      (run engine serde fileId world toSlot).doubtful = world.doubtful := by
  obtain ⟨ends, epoch, seq⟩ := committing.small
  have one : 1 ≤ frameRoom := by decide
  have fits : base.state.lastSeq + 1 < u64Max := by omega
  obtain ⟨frame, after, made, short, next⟩ := sampleCommit_ok fits
  have framed : publishFrames index base.sb [frame] = _ := publishFrames_one ⟨ends, epoch⟩ short room
  have first : step engine serde fileId world (.publish sampleCommit) = world.setStage handle
      (.writing index base [.write ⟨base.sb.walOffset + base.sb.walLength, frame⟩, .sync,
        .write ⟨slotOffset (otherSlot index), encodeSuperblock { base.sb with epoch := base.sb.epoch + 1, walLength := base.sb.walLength + frame.length }⟩,
        .sync] false (some ⟨{ base.sb with epoch := base.sb.epoch + 1, walLength := base.sb.walLength + frame.length }, after, false⟩)) := by
    simp only [step, committing.writer, publish, made, isEmpty_cons, Bool.false_eq_true, ↓reduceIte, committing.sane,
      framed]
  have parts : run engine serde fileId world toSlot =
      run engine serde fileId (step engine serde fileId world (.publish sampleCommit))
        [.write, .sync true, .begins] := rfl
  rw [parts, first]
  refine ⟨_, ⟨⟨_, rfl⟩, committing.sane, rfl, ?_⟩, rfl, rfl, rfl, rfl⟩
  simp only
  omega

theorem run_fromSlot
    (switching : Switching world handle index base target used) :
    Committing (run engine serde fileId world fromSlot) handle (otherSlot index)
        (commitEntry base target.sb target.state) used ∧
      (run engine serde fileId world fromSlot).readers = world.readers ∧
      (run engine serde fileId world fromSlot).poisoned = world.poisoned := by
  obtain ⟨data, writer⟩ := switching.writer
  have first : step engine serde fileId world .write =
      world.write handle index base ⟨slotOffset (otherSlot index), data⟩ [.sync] (some target) := by
    simp only [step, writer]
  have last : ∀ mid : World, mid.finish handle index base (some target) =
      (setCache { mid with acked := ⟨target.sb, target.state⟩, doubtful := false } handle
        (installCommit (mid.caches handle) base target.sb target.state)).setStage handle
        (.ready (otherSlot index) (commitEntry base target.sb target.state)) := by
    intro mid
    simp only [finish, switching.commit, Bool.false_eq_true, ↓reduceIte]
  have parts : run engine serde fileId world fromSlot =
      run engine serde fileId (step engine serde fileId world .write) [.sync true, .finish] := rfl
  have synced_ : ∀ mid : World, mid.writer = some ⟨handle, .writing index base [.sync] false (some target)⟩ →
      run engine serde fileId mid [.sync true, .finish] =
        (mid.setStage handle (.writing index base [] false (some target))).finish handle index base (some target) := by
    intro mid current
    simp only [run, foldl_cons, foldl_nil, step, current, sync, ↓reduceIte, setStage]
  rw [parts, first, synced_ _ rfl, last]
  exact ⟨⟨rfl, switching.sane, switching.small⟩, rfl, rfl⟩

def firstSlot : List Event := [.start 0 0, .check 0, .readSlot 0 true]

theorem run_firstSlot (free : world.readers 0 = none) (sane : world.poisoned 0 = false)
    (writes : world.overwrites 0 = true) :
    (run engine serde fileId world firstSlot).readers 0 =
        some ⟨0, world.caches 0, (true, false), .between (world.caches 0) .invalid⟩ ∧
      (run engine serde fileId world firstSlot).writer = world.writer ∧
      (run engine serde fileId world firstSlot).poisoned = world.poisoned := by
  have started : step engine serde fileId world (.start 0 0) =
      world.setReader 0 ⟨0, world.caches 0, (false, false), .cloned (world.caches 0)⟩ := by
    simp only [step, start, free]
  have checked : step engine serde fileId
      (world.setReader 0 ⟨0, world.caches 0, (false, false), .cloned (world.caches 0)⟩) (.check 0) =
      setReader (world.setReader 0 ⟨0, world.caches 0, (false, false), .cloned (world.caches 0)⟩) 0
        ⟨0, world.caches 0, (false, false), .checked (world.caches 0)⟩ := by
    simp only [step, World.check, World.read, World.setReader, ↓reduceIte, sane, checkPhase]
  have read : ∀ mid : World, mid.readers 0 = some ⟨0, world.caches 0, (false, false), .checked (world.caches 0)⟩ →
      mid.overwrites 0 = true → step engine serde fileId mid (.readSlot 0 true) =
        mid.setReader 0 ⟨0, world.caches 0, (true, false), .between (world.caches 0) .invalid⟩ := by
    intro mid there torn
    simp only [step, World.readSlot, World.read, there, World.slotRead, torn, Bool.and_self, ↓reduceIte]
  have parts : run engine serde fileId world firstSlot =
      step engine serde fileId (step engine serde fileId
        (step engine serde fileId world (.start 0 0)) (.check 0)) (.readSlot 0 true) := rfl
  have torn : overwrites (setReader
      (world.setReader 0 ⟨0, world.caches 0, (false, false), .cloned (world.caches 0)⟩) 0
      ⟨0, world.caches 0, (false, false), .checked (world.caches 0)⟩) 0 = true := writes
  rw [parts, started, checked, read _ rfl torn]
  exact ⟨rfl, rfl, rfl⟩

theorem readSlot_second {cached : Option DiskCache}
    (there : world.readers 0 = some ⟨0, cached, (true, false), .between cached .invalid⟩)
    (writes : world.overwrites 1 = true) :
    (step engine serde fileId world (.readSlot 0 true)).readers 0 =
      some ⟨0, cached, (true, true), .done (.error (backend "no valid FerroStore superblock"))⟩ := by
  simp only [step, World.readSlot, World.read, there, World.slotRead, writes, Bool.and_self, ↓reduceIte, foundPhase]
  rfl

/-- A handle commits three times; a read of another handle meets the slot write of the second
commit and that of the third. -/
noncomputable def tornEvents : List Event :=
  .lock 1 :: (toSlot ++ (fromSlot ++ (toSlot ++ (firstSlot ++ (fromSlot ++ (toSlot ++ [.readSlot 0 true]))))))

theorem run_secondCommit
    (switching : Switching world 1 1 base target used) (room : used + frameRoom < u64Max)
    (free : world.readers 0 = none) (sane : world.poisoned 0 = false) :
    ∃ reader, (run engine serde fileId world
        (firstSlot ++ (fromSlot ++ (toSlot ++ [.readSlot 0 true])))).readers 0 = some reader ∧
      reader.phase = .done (.error (backend "no valid FerroStore superblock")) := by
  obtain ⟨reading, sameWriter, samePoison⟩ := run_firstSlot free sane switching.overwrites
  rw [run_append]
  generalize run engine serde fileId world firstSlot = next at *
  have overtaken : Switching next 1 1 base target used := by
    refine ⟨?_, ?_, switching.commit, switching.small⟩
    · rw [sameWriter]
      exact switching.writer
    · rw [samePoison]
      exact switching.sane
  obtain ⟨again, kept, -⟩ := run_fromSlot overtaken
  rw [run_append]
  generalize run engine serde fileId next fromSlot = third at *
  obtain ⟨last, lastSwitching, kept', -⟩ := run_toSlot again room
  have between := (congrFun (kept'.trans kept) 0).trans reading
  exact ⟨_, readSlot_second between lastSwitching.overwrites, rfl⟩

theorem run_commits (committing : Committing world 1 0 base 10000)
    (free : world.readers 0 = none) (sane : world.poisoned 0 = false) :
    ∃ reader, (run engine serde fileId world (toSlot ++ (fromSlot ++ (toSlot ++
        (firstSlot ++ (fromSlot ++ (toSlot ++ [.readSlot 0 true]))))))).readers 0 = some reader ∧
      reader.phase = .done (.error (backend "no valid FerroStore superblock")) := by
  have room : 10000 + frameRoom + frameRoom + frameRoom < u64Max := by decide
  obtain ⟨target, switching, readers, poisoned, -⟩ := run_toSlot committing (by omega)
  rw [run_append]
  generalize run engine serde fileId world toSlot = first at *
  obtain ⟨again, readers', poisoned'⟩ := run_fromSlot switching
  rw [run_append]
  generalize run engine serde fileId first fromSlot = second at *
  obtain ⟨target', switching', readers'', poisoned'', -⟩ := run_toSlot again (by omega)
  rw [run_append]
  refine run_secondCommit switching' (by omega) ?_ ?_
  · rw [readers'', readers', readers, free]
  · rw [poisoned'', poisoned', poisoned, sane]

variable {file : Image}

theorem lock_opened {sb : Superblock}
    (stored : Stored engine serde file 0 sb state) :
    step engine serde fileId (opened fileId file sb state) (.lock 1) =
      (opened fileId file sb state).setStage 1 (.ready 0 ⟨fileId, sb, state, sb.walLength⟩) := by
  have held : unchanged fileId ((opened fileId file sb state).caches 1) sb = some ⟨fileId, sb, state, sb.walLength⟩ := by
    simp [unchanged, opened, Option.filter]
  have found : currentSuperblock (opened fileId file sb state).file = .ok (0, sb) := stored.slots.currentSuperblock
  have free : (opened fileId file sb state).writer = none := rfl
  have sane : (opened fileId file sb state).poisoned 1 = false := rfl
  simp only [step, lock, free, sane, found, held]

theorem toSlot_sound : ∀ event ∈ toSlot, event.Sound engine serde True := by
  intro event member
  rcases mem_cons.mp member with rfl | other
  · exact sampleCommit_sound True
  · simp only [mem_cons, not_mem_nil, or_false] at other
    rcases other with rfl | rfl | rfl <;> trivial

theorem tornEvents_sound : ∀ event ∈ tornEvents, event.Sound engine serde True := by
  intro event member
  simp only [tornEvents, fromSlot, firstSlot, mem_cons, mem_append, not_mem_nil, or_false] at member
  rcases member with rfl | slot | (rfl | rfl | rfl) | slot | (rfl | rfl | rfl) | (rfl | rfl | rfl) | slot | rfl
  all_goals first | exact toSlot_sound event slot | trivial

theorem run_tornEvents {length : Nat}
    (stored : Stored engine serde file 0 (freshSuperblock 1 length 0) emptyState)
    (short : headerBytes + length ≤ 10000) :
    ∃ reader, (run engine serde fileId
        (opened fileId file (freshSuperblock 1 length 0) emptyState) tornEvents).readers 0 = some reader ∧
      reader.phase = .done (.error (backend "no valid FerroStore superblock")) := by
  have parts : run engine serde fileId (opened fileId file (freshSuperblock 1 length 0) emptyState)
      tornEvents = run engine serde fileId (step engine serde fileId
        (opened fileId file (freshSuperblock 1 length 0) emptyState) (.lock 1)) (toSlot ++ (fromSlot ++ (toSlot ++
      (firstSlot ++ (fromSlot ++ (toSlot ++ [.readSlot 0 true])))))) := rfl
  rw [parts, lock_opened stored]
  exact run_commits ⟨rfl, rfl, short, (by decide : 1 ≤ 10000), (by decide : 0 ≤ 10000)⟩ rfl rfl

/-- A healthy store whose lock-free read fails: slot 0 is read while the second commit writes it,
and slot 1 while the third does. -/
theorem read_fails_between_commits : ∃ file length, initEmpty engine serde = .ok file ∧
    Start engine serde (0, 0) True 1 (opened (0, 0) file (freshSuperblock 1 length 0) emptyState) ∧
    (∀ event ∈ tornEvents, event.Sound engine serde True) ∧
    ∃ reader, (run engine serde (0, 0)
        (opened (0, 0) file (freshSuperblock 1 length 0) emptyState) tornEvents).readers 0 = some reader ∧
      reader.phase = .done (.error (backend "no valid FerroStore superblock")) := by
  obtain ⟨file, length, fresh, stored, short⟩ := initEmpty_stored
  exact ⟨file, length, fresh, start_opened stored (freshFile_second fresh), tornEvents_sound, run_tornEvents stored short⟩

/-- That read met a torn slot twice. -/
theorem read_succeeds_iff_sample : ∃ file length reader, initEmpty engine serde = .ok file ∧
    (run engine serde (0, 0) (opened (0, 0) file (freshSuperblock 1 length 0) emptyState)
      tornEvents).readers 0 = some reader ∧ reader.torn.1 = true ∧ reader.torn.2 = true := by
  obtain ⟨file, length, fresh, stored, short⟩ := initEmpty_stored
  have start : Start engine serde (0, 0) True 1
      (opened (0, 0) file (freshSuperblock 1 length 0) emptyState) := start_opened stored (freshFile_second fresh)
  obtain ⟨reader, there, ended⟩ := run_tornEvents stored short
  have condition := read_succeeds_iff engine_keeps start tornEvents tornEvents_sound there ended
  refine ⟨file, length, reader, fresh, there, Classical.not_not.mp fun whole => ?_⟩
  obtain ⟨entry, never⟩ := condition.mpr whole
  cases never

end FerroLoop.Store.Readers

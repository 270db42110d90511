import FerroLoop.Store.Fresh

namespace FerroLoop.Store.Extents

open Bytes Checked Disk List Sample

/-- The writer that holds the lock: the state it goes on from, what is left of the publish or the
checkpoint it is in, and the superblock that will be current once all of it is done. -/
structure Writer where
  index : Nat
  sb : Superblock
  ops : List IoOp
  next : Option Superblock

structure World where
  file : Image
  writer : Option Writer

/-- One step on the file, and the write it makes or tries to make. A write that fails is dropped,
kept or torn at a sector boundary; any failure ends the writer's turn. -/
inductive Step (engine : Engine) (serde : SerdeJson) : World → Option Write → World → Prop
  | lock {file : Image} {index : Nat} {sb : Superblock} (current : currentSuperblock file = .ok (index, sb)) :
    Step engine serde ⟨file, none⟩ none ⟨file, some ⟨index, sb, [], none⟩⟩
  | unlock {file : Image} {index : Nat} {sb : Superblock} :
    Step engine serde ⟨file, some ⟨index, sb, [], none⟩⟩ none ⟨file, none⟩
  | publish {file : Image} {index : Nat} {sb next : Superblock} {frames : List (List UInt8)} {ops : List IoOp}
    (planned : publishFrames index sb frames = .ok (some (ops, next))) :
    Step engine serde ⟨file, some ⟨index, sb, [], none⟩⟩ none ⟨file, some ⟨index, sb, ops, some next⟩⟩
  | checkpoint {file : Image} {index : Nat} {sb : Superblock} {state : DocState} {ops : List IoOp}
    {result : Except StoreError Superblock} (small : state.lastSeq < u64Max)
    (planned : writeCheckpoint engine serde file index sb state = (ops, result)) :
    Step engine serde ⟨file, some ⟨index, sb, [], none⟩⟩ none ⟨file, some ⟨index, sb, ops, result.toOption⟩⟩
  | write {file : Image} {index : Nat} {sb : Superblock} {write : Write} {rest : List IoOp} {next : Option Superblock} :
    Step engine serde ⟨file, some ⟨index, sb, .write write :: rest, next⟩⟩ (some write)
      ⟨write.apply file, some ⟨index, sb, rest, next⟩⟩
  | writeFailed {file final : Image} {index : Nat} {sb : Superblock} {write : Write} {rest : List IoOp}
    {next : Option Superblock} (left : Survivor sector file [write] final) :
    Step engine serde ⟨file, some ⟨index, sb, .write write :: rest, next⟩⟩ (some write) ⟨final, none⟩
  | sync {file : Image} {index : Nat} {sb : Superblock} {rest : List IoOp} {next : Option Superblock} :
    Step engine serde ⟨file, some ⟨index, sb, .sync :: rest, next⟩⟩ none ⟨file, some ⟨index, sb, rest, next⟩⟩
  | syncFailed {file : Image} {index : Nat} {sb : Superblock} {rest : List IoOp} {next : Option Superblock} :
    Step engine serde ⟨file, some ⟨index, sb, .sync :: rest, next⟩⟩ none ⟨file, none⟩
  | goOn {file : Image} {index : Nat} {sb next : Superblock} :
    Step engine serde ⟨file, some ⟨index, sb, [], some next⟩⟩ none ⟨file, some ⟨otherSlot index, next, [], none⟩⟩

inductive Reached (engine : Engine) (serde : SerdeJson) (file : Image) : World → Prop
  | start : Reached engine serde file ⟨file, none⟩
  | step {world next : World} {write : Option Write} (before : Reached engine serde file world)
    (taken : Step engine serde world write next) : Reached engine serde file next

/-- The write has no byte in these `length` bytes from `offset` on. -/
def Untouched (write : Write) (offset length : Nat) : Prop :=
  ∀ i, write.offset ≤ i → i < write.offset + write.data.length → ¬ (offset ≤ i ∧ i < offset + length)

/-- A write into the header is a whole slot, and not the current one; any other write lies outside the
snapshot and the WAL that a valid slot names. -/
structure SafeWrite (file : Image) (write : Write) : Prop where
  slot : write.offset < headerBytes → ∃ target sb index current, target < 2 ∧
    write = ⟨slotOffset target, encodeSuperblock sb⟩ ∧ currentSuperblock file = .ok (index, current) ∧ index ≠ target
  extents : headerBytes ≤ write.offset → ∀ slot < 2, ∀ sb, readSlot file slot = .valid sb →
    Untouched write sb.snapshotOffset sb.snapshotLength ∧ Untouched write sb.walOffset sb.walLength

structure Laid (file : Image) (index : Nat) (sb : Superblock) : Prop where
  slots : Slotted file index sb
  snapshot : sb.snapshotOffset + sb.snapshotLength ≤ sb.walEnd
  older : ∀ old, readSlot file (otherSlot index) = .valid old →
    old.snapshotOffset + old.snapshotLength ≤ sb.walEnd ∧ old.walEnd ≤ sb.walEnd

structure Successor (sb next : Superblock) : Prop where
  fits : next.Fits
  epoch : sb.epoch < next.epoch
  further : sb.walEnd ≤ next.walEnd
  snapshot : next.snapshotOffset + next.snapshotLength ≤ next.walEnd

variable {named : Superblock}

namespace Laid

variable {file final : Image} {index : Nat} {sb next : Superblock} {write : Write}

section

variable (laid : Laid file index sb)

include laid

theorem header_le : headerBytes ≤ sb.walEnd := by
  have above := laid.slots.fits.wal.1
  rw [Superblock.walEnd]
  omega

theorem ends {slot : Nat} (two : slot < 2)
    (valid : readSlot file slot = .valid named) :
    named.snapshotOffset + named.snapshotLength ≤ sb.walEnd ∧ named.walEnd ≤ sb.walEnd := by
  by_cases newest : slot = index
  · rw [newest, laid.slots.readSlot_newest] at valid
    cases valid
    exact ⟨laid.snapshot, Nat.le_refl _⟩
  have other : slot = otherSlot index := by
    rcases otherSlot_cases laid.slots.slot with ⟨zero, one⟩ | ⟨one, zero⟩ <;> omega
  rw [other] at valid
  exact laid.older named valid

theorem safe_extent (beyond : sb.walEnd ≤ write.offset) : SafeWrite file write := by
  have header := laid.header_le
  refine ⟨fun inside => absurd inside (by omega), fun _ slot two named valid => ?_⟩
  obtain ⟨snapshot, wal⟩ := laid.ends two valid
  rw [Superblock.walEnd] at wal
  refine ⟨?_, ?_⟩
  · rintro i least - ⟨-, most⟩
    omega
  · rintro i least - ⟨-, most⟩
    omega

theorem safe_slot : SafeWrite file ⟨slotOffset (otherSlot index), encodeSuperblock next⟩ := by
  have other := laid.slots.otherSlot_lt
  have inside := slotOffset_end other
  refine ⟨fun _ => ⟨otherSlot index, next, index, sb, other, rfl, laid.slots.currentSuperblock, ?_⟩, fun above => ?_⟩
  · rcases otherSlot_cases laid.slots.slot with ⟨zero, one⟩ | ⟨one, zero⟩ <;> omega
  · exfalso
    simp only [slotLen] at inside
    dsimp only at above
    omega

theorem kept (header : Kept 0 headerBytes file final) : Laid final index sb := by
  have other := laid.slots.otherSlot_lt
  have inside := slotOffset_end other
  have same : readSlot final (otherSlot index) = readSlot file (otherSlot index) := by
    have before := header.inside
    have after := header.reaches
    rw [readSlot, readSlot, if_neg (by omega), if_neg (by omega), header.slice (Nat.zero_le _) inside]
  refine ⟨laid.slots.kept header, laid.snapshot, ?_⟩
  rw [same]
  exact laid.older

theorem extent_survivor (beyond : sb.walEnd ≤ write.offset)
    (survivor : Survivor sector file [write] final) : Laid final index sb := by
  have header := laid.header_le
  refine laid.kept (survivor.keeps_before laid.slots.header ?_)
  intro other member
  rw [mem_singleton.mp member]
  omega

theorem readSlot_survivor (survivor : Survivor sector file [⟨slotOffset (otherSlot index), encodeSuperblock next⟩] final) :
    readSlot final index = .valid sb := by
  have inside := slotOffset_end laid.slots.slot
  have header := laid.slots.header
  rcases survivor.of_one with same | ⟨data, short, written⟩
  · rw [same]
    exact laid.slots.readSlot_newest
  rw [encodeSuperblock_length] at short
  have longer : file.length ≤ final.length := by
    rw [written, overwrite_length]
    exact Nat.le_max_left _ _
  rw [readSlot, if_neg (by omega), written, slice_otherSlot laid.slots.slot header short, laid.slots.newest,
    parseSuperblock_encode laid.slots.fits]

section

variable (successor : Successor sb next) (survivor : Survivor sector file [⟨slotOffset (otherSlot index), encodeSuperblock next⟩] final)

include successor survivor

theorem successor_laid (slots : Slotted final (otherSlot index) next) : Laid final (otherSlot index) next := by
  have back : otherSlot (otherSlot index) = index := by
    rcases otherSlot_cases laid.slots.slot with ⟨rfl, -⟩ | ⟨rfl, -⟩ <;> rfl
  refine ⟨slots, successor.snapshot, ?_⟩
  intro old valid
  rw [back, laid.readSlot_survivor survivor] at valid
  cases valid
  exact ⟨Nat.le_trans laid.snapshot successor.further, successor.further⟩

theorem slot_survivor : final = file ∨ Laid final (otherSlot index) next := by
  rcases laid.slots.slot_survivor successor.fits successor.epoch survivor with same | ⟨slots, -⟩
  · exact .inl same
  · exact .inr (laid.successor_laid successor survivor slots)

end

theorem slot_written (successor : Successor sb next) :
    Laid (overwrite file (slotOffset (otherSlot index)) (encodeSuperblock next)) (otherSlot index) next := by
  have whole := laid.slots.slot_write successor.fits successor.epoch (by decide : sector ≤ slotLen) (Nat.le_refl _)
  rw [take_of_length_le (Nat.le_of_eq (encodeSuperblock_length next))] at whole
  exact laid.successor_laid successor (Survivor.all _ _) whole

end

end Laid

/-! ### A publish or a checkpoint under way -/

/-- What can be left to do of a publish or a checkpoint from the superblock in slot `index`: extents
and then the slot, extents alone when a last check failed, the slot, its sync, or nothing. -/
inductive Underway (file : Image) (index : Nat) (sb : Superblock) : List IoOp → Option Superblock → Prop
  | resting (laid : Laid file index sb) : Underway file index sb [] none
  | extents {writes : List Write} {next : Superblock} (laid : Laid file index sb)
    (beyond : ∀ write ∈ writes, sb.walEnd ≤ write.offset) (successor : Successor sb next) :
    Underway file index sb (synced writes ++ slotOps (otherSlot index) next) (some next)
  | abandoned {writes : List Write} (laid : Laid file index sb) (beyond : ∀ write ∈ writes, sb.walEnd ≤ write.offset) :
    Underway file index sb (synced writes) none
  | slot {next : Superblock} (laid : Laid file index sb) (successor : Successor sb next) :
    Underway file index sb (slotOps (otherSlot index) next) (some next)
  | named {next : Superblock} (laid : Laid file (otherSlot index) next) : Underway file index sb [.sync] (some next)
  | done {next : Superblock} (laid : Laid file (otherSlot index) next) : Underway file index sb [] (some next)

variable {ops : List IoOp}

namespace Underway

variable {file : Image} {index : Nat} {sb : Superblock} {write : Write} {rest : List IoOp} {next : Option Superblock}

theorem laid (underway : Underway file index sb ops next) : ∃ index sb, Laid file index sb := by
  cases underway with
  | resting laid | extents laid _ _ | abandoned laid _ | slot laid _ | named laid | done laid => exact ⟨_, _, laid⟩

theorem write_cases (underway : Underway file index sb (.write write :: rest) next) :
    Laid file index sb ∧
      ((sb.walEnd ≤ write.offset ∧ ∀ final, Laid final index sb → Underway final index sb rest next) ∨
        ∃ named, Successor sb named ∧ next = some named ∧ rest = [.sync] ∧
          write = ⟨slotOffset (otherSlot index), encodeSuperblock named⟩) := by
  generalize shape : IoOp.write write :: rest = ops at underway
  cases underway with
  | resting laid => cases shape
  | @extents writes named laid beyond successor =>
    refine ⟨laid, .inl ?_⟩
    rcases writes with _ | ⟨first, others⟩
    · cases shape
    obtain ⟨head, tail⟩ := List.cons.inj shape
    cases head
    refine ⟨beyond write mem_cons_self, fun final stays => ?_⟩
    rw [tail]
    exact .extents stays (fun other member => beyond other (mem_cons_of_mem _ member)) successor
  | @abandoned writes laid beyond =>
    refine ⟨laid, .inl ?_⟩
    rcases writes with _ | ⟨first, others⟩
    · cases shape
    obtain ⟨head, tail⟩ := List.cons.inj shape
    cases head
    refine ⟨beyond write mem_cons_self, fun final stays => ?_⟩
    rw [tail]
    exact .abandoned stays fun other member => beyond other (mem_cons_of_mem _ member)
  | @slot named laid successor =>
    obtain ⟨head, tail⟩ := List.cons.inj shape
    cases head
    exact ⟨laid, .inr ⟨named, successor, rfl, tail, rfl⟩⟩
  | named laid | done laid => cases shape

theorem synced_next (underway : Underway file index sb (.sync :: rest) next) : Underway file index sb rest next := by
  generalize shape : IoOp.sync :: rest = ops at underway
  cases underway with
  | resting laid => cases shape
  | @extents writes named laid beyond successor =>
    cases writes with
    | nil =>
      obtain ⟨-, tail⟩ := List.cons.inj shape
      rw [tail]
      exact .slot laid successor
    | cons first others => cases shape
  | @abandoned writes laid beyond =>
    cases writes with
    | nil =>
      obtain ⟨-, tail⟩ := List.cons.inj shape
      rw [tail]
      exact .resting laid
    | cons first others => cases shape
  | slot laid successor => cases shape
  | named laid =>
    cases shape
    exact .done laid
  | done laid => cases shape

theorem nil_cases (underway : Underway file index sb [] next) :
    (next = none ∧ Laid file index sb) ∨ ∃ named, next = some named ∧ Laid file (otherSlot index) named := by
  generalize shape : ([] : List IoOp) = ops at underway
  cases underway with
  | resting laid => exact .inl ⟨rfl, laid⟩
  | @extents writes named laid beyond successor | @abandoned writes laid beyond => cases writes <;> cases shape
  | slot laid successor | named laid => cases shape
  | done laid => exact .inr ⟨_, rfl, laid⟩

theorem resting_laid (underway : Underway file index sb [] none) : Laid file index sb := by
  rcases underway.nil_cases with ⟨-, laid⟩ | ⟨named, impossible, -⟩
  · exact laid
  · cases impossible

theorem done_laid (underway : Underway file index sb [] (some named)) :
    Laid file (otherSlot index) named := by
  rcases underway.nil_cases with ⟨impossible, -⟩ | ⟨other, same, laid⟩
  · cases impossible
  · cases same
    exact laid

end Underway

section Run

variable {engine : Engine} {serde : SerdeJson} {file : Image} {index : Nat} {sb next : Superblock}

theorem underway_publish (laid : Laid file index sb) {frames : List (List UInt8)}
    (planned : publishFrames index sb frames = .ok (some (ops, next))) : Underway file index sb ops (some next) := by
  obtain ⟨beyond, fits, epoch, further⟩ := publishFrames_planned laid.slots.fits planned
  obtain ⟨rfl, same, -, -⟩ := publishFrames_some planned
  refine .extents laid beyond ⟨fits, by omega, further, ?_⟩
  have snapshot : next.snapshotOffset + next.snapshotLength = sb.snapshotOffset + sb.snapshotLength := by rw [same]
  rw [snapshot]
  exact Nat.le_trans laid.snapshot further

variable {state : DocState}

theorem underway_checkpoint (laid : Laid file index sb) (small : state.lastSeq < u64Max)
    {result : Except StoreError Superblock}
    (planned : writeCheckpoint engine serde file index sb state = (ops, result)) :
    Underway file index sb ops result.toOption := by
  have cases_ := writeCheckpoint_cases laid.slots.fits planned
  cases result with
  | error err =>
    obtain ⟨writes, rfl | rfl, beyond⟩ := cases_
    · exact .abandoned laid beyond
    · exact .resting laid
  | ok next =>
    obtain ⟨offset, blob, checkpointed⟩ := cases_
    obtain ⟨beyond, fits, epoch, further⟩ := checkpointed.planned small
    have same := checkpointed.next
    rw [checkpointed.ops]
    refine .extents laid beyond ⟨fits, by omega, further, ?_⟩
    rw [same, Superblock.walEnd]
    exact Nat.le_add_right _ _

def World.Sound (world : World) : Prop :=
  match world.writer with
  | none => ∃ index sb, Laid world.file index sb
  | some writer => Underway world.file writer.index writer.sb writer.ops writer.next

variable {world next : World}

theorem Step.sound {write : Option Write} (step : Step engine serde world write next)
    (sound : world.Sound) : next.Sound := by
  cases step with
  | lock current =>
    obtain ⟨newest, found, laid⟩ := sound
    rw [laid.slots.currentSuperblock] at current
    cases current
    exact .resting laid
  | unlock => exact Underway.laid sound
  | publish planned => exact underway_publish (Underway.resting_laid sound) planned
  | checkpoint small planned => exact underway_checkpoint (Underway.resting_laid sound) small planned
  | @write file index sb write rest next =>
    have underway : Underway file index sb (.write write :: rest) next := sound
    obtain ⟨laid, ⟨beyond, goesOn⟩ | ⟨named, successor, rfl, rfl, rfl⟩⟩ := underway.write_cases
    · exact goesOn _ (laid.extent_survivor beyond (Survivor.all _ [write]))
    · exact .named (laid.slot_written successor)
  | @writeFailed file final index sb write rest next left =>
    have underway : Underway file index sb (.write write :: rest) next := sound
    obtain ⟨laid, ⟨beyond, -⟩ | ⟨named, successor, rfl, rfl, rfl⟩⟩ := underway.write_cases
    · exact ⟨_, _, laid.extent_survivor beyond left⟩
    · rcases laid.slot_survivor successor left with rfl | switched
      · exact ⟨_, _, laid⟩
      · exact ⟨_, _, switched⟩
  | sync => exact Underway.synced_next sound
  | syncFailed => exact Underway.laid sound
  | goOn => exact .resting (Underway.done_laid sound)

variable {write : Write}

theorem Underway.safe {rest : List IoOp} {named : Option Superblock}
    (underway : Underway file index sb (.write write :: rest) named) : SafeWrite file write := by
  obtain ⟨laid, ⟨beyond, -⟩ | ⟨named, -, -, -, rfl⟩⟩ := underway.write_cases
  · exact laid.safe_extent beyond
  · exact laid.safe_slot

theorem Step.safe (step : Step engine serde world (some write) next)
    (sound : world.Sound) : SafeWrite world.file write := by
  cases step with
  | write | writeFailed left => exact Underway.safe sound

theorem Reached.sound (reached : Reached engine serde file world) (laid : Laid file index sb) :
    world.Sound := by
  induction reached with
  | start => exact ⟨index, sb, laid⟩
  | step _ taken ih => exact taken.sound ih

theorem fresh_laid {epoch : Nat} (epochFits : 0 < epoch ∧ epoch < u64Max)
    (seqFits : state.lastSeq < u64Max) (fresh : freshFile engine serde epoch state = .ok file)
    (small : file.length < u64Max) : ∃ length, Laid file 0 (freshSuperblock epoch length state.lastSeq) := by
  have second := freshFile_second fresh
  obtain ⟨blob, -, same⟩ := bind_ok fresh
  cases same
  obtain ⟨first, blank, -⟩ := slice_fresh (freshSuperblock epoch blob.length state.lastSeq) blob
  have total : ∀ sb : Superblock, (encodeSuperblock sb ++ blankSlot ++ blob).length = headerBytes + blob.length := by
    intro sb
    rw [length_append, length_append, encodeSuperblock_length, blankSlot_length]
    rfl
  rw [total] at small
  have fits : (freshSuperblock epoch blob.length state.lastSeq).Fits :=
    ⟨epochFits, ⟨Nat.le_refl _, small⟩, ⟨Nat.le_add_right _ _, small⟩, seqFits⟩
  refine ⟨blob.length, ⟨by decide, fits, ?_, first, .inl blank⟩, Nat.le_refl _, ?_⟩
  · have whole := total (freshSuperblock epoch blob.length state.lastSeq)
    exact Nat.le_trans (Nat.le_add_right _ _) (Nat.le_of_eq whole.symm)
  · intro old valid
    have other : readSlot _ (otherSlot 0) = .invalid := second
    rw [other] at valid
    cases valid

/-- From a new file, whatever is published, checkpointed or fails: every write made or tried leaves the
extents of both valid slots and the slot of the current state alone. -/
theorem writes_spare_valid_extents {state : DocState} {epoch : Nat} (epochFits : 0 < epoch ∧ epoch < u64Max)
    (seqFits : state.lastSeq < u64Max) (fresh : freshFile engine serde epoch state = .ok file)
    (small : file.length < u64Max) {world next : World} {write : Write} (reached : Reached engine serde file world)
    (step : Step engine serde world (some write) next) : SafeWrite world.file write := by
  obtain ⟨length, laid⟩ := fresh_laid epochFits seqFits fresh small
  exact step.safe (reached.sound laid)

end Run

/-- The first frame of a new store. -/
theorem writes_spare_valid_extents_sample : ∃ file world write next, initEmpty engine serde = .ok file ∧
    Reached engine serde file world ∧ Step engine serde world (some write) next ∧
    SafeWrite world.file write := by
  obtain ⟨file, length, fresh, stored, short⟩ := initEmpty_stored
  have small : file.length < u64Max := by
    obtain ⟨blob, encoded, blobShort⟩ := emptyState_encodes
    have opened : initEmpty engine serde =
        .ok (encodeSuperblock (freshSuperblock 1 blob.length 0) ++ blankSlot ++ blob) := by
      have made : freshFile engine serde 1 emptyState =
          .ok (encodeSuperblock (freshSuperblock 1 blob.length 0) ++ blankSlot ++ blob) := by
        rw [freshFile, encoded]
        rfl
      exact made
    rw [opened] at fresh
    cases fresh
    have bound : headerBytes + 1000 < u64Max := by decide
    rw [length_append, length_append, encodeSuperblock_length, blankSlot_length]
    have header : slotLen + slotLen = headerBytes := rfl
    omega
  have used : (freshSuperblock 1 length 0).walOffset + (freshSuperblock 1 length 0).walLength ≤ 10000 ∧
      (freshSuperblock 1 length 0).epoch ≤ 10000 := ⟨short, (by decide : 1 ≤ 10000)⟩
  have planned : publishFrames 0 (freshSuperblock 1 length 0) [[0]] = .ok (some (_, _)) :=
    publishFrames_one used (by decide) (by decide)
  have reached := ((@Reached.start engine serde file).step
    (.lock stored.slots.currentSuperblock)).step (.publish planned)
  exact ⟨file, _, _, _, fresh, reached, .write,
    writes_spare_valid_extents (by decide) (by decide : (0 : Nat) < u64Max) fresh small reached .write⟩

end FerroLoop.Store.Extents

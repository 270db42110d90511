import FerroLoop.Lib.Disk
import FerroLoop.Store.Group

/-!
The store file: the two superblock slots, what a handle loads and caches of it, and the writes
and syncs of a publish and of a checkpoint.
-/

namespace FerroLoop.Store

open Disk

def slotOffset (index : Nat) : Nat := index * slotLen

def readSlot (file : Image) (index : Nat) : SlotRead :=
  if file.length < slotOffset index + slotLen then .invalid else parseSuperblock (slice file (slotOffset index) slotLen)

def betterSlot (best : Option (Nat × Superblock)) (index : Nat) : SlotRead → Except StoreError (Option (Nat × Superblock))
  | .valid sb =>
    match best with
    | some (_, current) =>
      if sb.epoch < current.epoch then .ok best
      else if sb.epoch = current.epoch then .error (corrupt "two valid superblocks share an epoch")
      else .ok (some (index, sb))
    | none => .ok (some (index, sb))
  | .invalid => .ok best
  | .newer version engine incompat => .error (.containerFormat version engine incompat)

def parsedSuperblock (first second : SlotRead) : Except StoreError (Option (Nat × Superblock)) := do
  let best ← betterSlot none 0 first
  betterSlot best 1 second

def latestSuperblock (first second : SlotRead) : Except StoreError (Nat × Superblock) := do
  match ← parsedSuperblock first second with
  | some found => .ok found
  | none => .error (backend "no valid FerroStore superblock")

def currentSuperblock (file : Image) : Except StoreError (Nat × Superblock) :=
  latestSuperblock (readSlot file 0) (readSlot file 1)

def readRange (file : Image) (offset length : Nat) : Except StoreError (List UInt8) :=
  if length = 0 then .ok []
  else
    match checkedAdd offset length with
    | none => .error (corrupt "extent range overflows")
    | some bound =>
      if file.length < bound then .error (corrupt "extent extends past the end of the file")
      else .ok (slice file offset length)

section Load

variable (engine : Engine) (serde : SerdeJson)

section

variable (file : Image)

def loadSnapshot (sb : Superblock) : Except StoreError DocState :=
  if sb.snapshotLength = 0 then .ok (DocState.atSeq sb.snapshotSeq)
  else do
    let bytes ← readRange file sb.snapshotOffset sb.snapshotLength
    let snapshot ← decodeSnapshot engine serde bytes
    if snapshot.seq ≠ sb.snapshotSeq then .error (corrupt "snapshot sequence does not match the superblock")
    else .ok ⟨snapshot.docs, snapshot.tables, snapshot.vectors, snapshot.seq⟩

def loadState (sb : Superblock) : Except StoreError (DocState × Nat) := do
  let state ← loadSnapshot engine serde file sb
  let wal ← readRange file sb.walOffset sb.walLength
  let (frames, consumed) ← decodeWalPrefix serde wal
  let state ← applyFrames engine state sb.snapshotSeq frames
  .ok (state, consumed)

def reopen : Except StoreError DocState := do
  let (_, sb) ← currentSuperblock file
  let (state, _) ← loadState engine serde file sb
  .ok state

/-- Device and inode number. -/
abbrev FileId := Nat × Nat

structure DiskCache where
  fileId : FileId
  sb : Superblock
  state : DocState
  /-- The WAL bytes folded into the state. -/
  walApplied : Nat

def tailFollows (cached : DiskCache) (sb : Superblock) : Bool :=
  cached.walApplied == cached.sb.walLength && decide (cached.sb.epoch < sb.epoch) &&
    sb.snapshotOffset == cached.sb.snapshotOffset && sb.snapshotLength == cached.sb.snapshotLength &&
    sb.snapshotSeq == cached.sb.snapshotSeq && sb.walOffset == cached.sb.walOffset &&
    decide (cached.sb.walLength < sb.walLength)

/-- The frames of a tail, each staged and published; `none` when one is not the next sequence. -/
def replayFrames : DocState → List Frame → Except StoreError (Option DocState)
  | state, [] => .ok (some state)
  | state, (seq, ops) :: rest =>
    if checkedAdd state.lastSeq 1 ≠ some seq then .ok none
    else do
      let (overlay, next) ← stageOps engine state ops
      replayFrames (publishOverlay state overlay next) rest

def replayTail (cached : DiskCache) (sb : Superblock) : Except StoreError (Option DiskCache) :=
  match checkedAdd sb.walOffset cached.walApplied with
  | none => .error (corrupt "wal offset overflow")
  | some start => do
    let bytes ← readRange file start (sb.walLength - cached.walApplied)
    let (frames, consumed) ← decodeWalPrefix serde bytes
    match ← replayFrames engine cached.state frames with
    | some state => .ok (some ⟨cached.fileId, sb, state, cached.walApplied + consumed⟩)
    | none => .ok none

def loadFull (fileId : FileId) (sb : Superblock) : Except StoreError DiskCache := do
  let (state, walApplied) ← loadState engine serde file sb
  .ok ⟨fileId, sb, state, walApplied⟩

/-- The state of a superblock, from the cache: the cached state itself, the cached state with
the tail replayed, or a full load. -/
def advance (fileId : FileId) (cached : Option DiskCache) (sb : Superblock) : Except StoreError DiskCache :=
  match cached with
  | none => loadFull engine serde file fileId sb
  | some held =>
    if held.fileId = fileId ∧ held.sb = sb then .ok held
    else if held.fileId = fileId ∧ tailFollows held sb then
      match replayTail engine serde file held sb with
      | .ok (some next) => .ok next
      | _ => loadFull engine serde file fileId sb
    else loadFull engine serde file fileId sb

end

end Load

/-- `install_newer`; `current` is the file the path names. -/
def installNewer (slot : Option DiskCache) (fresh : DiskCache) (current : FileId) : Option DiskCache :=
  match slot with
  | none => some fresh
  | some held =>
    if held.fileId = fresh.fileId then if held.sb.epoch < fresh.sb.epoch then some fresh else slot
    else if fresh.fileId = current then some fresh
    else if held.fileId = current then slot
    else if held.sb.epoch < fresh.sb.epoch then some fresh else slot

def commitEntry (base : DiskCache) (sb : Superblock) (state : DocState) : DiskCache :=
  ⟨base.fileId, sb, state, if base.walApplied ≠ base.sb.walLength then base.walApplied else sb.walLength⟩

def installCommit (slot : Option DiskCache) (base : DiskCache) (sb : Superblock) (state : DocState) : Option DiskCache :=
  if base.walApplied ≠ base.sb.walLength then slot else installNewer slot (commitEntry base sb state) base.fileId

def installCheckpoint (slot : Option DiskCache) (base : DiskCache) (sb : Superblock) : Option DiskCache :=
  installNewer slot ⟨base.fileId, sb, base.state, 0⟩ base.fileId

def otherSlot (index : Nat) : Nat := index ^^^ 1

def slotOps (index : Nat) (sb : Superblock) : List IoOp := synced [⟨slotOffset index, encodeSuperblock sb⟩]

def placeFrames (offset walLength : Nat) : List (List UInt8) → Except StoreError (List Write × Nat)
  | [] => .ok ([], walLength)
  | frame :: rest =>
    match checkedAdd offset frame.length with
    | none => .error (backend "wal offset overflow")
    | some next =>
      match checkedAdd walLength frame.length with
      | none => .error (backend "wal length overflow")
      | some longer => do
        let (writes, total) ← placeFrames next longer rest
        .ok (⟨offset, frame⟩ :: writes, total)

/-- The operations of a publish of frames from the superblock in slot `index`, and the superblock
it publishes. Every check is made before the first write. -/
def publishFrames (index : Nat) (sb : Superblock) (frames : List (List UInt8)) :
    Except StoreError (Option (List IoOp × Superblock)) :=
  if frames.isEmpty then .ok none
  else
    match checkedAdd sb.walOffset sb.walLength with
    | none => .error (backend "wal offset overflow")
    | some start => do
      let (writes, walLength) ← placeFrames start sb.walLength frames
      match checkedAdd sb.epoch 1 with
      | none => .error (backend "epoch overflow")
      | some epoch =>
        let next := { sb with epoch, walLength }
        .ok (some (synced writes ++ slotOps (otherSlot index) next, next))

/-- `u64::saturating_add`. -/
def saturatingAdd (a b : Nat) : Nat := min (a + b) (u64Max - 1)

def allocateExtent (fileLen : Nat) (sb : Superblock) (length : Nat) : Except StoreError Nat :=
  let liveEnd := max (max (saturatingAdd sb.snapshotOffset sb.snapshotLength) (saturatingAdd sb.walOffset sb.walLength))
    headerBytes
  let offset := max fileLen liveEnd
  match checkedAdd offset length with
  | none => .error (backend "extent offset overflow")
  | some _ => .ok offset

/-- The operations of a checkpoint as far as it gets, and the superblock it publishes. The last
checks come after the snapshot is written. -/
def writeCheckpoint (engine : Engine) (serde : SerdeJson) (file : Image) (index : Nat) (sb : Superblock)
    (state : DocState) : List IoOp × Except StoreError Superblock :=
  let placed := do
    let blob ← encodeStateSnapshot serde engine state
    let offset ← allocateExtent file.length sb blob.length
    .ok (blob, offset)
  match placed with
  | .error err => ([], .error err)
  | .ok (blob, offset) =>
    let written := synced [⟨offset, blob⟩]
    match checkedAdd sb.epoch 1 with
    | none => (written, .error (backend "epoch overflow"))
    | some epoch =>
      match checkedAdd offset blob.length with
      | none => (written, .error (backend "wal offset overflow"))
      | some walOffset =>
        let next := ⟨epoch, offset, blob.length, walOffset, 0, state.lastSeq⟩
        (written ++ slotOps (otherSlot index) next, .ok next)

end FerroLoop.Store

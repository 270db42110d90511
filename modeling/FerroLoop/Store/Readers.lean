import FerroLoop.Store.Publishing

/-!
The handles of one file at work. Readers take no lock: a read clones the cache of its handle, reads
the two slots one after the other, loads what they name and installs it. The writer holds the lock
and publishes with writes and syncs of its own, and the other handles' readers see each of them.
-/

namespace FerroLoop.Store.Readers

open Disk

/-- Where a call of `refresh_read_on` is, with what it holds there. -/
inductive Phase where
  | cloned (cached : Option DiskCache)
  | checked (cached : Option DiskCache)
  | between (cached : Option DiskCache) (first : SlotRead)
  | found (cached : Option DiskCache) (sb : Superblock)
  | loaded (fresh : DiskCache)
  | done (result : Except StoreError DiskCache)

/-- A read of a handle; the cache it started from and which of its two slot reads were torn are
kept for the statements only. -/
structure Reader where
  handle : Nat
  began : Option DiskCache
  torn : Bool × Bool
  phase : Phase

structure Target where
  sb : Superblock
  state : DocState
  checkpoint : Bool

inductive Stage where
  /-- The slots are read and the state loaded, not yet installed. -/
  | refreshed (index : Nat) (fresh : DiskCache)
  | ready (index : Nat) (base : DiskCache)
  /-- The operations still to run; `started` when the first of them is a write under way. -/
  | writing (index : Nat) (base : DiskCache) (ops : List IoOp) (started : Bool) (target : Option Target)
  | failed (base : DiskCache)

structure Writer where
  handle : Nat
  stage : Stage

structure Version where
  sb : Superblock
  state : DocState

/-- The file as the running processes see it, the cache and the poison of each handle, the writer
and the readers. `published`, newest first, `acked`, the last publish that returned, and `doubtful`,
that the sync of a slot failed since then, are kept for the statements only. -/
structure World where
  file : Image
  caches : Nat → Option DiskCache
  poisoned : Nat → Bool
  writer : Option Writer
  readers : Nat → Option Reader
  published : List Version
  acked : Version
  doubtful : Bool

inductive Event where
  | start (reader handle : Nat)
  | check (reader : Nat)
  | readSlot (reader : Nat) (torn : Bool)
  | load (reader : Nat)
  | install (reader : Nat)
  | lock (handle : Nat)
  | refreshed
  | publish (make : DocState → Except StoreError Publish)
  | checkpoint
  | begins
  | write
  | sync (returned : Bool)
  | finish
  | settle
  | release

namespace World

def setReader (world : World) (id : Nat) (reader : Reader) : World :=
  { world with readers := fun other => if other = id then some reader else world.readers other }

def setCache (world : World) (handle : Nat) (cache : Option DiskCache) : World :=
  { world with caches := fun other => if other = handle then cache else world.caches other }

def setStage (world : World) (handle : Nat) (stage : Stage) : World := { world with writer := some ⟨handle, stage⟩ }

def overwrites (world : World) (index : Nat) : Bool :=
  match world.writer with
  | some ⟨_, .writing _ _ (.write write :: _) true _⟩ => write.offset == slotOffset index
  | _ => false

/-- One slot as a reader finds it. While the slot is written the bytes can be a mix, which fails
its checksum. -/
def slotRead (world : World) (index : Nat) (torn : Bool) : SlotRead :=
  if torn && world.overwrites index then .invalid else readSlot world.file index

end World

section Step

variable (engine : Engine) (serde : SerdeJson) (fileId : FileId)

def unchanged (cached : Option DiskCache) (sb : Superblock) : Option DiskCache :=
  cached.filter fun held => decide (held.fileId = fileId ∧ held.sb = sb)

/-- The cached state, when the slots fell back behind it. -/
def later (cached : Option DiskCache) (sb : Superblock) : Option DiskCache :=
  cached.filter fun held => decide (held.fileId = fileId ∧ sb.epoch < held.sb.epoch)

/-- The end of `advance`, under the cache mutex: what the cache holds afterwards, and the answer. -/
def installRead (poisoned : Bool) (slot : Option DiskCache) (fresh : DiskCache) : Option DiskCache × DiskCache :=
  match poisoned, slot with
  | true, some held => (slot, held)
  | _, _ => (installNewer slot fresh fileId, fresh)

/-- `settle_failed_publish`, once the handle is poisoned. -/
def settleFailed (slot : Option DiskCache) (acknowledged : DiskCache) : Option DiskCache :=
  match slot with
  | none => some acknowledged
  | some held =>
    if held.fileId = acknowledged.fileId ∧ acknowledged.sb.epoch < held.sb.epoch then some acknowledged else slot

def checkPhase (poisoned : Bool) (cached : Option DiskCache) : Phase :=
  match poisoned, cached with
  | true, some held => .done (.ok held)
  | _, _ => .checked cached

def foundPhase (cached : Option DiskCache) (first second : SlotRead) : Phase :=
  match latestSuperblock first second with
  | .error err => .done (.error err)
  | .ok (_, sb) =>
    match later fileId cached sb with
    | some held => .done (.ok held)
    | none => .found cached sb

def loadPhase (file : Image) (cached : Option DiskCache) (sb : Superblock) : Phase :=
  match unchanged fileId cached sb with
  | some held => .done (.ok held)
  | none =>
    match advance engine serde file fileId cached sb with
    | .ok fresh => .loaded fresh
    | .error err => .done (.error err)

section

variable (world : World)

def World.read (id : Nat) (turn : Reader → World) : World :=
  match world.readers id with
  | none => world
  | some reader => turn reader

def World.start (id handle : Nat) : World :=
  match world.readers id with
  | some _ => world
  | none => world.setReader id ⟨handle, world.caches handle, (false, false), .cloned (world.caches handle)⟩

def World.check (id : Nat) : World :=
  world.read id fun reader =>
    match reader.phase with
    | .cloned cached => world.setReader id { reader with phase := checkPhase (world.poisoned reader.handle) cached }
    | _ => world

def World.readSlot (id : Nat) (torn : Bool) : World :=
  world.read id fun reader =>
    match reader.phase with
    | .checked cached =>
      world.setReader id
        { reader with phase := .between cached (world.slotRead 0 torn), torn := (torn && world.overwrites 0, false) }
    | .between cached first =>
      world.setReader id
        { reader with phase := foundPhase fileId cached first (world.slotRead 1 torn), torn := (reader.torn.1, torn && world.overwrites 1) }
    | _ => world

def World.load (id : Nat) : World :=
  world.read id fun reader =>
    match reader.phase with
    | .found cached sb => world.setReader id { reader with phase := loadPhase engine serde fileId world.file cached sb }
    | _ => world

def World.install (id : Nat) : World :=
  world.read id fun reader =>
    match reader.phase with
    | .loaded fresh =>
      let installed := installRead fileId (world.poisoned reader.handle) (world.caches reader.handle) fresh
      (world.setCache reader.handle installed.1).setReader id { reader with phase := .done (.ok installed.2) }
    | _ => world

/-- The lock, and what `refresh` reads under it. Every caller first checks the poison. -/
def World.lock (handle : Nat) : World :=
  match world.writer, world.poisoned handle, currentSuperblock world.file with
  | none, false, .ok (index, sb) =>
    match unchanged fileId (world.caches handle) sb with
    | some held => world.setStage handle (.ready index held)
    | none =>
      match advance engine serde world.file fileId (world.caches handle) sb with
      | .ok fresh => world.setStage handle (.refreshed index fresh)
      | .error _ => world
  | _, _, _ => world

def World.refreshed (handle index : Nat) (fresh : DiskCache) : World :=
  let installed := installRead fileId (world.poisoned handle) (world.caches handle) fresh
  (world.setCache handle installed.1).setStage handle (.ready index installed.2)

/-- The start of `publish_or_settle`: the checks, before anything is written. -/
def World.publish (handle index : Nat) (base : DiskCache) (make : DocState → Except StoreError Publish) : World :=
  match make base.state with
  | .error _ => world
  | .ok made =>
    if made.frames.isEmpty then world
    else if world.poisoned handle then world.setStage handle (.failed base)
    else
      match publishFrames index base.sb made.frames with
      | .ok (some (ops, sb)) => world.setStage handle (.writing index base ops false (some ⟨sb, made.state, false⟩))
      | _ => world.setStage handle (.failed base)

def World.checkpoint (handle index : Nat) (base : DiskCache) : World :=
  if world.poisoned handle then world
  else
    match writeCheckpoint engine serde world.file index base.sb base.state with
    | (ops, .ok sb) => world.setStage handle (.writing index base ops false (some ⟨sb, base.state, true⟩))
    | (ops, .error _) => world.setStage handle (.writing index base ops false none)

end

def World.write (world : World) (handle index : Nat) (base : DiskCache) (write : Write) (rest : List IoOp)
    (target : Option Target) : World :=
  let published := if write.offset < headerBytes then target.toList.map fun made => ⟨made.sb, made.state⟩ else []
  World.setStage { world with file := write.apply world.file, published := published ++ world.published } handle
    (.writing index base rest false target)

def World.sync (world : World) (handle index : Nat) (base : DiskCache) (rest : List IoOp) (target : Option Target)
    (returned : Bool) : World :=
  if returned then world.setStage handle (.writing index base rest false target)
  else
    -- The sync of the slot is the last operation.
    let failed := { world with doubtful := world.doubtful || (target.isSome && rest.isEmpty) }
    World.setStage { failed with poisoned := fun other => if other = handle then true else world.poisoned other } handle
      (.failed base)

def World.finish (world : World) (handle index : Nat) (base : DiskCache) (target : Option Target) : World :=
  match target with
  | none => world.setStage handle (.failed base)
  | some made =>
    let acknowledged := { world with acked := ⟨made.sb, made.state⟩, doubtful := false }
    if made.checkpoint then
      { acknowledged.setCache handle (installCheckpoint (world.caches handle) base made.sb) with writer := none }
    else
      (acknowledged.setCache handle (installCommit (world.caches handle) base made.sb made.state)).setStage handle
        (.ready (otherSlot index) (commitEntry base made.sb made.state))

def World.settle (world : World) (handle : Nat) (base : DiskCache) : World :=
  if world.poisoned handle then
    { world.setCache handle (settleFailed (world.caches handle) base) with writer := none }
  else { world with writer := none }

def step (world : World) (event : Event) : World :=
  match event with
  | .start id handle => world.start id handle
  | .check id => world.check id
  | .readSlot id torn => world.readSlot fileId id torn
  | .load id => world.load engine serde fileId id
  | .install id => world.install fileId id
  | .lock handle => world.lock engine serde fileId handle
  | event =>
    match world.writer, event with
    | some ⟨handle, .refreshed index fresh⟩, .refreshed => world.refreshed fileId handle index fresh
    | some ⟨handle, .ready index base⟩, .publish make => world.publish handle index base make
    | some ⟨handle, .ready index base⟩, .checkpoint => world.checkpoint engine serde handle index base
    | some ⟨_, .ready _ _⟩, .release => { world with writer := none }
    | some ⟨handle, .writing index base (.write write :: rest) _ target⟩, .begins =>
      world.setStage handle (.writing index base (.write write :: rest) true target)
    | some ⟨handle, .writing index base (.write write :: rest) _ target⟩, .write =>
      world.write handle index base write rest target
    | some ⟨handle, .writing index base (.sync :: rest) _ target⟩, .sync returned =>
      world.sync handle index base rest target returned
    | some ⟨handle, .writing index base [] _ target⟩, .finish => world.finish handle index base target
    | some ⟨handle, .failed base⟩, .settle => world.settle handle base
    | _, _ => world

def commitPublish (ops : List Op) (state : DocState) : Except StoreError Publish := do
  let (overlay, seq) ← stageOps engine state ops
  let frame ← encodeFrame serde seq ops
  .ok ⟨[frame], publishOverlay state overlay seq⟩

/-- The machine has no outputs: what a read answers stays in its phase. -/
def run (world : World) (events : List Event) : World := events.foldl (step engine serde fileId) world

end Step

end FerroLoop.Store.Readers

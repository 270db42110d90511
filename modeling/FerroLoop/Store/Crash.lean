import FerroLoop.Store.GroupSerial
import FerroLoop.Store.Inbound
import FerroLoop.Store.Publishing

/-!
Whole runs of a store file against a power cut. Any number of handles commit groups, apply
inbound batches, checkpoint and read; each request is a list of segments, the operations of one
publish each. A cut after any number of operations leaves a file that reopens to the state after
some of the publishes, those acknowledged among them.
-/

namespace FerroLoop.Store

open Checked Disk List

inductive Request where
  | write (members : List Body)
  | sync (batches : List SyncBatch)
  | checkpoint
  | read

/-- The operations of one publish, and the state it publishes; `none` when it gives up. -/
structure Segment where
  ops : List IoOp
  published : Option DocState

def publishAll (index : Nat) (base : DiskCache) (slot : Option DiskCache) :
    List Publish → List Segment × Option DiskCache
  | [] => ([], slot)
  | publish :: rest =>
    match publishFrames index base.sb publish.frames with
    | .ok (some (ops, sb)) =>
      let later := publishAll (otherSlot index) (commitEntry base sb publish.state)
        (installCommit slot base sb publish.state) rest
      (⟨ops, some publish.state⟩ :: later.1, later.2)
    | _ => ([], slot)

section Serve

variable (engine : Engine) (serde : SerdeJson) (fileId : FileId)

/-- A request of a handle that holds the lock and refreshed to `base` in slot `index`; `slot` is
its cache. -/
def serve (file : Image) (index : Nat) (base : DiskCache) (slot : Option DiskCache) :
    Request → List Segment × Option DiskCache
  | .write members => publishAll index base slot (runGroup engine serde (fun _ _ => none) base.state members).published
  | .sync batches =>
    match prepareSyncBatches engine serde base.state batches with
    | .error _ => ([], slot)
    | .ok (overlay, seq, prepared) =>
      match prepared.mapM fun frame => encodeFrame serde frame.1 frame.2 with
      | .error _ => ([], slot)
      | .ok frames => publishAll index base slot [⟨frames, publishOverlay base.state overlay seq⟩]
  | .checkpoint =>
    match writeCheckpoint engine serde file index base.sb base.state with
    | (ops, .ok sb) => ([⟨ops, some base.state⟩], installCheckpoint slot base sb)
    | (ops, .error _) => ([⟨ops, none⟩], slot)
  | .read => ([], slot)

structure World where
  file : Image
  caches : Nat → Option DiskCache

def refresh (world : World) (handle : Nat) : Except StoreError (Nat × DiskCache) := do
  let (index, sb) ← currentSuperblock world.file
  let base ← advance engine serde world.file fileId (world.caches handle) sb
  .ok (index, base)

def World.step (world : World) (event : Nat × Request) : World × List Segment :=
  match refresh engine serde fileId world event.1 with
  | .error _ => (world, [])
  | .ok (index, base) =>
    let served := serve engine serde world.file index base (installNewer (world.caches event.1) base fileId) event.2
    (⟨(Inode.exec ⟨world.file, []⟩ (served.1.flatMap Segment.ops)).live,
      fun handle => if handle = event.1 then served.2 else world.caches handle⟩, served.1)

def runSegments (world : World) (events : List (Nat × Request)) : List Segment :=
  (Machine.trace (World.step engine serde fileId) world events).flatMap Prod.snd

def freshFile (epoch : Nat) (state : DocState) : Except StoreError Image := do
  let blob ← encodeStateSnapshot serde engine state
  .ok (encodeSuperblock ⟨epoch, headerBytes, blob.length, headerBytes + blob.length, 0, state.lastSeq⟩ ++ blankSlot ++ blob)

def newStoreDocs : Docs := Docs.empty.insert schemaCollection schemaKey ⟨.number (.posInt 8), trivial⟩

def initEmpty : Except StoreError Image := freshFile engine serde 1 ⟨newStoreDocs, ∅, ∅, 0⟩

end Serve

/-- The states published by the segments whose operations are all among the first `ran`. -/
def acked : List Segment → Nat → List DocState
  | [], _ => []
  | segment :: rest, ran =>
    if segment.ops.length ≤ ran then segment.published.toList ++ acked rest (ran - segment.ops.length) else []

def OpsReadable (serde : SerdeJson) (ops : List Op) : Prop := ∀ op ∈ ops, ∀ value ∈ op.values, serde.Readable value

def Request.Readable (serde : SerdeJson) : Request → Prop
  | .write members => ∀ body ∈ members, ∀ (state : DocState) (ops : List Op), body state = .ok ops → OpsReadable serde ops
  | .sync batches => ∀ batch ∈ batches, OpsReadable serde batch.ops
  | _ => True

structure Place where
  file : Image
  index : Nat
  sb : Superblock
  state : DocState

def Superblock.walEnd (sb : Superblock) : Nat := sb.walOffset + sb.walLength

def Place.Stored (engine : Engine) (serde : SerdeJson) (place : Place) : Prop :=
  Store.Stored engine serde place.file place.index place.sb place.state

/-- One segment: the file it leaves names the state it published or the one before, so does the
file after a cut inside it, and nothing the file named is lost. -/
structure Segment.Leads (engine : Engine) (serde : SerdeJson) (segment : Segment) (here next : Place) : Prop where
  exec : Inode.exec ⟨here.file, []⟩ segment.ops = ⟨next.file, []⟩
  stored : next.Stored engine serde
  kept : Kept headerBytes here.sb.walEnd here.file next.file
  further : here.sb.walEnd ≤ next.sb.walEnd
  published : segment.published = some next.state ∨ (segment.published = none ∧ next.state = here.state)
  cut : ∀ final, Cut sector ⟨here.file, []⟩ segment.ops final →
    reopen engine serde final = .ok here.state ∨ reopen engine serde final = .ok next.state

inductive Chain (engine : Engine) (serde : SerdeJson) : Place → List Segment → Place → Prop
  | nil (here : Place) : Chain engine serde here [] here
  | cons {here next last : Place} {segment : Segment} {rest : List Segment} (first : segment.Leads engine serde here next)
    (others : Chain engine serde next rest last) : Chain engine serde here (segment :: rest) last

section Chain

variable {engine : Engine} {serde : SerdeJson} {here next last : Place} {segments : List Segment}

theorem Chain.append {more : List Segment} (first : Chain engine serde here segments next)
    (second : Chain engine serde next more last) : Chain engine serde here (segments ++ more) last := by
  induction first with
  | nil _ => exact second
  | cons step _ ih => exact .cons step (ih second)

theorem Chain.stored (chain : Chain engine serde here segments last) (stored : here.Stored engine serde) :
    last.Stored engine serde := by
  induction chain with
  | nil _ => exact stored
  | cons step _ ih => exact ih step.stored

theorem Chain.exec (chain : Chain engine serde here segments last) :
    Inode.exec ⟨here.file, []⟩ (segments.flatMap Segment.ops) = ⟨last.file, []⟩ := by
  induction chain with
  | nil _ => rfl
  | cons step _ ih =>
    rw [flatMap_cons, Inode.exec_append, step.exec]
    exact ih

theorem getLast_published {published : Option DocState} {before after : DocState} {later : List DocState}
    (step : published = some after ∨ (published = none ∧ after = before)) :
    (published.toList ++ later).getLast?.getD before = later.getLast?.getD after := by
  rcases step with rfl | ⟨rfl, rfl⟩
  · rw [Option.toList_some, getLast?_append]
    cases later.getLast? <;> rfl
  · rfl

/-- A cut after any number of operations leaves the state after some of the publishes, with every
publish whose operations had all run. -/
theorem Chain.cut (chain : Chain engine serde here segments last) (stored : here.Stored engine serde) {ran : Nat}
    {final : Image}
    (survivor : Survivor sector (Inode.exec ⟨here.file, []⟩ ((segments.flatMap Segment.ops).take ran)).durable
      (Inode.exec ⟨here.file, []⟩ ((segments.flatMap Segment.ops).take ran)).pending final) :
    ∃ front, acked segments ran <+: front ∧ front <+: segments.filterMap Segment.published ∧
      reopen engine serde final = .ok (front.getLast?.getD here.state) := by
  induction chain generalizing ran with
  | nil here =>
    rw [flatMap_nil, take_nil] at survivor
    cases survivor
    exact ⟨[], prefix_refl _, prefix_refl _, stored.reopen⟩
  | @cons here next last segment rest step _ ih =>
    have whole : (segment :: rest).filterMap Segment.published =
        segment.published.toList ++ rest.filterMap Segment.published := by
      rw [filterMap_cons]
      cases segment.published <;> rfl
    rw [flatMap_cons] at survivor
    rw [whole, acked]
    by_cases done : segment.ops.length ≤ ran
    · rw [take_append, take_of_length_le done, Inode.exec_append, step.exec] at survivor
      obtain ⟨front, least, most, reopened⟩ := ih step.stored survivor
      refine ⟨segment.published.toList ++ front, ?_, prefix_append_right_inj _ |>.mpr most, ?_⟩
      · rw [if_pos done]
        exact prefix_append_right_inj _ |>.mpr least
      · rw [reopened, getLast_published step.published]
    · rw [take_append_of_le_length (by omega)] at survivor
      rw [if_neg done]
      rcases step.cut final ⟨ran, survivor⟩ with before | after
      · exact ⟨[], nil_prefix, nil_prefix, before⟩
      refine ⟨segment.published.toList, nil_prefix, prefix_append _ _, ?_⟩
      have reached : (segment.published.toList ++ []).getLast?.getD here.state = next.state :=
        getLast_published step.published
      rw [append_nil] at reached
      rw [reached]
      exact after

end Chain

end FerroLoop.Store

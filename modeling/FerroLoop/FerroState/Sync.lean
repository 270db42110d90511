import FerroLoop.FerroState.Commits

/-!
Stores that synchronise through branches (`sync_state`): each sync fetches the tip, imports it, collects what
the branch does not have and pushes it by a compare-and-swap of the branch's head, and starts again when the
push is rejected. The parts of different syncs and the writes to the stores happen in any order.
-/

namespace FerroLoop.FerroState

open Std
open Workflow (At)

structure Job where
  target : StateSyncTarget
  branch : Nat
  tries : Nat
  tip : Nat
  base : BranchSnapshot

inductive Phase where
  | idle
  | ready (target : StateSyncTarget) (branch tries : Nat)
  | fetched (job : Job)
  | registered (job : Job)
  | imported (job : Job)
  | collected (job : Job) (seen : Store)

structure Peer where
  store : Store
  /-- `last_pushed_commit` of each branch, as the number of commits up to it. -/
  cursors : Nat → Nat
  phase : Phase

def Peer.empty : Peer := ⟨.empty, fun _ => 0, .idle⟩

structure World where
  peers : Nat → Peer
  branches : Nat → List BranchSnapshot

inductive Action where
  | write (peer : Nat) (event : Event)
  | register (peer : Nat) (op : RegistryOp)
  | begin (peer branch : Nat) (target : StateSyncTarget)
  | fetch (peer : Nat)
  | importRegistry (peer : Nat)
  | importState (peer : Nat) (now : At) (mint : Iri → Iri)
  | collect (peer : Nat)
  | push (peer : Nat) (receipts : List (List UInt8)) (otherFiles : Bool)

namespace World

def empty : World := ⟨fun _ => .empty, fun _ => []⟩

def setPeer (w : World) (i : Nat) (peer : Peer) : World := { w with peers := fun j => if j = i then peer else w.peers j }

def commit (w : World) (branch : Nat) (tree : BranchSnapshot) : World :=
  { w with branches := fun b => if b = branch then w.branches b ++ [tree] else w.branches b }

def proceed {α : Type} (w : World) (i : Nat) (x : Except StateSyncError α) (next : α → Peer) :
    World × Option (Except StateSyncError Unit) :=
  match x with
  | .ok a => (w.setPeer i (next a), none)
  | .error e => (w.setPeer i { w.peers i with phase := .idle }, some (.error e))

end World

def Peer.finished (peer : Peer) (branch commits : Nat) : Peer :=
  { peer with cursors := fun b => if b = branch then commits else peer.cursors b, phase := .idle }

section Step

variable (codec : Codec)

/-- The commit a sync would push. -/
def Job.publishes (job : Job) (seen : Store) (receipts : List (List UInt8)) : BranchSnapshot :=
  publishSnapshot codec job.base (unpublishedRevisions seen job.target job.base) (unpublishedEvents seen job.target job.base)
    receipts

def pushJob (w : World) (i : Nat) (job : Job) (seen : Store) (receipts : List (List UInt8)) (otherFiles : Bool) :
    World × Option (Except StateSyncError Unit) :=
  if (unpublishedRevisions seen job.target job.base).isEmpty ∧ (unpublishedEvents seen job.target job.base).isEmpty ∧
      receipts.isEmpty ∧ otherFiles = false then
    (w.setPeer i ((w.peers i).finished job.branch job.tip), some (.ok ()))
  else if (w.branches job.branch).length = job.tip then
    ((w.commit job.branch (job.publishes codec seen receipts)).setPeer i ((w.peers i).finished job.branch (job.tip + 1)),
      some (.ok ()))
  else if job.tries + 1 < maxCasTries then
    (w.setPeer i { w.peers i with phase := .ready job.target job.branch (job.tries + 1) }, none)
  else (w.setPeer i { w.peers i with phase := .idle }, some (.error (.contended maxCasTries)))

def World.step (w : World) : Action → World × Option (Except StateSyncError Unit)
  | .write i event =>
    let peer := w.peers i
    (w.setPeer i { peer with store := { peer.store with state := (FerroState.step peer.store.state event).1 } }, none)
  | .register i op =>
    let peer := w.peers i
    (w.setPeer i { peer with store := { peer.store with registry := (Registry.step peer.store.registry op).1 } }, none)
  | .begin i branch target =>
    match (w.peers i).phase with
    | .idle => (w.setPeer i { w.peers i with phase := .ready target branch 0 }, none)
    | _ => (w, none)
  | .fetch i =>
    match (w.peers i).phase with
    | .ready target branch tries =>
      w.proceed i (fetchBranch codec (w.branches branch) ((w.peers i).cursors branch)) fun base =>
        { w.peers i with phase := .fetched ⟨target, branch, tries, (w.branches branch).length, base⟩ }
    | _ => (w, none)
  | .importRegistry i =>
    match (w.peers i).phase with
    | .fetched job =>
      w.proceed i (FerroState.importRegistry (w.peers i).store job.target job.base) fun store =>
        { w.peers i with store, phase := .registered job }
    | _ => (w, none)
  | .importState i now mint =>
    match (w.peers i).phase with
    | .registered job =>
      w.proceed i (FerroState.importState (w.peers i).store job.target job.base now mint) fun store =>
        { w.peers i with store, phase := .imported job }
    | _ => (w, none)
  | .collect i =>
    match (w.peers i).phase with
    | .imported job =>
      w.proceed i (FerroState.collect (w.peers i).store job.target job.base) fun _ =>
        { w.peers i with phase := .collected job (w.peers i).store }
    | _ => (w, none)
  | .push i receipts otherFiles =>
    match (w.peers i).phase with
    | .collected job seen => pushJob codec w i job seen receipts otherFiles
    | _ => (w, none)

end Step

end FerroLoop.FerroState

import FerroLoop.FerroState.Registry
import FerroLoop.FerroState.StateStore

/-!
The branch two stores synchronise through (`crates/exec/src/state_sync.rs`): what a commit holds, how it is
read back and checked, and how new lines are filed. The segments of an entry are numbered from 0 without a
gap, so they are a list; the hash of an entry id and the text of a line are parameters.
-/

namespace FerroLoop.FerroState

open Std Checked
open Workflow (At)

structure Codec where
  entryIdHash : Iri → String
  revisionLine : StateRevision → List UInt8
  eventLine : RegistryEvent → List UInt8

def maxSegmentBytes : Nat := 262144

def maxCasTries : Nat := 5

def readableSegments : Nat := 10000

structure BranchSnapshot where
  areas : List RegistryEvent
  agents : List RegistryEvent
  segments : ExtTreeMap String (List (List StateRevision)) compare
  receipts : List (List (List UInt8))

namespace BranchSnapshot

def empty : BranchSnapshot := ⟨[], [], ∅, []⟩

def revisions (snap : BranchSnapshot) : List StateRevision := snap.segments.toList.flatMap fun files => files.2.flatten

def registryEvents (snap : BranchSnapshot) : List RegistryEvent := snap.agents ++ snap.areas

end BranchSnapshot

inductive StateSyncError where
  | store (error : StoreError)
  | registry (error : RegistryError)
  | sensitiveDisclosure (entry : Iri)
  | nonFastForward
  | historyTampered (path : String)
  | contended (tries : Nat)
  deriving DecidableEq

def liftStore {α : Type} (x : Except StoreError α) : Except StateSyncError α := x.mapError .store

def liftRegistry {α : Type} (x : Except RegistryError α) : Except StateSyncError α := x.mapError .registry

section Files

variable {α : Type} (line : α → List UInt8)

def render (file : List α) : List UInt8 := file.flatMap fun item => line item ++ [10]

def fileLength (file : List α) : Nat := (render line file).length

def appendToSegments (files : List (List α)) (item : α) : List (List α) :=
  match files.getLast? with
  | none => [[item]]
  | some last =>
    if 0 < fileLength line last ∧ maxSegmentBytes < fileLength line last + (line item).length + 1 then files ++ [[item]]
    else files.dropLast ++ [last ++ [item]]

/-- Every file is there again with the bytes it had in front. -/
def extendsFiles (before after : List (List α)) : Bool :=
  before.length ≤ after.length ∧ (before.zip after).all fun files => (render line files.1).isPrefixOf (render line files.2)

def withinLimit (file : List α) : Bool := file.length ≤ 1 ∨ fileLength line file ≤ maxSegmentBytes

end Files

section Snapshots

variable (codec : Codec)

/-- `append_revision_to_segments`. -/
def appendRevisionToSegments (segments : ExtTreeMap String (List (List StateRevision)) compare) (rev : StateRevision) :
    ExtTreeMap String (List (List StateRevision)) compare :=
  let hash := codec.entryIdHash rev.entryId
  segments.insert hash (appendToSegments codec.revisionLine (segments[hash]?.getD []) rev)

/-- What the reader finds in a commit: files with a longer number are passed over. -/
def readable (tree : BranchSnapshot) : BranchSnapshot :=
  { tree with
    segments := tree.segments.map fun _ files => files.take readableSegments
    receipts := tree.receipts.take readableSegments }

/-- `load_snapshot`. -/
def loadSnapshot (tree : BranchSnapshot) : Except StateSyncError BranchSnapshot := do
  let snap := readable tree
  refuseIf
    (snap.segments.toList.any fun files => files.2.any fun file => file.any fun rev => codec.entryIdHash rev.entryId != files.1)
    (.historyTampered "revisions")
  refuseIf (snap.segments.toList.any fun files => files.2.any fun file => !withinLimit codec.revisionLine file)
    (.historyTampered "revisions")
  refuseIf (snap.receipts.any fun file => !withinLimit id file) (.historyTampered "wire/receipts")
  return snap

def verifyAppendOnlyStep (prev next : BranchSnapshot) : Except StateSyncError Unit := do
  refuseIf (!(render codec.eventLine prev.areas).isPrefixOf (render codec.eventLine next.areas))
    (.historyTampered "areas.jsonl")
  refuseIf (!(render codec.eventLine prev.agents).isPrefixOf (render codec.eventLine next.agents))
    (.historyTampered "agents.jsonl")
  refuseIf
    (prev.segments.toList.any fun files => !extendsFiles codec.revisionLine files.2 (next.segments[files.1]?.getD []))
    (.historyTampered "revisions")
  refuseIf (!extendsFiles id prev.receipts next.receipts) (.historyTampered "wire/receipts")

/-- The commits after the last one a store has pushed or seen, each checked against the one before it. -/
def verifyCommits : BranchSnapshot → List BranchSnapshot → Except StateSyncError BranchSnapshot
  | prev, [] => .ok prev
  | prev, tree :: rest => do
    let next ← loadSnapshot codec tree
    verifyAppendOnlyStep codec prev next
    verifyCommits next rest

def loadPushed (branch : List BranchSnapshot) (lastPushed : Nat) : Except StateSyncError BranchSnapshot :=
  match (branch.take lastPushed).getLast? with
  | some tree => loadSnapshot codec tree
  | none => .ok .empty

def fetchBranch (branch : List BranchSnapshot) (lastPushed : Nat) : Except StateSyncError BranchSnapshot := do
  refuseIf (branch.length < lastPushed) .nonFastForward
  let known ← loadPushed codec branch lastPushed
  verifyCommits codec known (branch.drop lastPushed)

/-- The next commit: what was read, and the new lines behind it. -/
def publishSnapshot (base : BranchSnapshot) (revs : List StateRevision) (events : List RegistryEvent)
    (receipts : List (List UInt8)) : BranchSnapshot where
  areas := base.areas ++ events.filter fun ev =>
    match ev.kind with
    | .areaUpsert _ | .areaDelete _ => true
    | _ => false
  agents := base.agents ++ events.filter fun ev =>
    match ev.kind with
    | .areaUpsert _ | .areaDelete _ => false
    | _ => true
  segments := revs.foldl (appendRevisionToSegments codec) base.segments
  receipts := receipts.foldl (appendToSegments id) base.receipts

end Snapshots

def byId (revs : List StateRevision) : List StateRevision :=
  ((revs.foldl (fun (held : ExtTreeMap Iri StateRevision compare) rev => held.insert rev.revisionId rev) ∅).toList).map Prod.snd

/-- The rounds of `topo_sort_revisions`: those whose parents are not waiting go first. -/
def topoRounds : Nat → List StateRevision → List StateRevision
  | 0, remaining => remaining
  | fuel + 1, remaining =>
    let waits (rev : StateRevision) : Bool :=
      rev.parentRevisions.any fun parent => remaining.any fun held => held.revisionId == parent
    let ready := remaining.filter fun rev => !waits rev
    if ready.isEmpty then remaining else ready ++ topoRounds fuel (remaining.filter waits)

def topoSortRevisions (revs : List StateRevision) : List StateRevision := topoRounds revs.length (byId revs)

structure StateSyncTarget where
  isPrivate : Bool
  scopeFilter : Option StateScope
  syncRegistry : Bool

structure Store where
  state : StateStore
  registry : Registry

def Store.empty : Store := ⟨.empty, .empty⟩

def StateRevision.marked (rev : StateRevision) : Bool := rev.sensitive || rev.everSensitive

def refuseSensitive (target : StateSyncTarget) (revs : List StateRevision) : Except StateSyncError Unit :=
  if target.isPrivate then .ok ()
  else
    match revs.find? StateRevision.marked with
    | some rev => .error (.sensitiveDisclosure rev.entryId)
    | none => .ok ()

def StateSyncTarget.covers (target : StateSyncTarget) (scope : StateScope) : Bool :=
  match target.scopeFilter with
  | none => true
  | some want => decide (scope = want)

section

variable (store : Store) (target : StateSyncTarget)

section

variable (base : BranchSnapshot)

def importRegistry : Except StateSyncError Store :=
  if target.syncRegistry then do
    let registry ← liftRegistry (store.registry.importRegistryEvents base.registryEvents)
    return { store with registry }
  else .ok store

/-- Step 3, the revisions; `mint` gives the id of the merge that an imported revision needs. -/
def importState (now : At) (mint : Iri → Iri) : Except StateSyncError Store := do
  let ordered := topoSortRevisions base.revisions
  refuseSensitive target ordered
  let state ← liftStore (store.state.importStateRevisions now (ordered.map fun rev => (rev, mint rev.revisionId)))
  return { store with state }

def unpublishedRevisions : List StateRevision :=
  store.state.revisions.filter fun rev =>
    target.covers rev.scope && !(base.revisions.any fun held => held.revisionId == rev.revisionId)

def unpublishedEvents : List RegistryEvent :=
  if target.syncRegistry then
    store.registry.events.filter fun ev => !(base.registryEvents.any fun held => held.eventId == ev.eventId)
  else []

end

def refuseSensitiveEntries : Except StateSyncError Unit :=
  if target.isPrivate then .ok ()
  else
    match (store.state.entries.toList.map Prod.snd).find? fun entry =>
        target.covers entry.scope && (entry.sensitive || entry.everSensitive) with
    | some entry => .error (.sensitiveDisclosure entry.id)
    | none => .ok ()

/-- Step 4: what is to be published. -/
def collect (base : BranchSnapshot) : Except StateSyncError (List StateRevision × List RegistryEvent) := do
  refuseSensitiveEntries store target
  let revs := unpublishedRevisions store target base
  refuseSensitive target revs
  return (revs, unpublishedEvents store target base)

end

end FerroLoop.FerroState

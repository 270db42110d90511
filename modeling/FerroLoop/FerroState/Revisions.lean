import FerroLoop.FerroState.Ids
import FerroLoop.Workflow.Definition

/-!
State entries and the graph of their revisions (`crates/core/src/state.rs`). A JSON value is held as its
compact text, an array as the texts of its items.
-/

namespace FerroLoop.FerroState

open Std Text Checked
open Agents (StateError validateSummary)
open Workflow (MergeMode At)

inductive StateScope where
  | workspace
  | group (slug : String)
  | project (slug : String)
  | agent (slug : String)
  | workflow (slug : String)
  deriving DecidableEq

inductive StateConcern where
  | memory
  | handoff
  | runtime
  deriving DecidableEq

def StateScope.words : StateScope → List String
  | .workspace => ["workspace", ""]
  | .group slug => ["group", slug]
  | .project slug => ["project", slug]
  | .agent slug => ["agent", slug]
  | .workflow slug => ["workflow", slug]

def StateConcern.asWire : StateConcern → String
  | .memory => "memory"
  | .handoff => "handoff"
  | .runtime => "runtime"

/-- What `state_keys` is keyed by. -/
structure Key where
  scope : StateScope
  concern : StateConcern
  slug : String
  deriving DecidableEq

def Key.words (key : Key) : List String := key.scope.words ++ [key.concern.asWire, key.slug]

theorem Key.words_injective {a b : Key} (same : a.words = b.words) : a = b := by
  obtain ⟨scopeA, concernA, slugA⟩ := a
  obtain ⟨scopeB, concernB, slugB⟩ := b
  cases scopeA <;> cases scopeB <;> cases concernA <;> cases concernB <;>
    simp_all [Key.words, StateScope.words, StateConcern.asWire]

instance : Ord Key := ⟨compareOn Key.words⟩

instance : TransOrd Key := inferInstanceAs (TransCmp (compareOn Key.words))

instance : LawfulEqOrd Key where
  eq_of_compare same := Key.words_injective (LawfulEqOrd.eq_of_compare same)

def maxBodyBytes : Nat := 256 * 1024

def maxNotesBytes : Nat := 64 * 1024

inductive MemoryCategory where
  | warning
  | rule
  | decision
  | note
  deriving DecidableEq

inductive MemoryBasis where
  | ruling
  | measured
  | inference
  deriving DecidableEq

inductive MemoryLifecycle where
  | active
  | retired
  | superseded
  deriving DecidableEq

def MemoryLifecycle.asWire : MemoryLifecycle → String
  | .active => "active"
  | .retired => "retired"
  | .superseded => "superseded"

structure MemoryEntry where
  category : MemoryCategory
  basis : MemoryBasis
  lifecycle : MemoryLifecycle
  supersededBy : Option Iri
  pinned : Bool
  summary : String
  body : String
  deriving DecidableEq

def MemoryEntry.validate (memory : MemoryEntry) (entryId : Iri) : Except StateError Unit := do
  let _ ← validateSummary memory.summary
  refuseIf (maxBodyBytes < memory.body.utf8ByteSize) (.bodyTooLarge memory.body.utf8ByteSize)
  refuseIf (memory.supersededBy = some entryId) (.selfSupersede entryId)
  match memory.lifecycle, memory.supersededBy with
  | .superseded, none => throw .supersededRequiresTarget
  | .active, some _ | .retired, some _ => throw (.unexpectedSupersededBy memory.lifecycle.asWire)
  | _, _ => return ()

structure HandoffEntry where
  summary : String
  shipped : List String
  inFlight : List String
  blockers : List String
  nextSteps : List String
  notes : Option String
  deriving DecidableEq

def HandoffEntry.validate (handoff : HandoffEntry) : Except StateError Unit := do
  let _ ← validateSummary handoff.summary
  match handoff.notes with
  | some notes => refuseIf (maxNotesBytes < notes.utf8ByteSize) (.notesTooLarge notes.utf8ByteSize)
  | none => return ()

inductive Value where
  | array (items : List String)
  | other (text : String)
  deriving DecidableEq

def Value.encodedLength : Value → Nat
  | .array items => (items.map String.utf8ByteSize).sum + (items.length - 1) + 2
  | .other text => text.utf8ByteSize

def Value.asArray : Value → Option (List String)
  | .array items => some items
  | .other _ => none

structure RuntimeEntry where
  value : Value
  mergeMode : MergeMode
  deriving DecidableEq

def RuntimeEntry.validate (runtime : RuntimeEntry) : Except StateError Unit := do
  refuseIf (runtime.mergeMode = .append ∧ runtime.value.asArray = none) .appendRequiresArray
  refuseIf (maxBodyBytes < runtime.value.encodedLength) (.runtimeValueTooLarge runtime.value.encodedLength)

inductive StatePayload where
  | memory (entry : MemoryEntry)
  | handoff (entry : HandoffEntry)
  | runtime (entry : RuntimeEntry)
  deriving DecidableEq

def StatePayload.concern : StatePayload → StateConcern
  | .memory _ => .memory
  | .handoff _ => .handoff
  | .runtime _ => .runtime

def StatePayload.validate (payload : StatePayload) (entryId : Iri) : Except StateError Unit :=
  match payload with
  | .memory entry => entry.validate entryId
  | .handoff entry => entry.validate
  | .runtime entry => entry.validate

def StatePayload.supersededBy : StatePayload → Option Iri
  | .memory entry => entry.supersededBy
  | _ => none

/-! ### Entries, revisions and conflicts -/

structure StateEntry where
  id : Iri
  scope : StateScope
  concern : StateConcern
  slug : String
  sensitive : Bool
  everSensitive : Bool
  payload : StatePayload
  headRevision : Iri
  updatedAt : At
  by_ : String
  deriving DecidableEq

def StateEntry.key (entry : StateEntry) : Key := ⟨entry.scope, entry.concern, entry.slug⟩

structure StateRevision where
  revisionId : Iri
  entryId : Iri
  parentRevisions : List Iri
  scope : StateScope
  concern : StateConcern
  slug : String
  sensitive : Bool
  everSensitive : Bool
  payload : StatePayload
  at_ : At
  by_ : String
  deriving DecidableEq

def StateRevision.key (rev : StateRevision) : Key := ⟨rev.scope, rev.concern, rev.slug⟩

structure StateConflict where
  entryId : Iri
  localHead : Iri
  remoteHead : Iri
  detectedAt : At
  deriving DecidableEq

def parentsIn (revs : List StateRevision) (id : Iri) : List Iri :=
  match revs.find? fun rev => rev.revisionId = id with
  | some rev => rev.parentRevisions
  | none => []

/-- The nodes a search from one revision visits, in the order of the queue. Each but the first is pushed for
a parent of a revision of the graph. -/
def ancestors (revs : List StateRevision) (start : Iri) : List Iri :=
  Worklist.search (parentsIn revs) ((revs.flatMap StateRevision.parentRevisions).length + 1) [start] [start]

def isAncestorInDag (candidate start : Iri) (revs : List StateRevision) : Bool :=
  decide (candidate ∈ ancestors revs start)

/-- The first node of a search from `a` that a search from `b` visits. -/
def lowestCommonAncestorInDag (a b : Iri) (revs : List StateRevision) : Option Iri :=
  (ancestors revs a).find? fun id => decide (id ∈ ancestors revs b)

def sortedParents (a b : Iri) : List Iri := if b < a then [b, a] else [a, b]

/-- What is new in `remote` since the base, behind what `local` holds. -/
def computeAppendMerge (base ours remote : List String) : List String :=
  remote.foldl (fun merged item => if item ∈ base ∨ item ∈ merged then merged else merged ++ [item]) ours

def computeLastWriterMerge (ours remote : StateRevision) : StateRevision :=
  if remote.at_ < ours.at_ ∨ (remote.at_ = ours.at_ ∧ remote.revisionId < ours.revisionId) then ours else remote

/-- `a` is `b` or an ancestor of it. -/
def Ancestor (revs : List StateRevision) (a b : Iri) : Prop :=
  Relation.ReflTransGen (Worklist.Leads (parentsIn revs)) b a

section Reachability

variable {revs : List StateRevision}

theorem parentsIn_subset (revs : List StateRevision) (id : Iri) :
    parentsIn revs id ⊆ revs.flatMap StateRevision.parentRevisions := by
  unfold parentsIn
  cases found : revs.find? fun rev => rev.revisionId = id with
  | none => exact List.nil_subset _
  | some rev => exact fun parent member => List.mem_flatMap.mpr ⟨rev, List.mem_of_find?_eq_some found, member⟩

variable {a b : Iri}

theorem mem_ancestors : a ∈ ancestors revs b ↔ Ancestor revs a b :=
  Worklist.mem_search (parentsIn_subset revs) (Nat.le_refl _) b a

theorem isAncestorInDag_iff : isAncestorInDag a b revs = true ↔ Ancestor revs a b := by
  unfold isAncestorInDag
  rw [decide_eq_true_iff, mem_ancestors]

theorem Ancestor.self (a : Iri) : Ancestor revs a a := .refl

theorem Ancestor.trans {c : Iri} (first : Ancestor revs a b) (second : Ancestor revs b c) : Ancestor revs a c :=
  Relation.ReflTransGen.trans second first

theorem Ancestor.of_parent (parent : a ∈ parentsIn revs b) : Ancestor revs a b :=
  .single parent

theorem Ancestor.mono {more : List StateRevision} (kept : ∀ id, parentsIn revs id ⊆ parentsIn more id)
    (path : Ancestor revs a b) : Ancestor more a b := by
  induction path with
  | refl => exact .refl
  | tail _ leads ih => exact ih.tail (kept _ leads)

end Reachability

end FerroLoop.FerroState

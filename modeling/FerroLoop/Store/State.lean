import FerroLoop.Lib.Map
import FerroLoop.Store.Collections

/-!
The document state, the overlay a transaction stages its operations in, and the two ways a list
of operations reaches a state: a commit stages all of them and applies the overlay, a replay
applies them one by one.
-/

namespace FerroLoop.Store

instance ordPair : Ord (String × String) := lexOrd

inductive Op where
  | put (collection id : String) (doc : Value)
  | delete (collection id : String)
  | createColumnTable (name : String) (columns : List ColumnDef)
  | appendColumnGroup (name : String) (bytes : List UInt8)
  | createVectorCollection (name : String) (params : VectorParams)
  | upsertVector (collection id : String) (bytes : List UInt8) (metadata : Option Value)
  | deleteVector (collection id : String)

def Op.values : Op → List Value
  | .put _ _ doc => [doc]
  | .upsertVector _ _ _ metadata => metadata.toList
  | _ => []

abbrev Collection := BTreeMap String Value

/-- Staged puts (`some`) and deletes (`none`) of one collection, in id order. -/
abbrev DocChanges := List (String × Option Value)

abbrev Tables := BTreeMap String ColumnTable

abbrev Vectors := BTreeMap String VectorCollection

structure Docs where
  nested : BTreeMap String Collection
  filled : ∀ (collection : String) (docs : Collection), nested[collection]? = some docs → docs ≠ ∅

namespace Docs

def empty : Docs := ⟨∅, by intro _ _ held; rw [Std.ExtTreeMap.getElem?_empty] at held; cases held⟩

def get (docs : Docs) (collection id : String) : Option Value :=
  (docs.nested[collection]?).bind fun held => held[id]?

section

variable (docs : Docs) (collection : String)

def inCollection : List (String × Value) :=
  match docs.nested[collection]? with
  | some held => held.toList
  | none => []

def replace (held : Collection) : Docs :=
  if empty : held.isEmpty then
    ⟨docs.nested.erase collection, by
      intro other others found
      rw [Map.getElem?_erase] at found
      split at found
      · cases found
      · exact docs.filled other others found⟩
  else
    ⟨docs.nested.insert collection held, by
      intro other others found
      rcases Map.insert_cases found with ⟨_, rfl⟩ | ⟨_, found⟩
      · intro none
        exact empty (Std.ExtTreeMap.isEmpty_iff.mpr none)
      · exact docs.filled other others found⟩

def insert (docs : Docs) (collection id : String) (doc : Value) : Docs :=
  docs.replace collection (((docs.nested[collection]?).getD ∅).insert id doc)

def remove (docs : Docs) (collection id : String) : Docs :=
  match docs.nested[collection]? with
  | none => docs
  | some held => if held.contains id then docs.replace collection (held.erase id) else docs

def change (held : Collection) : String × Option Value → Collection
  | (id, some doc) => held.insert id doc
  | (id, none) => held.erase id

def applyCollection (changes : DocChanges) : Docs :=
  let held := docs.nested[collection]?
  let changesSomething := changes.any fun (id, doc) => doc.isSome || held.any fun docs => docs.contains id
  if changesSomething then docs.replace collection (changes.foldl change (held.getD ∅)) else docs

end

/-- Every staged change in key order, gathered collection by collection; `pending` is the
collection being gathered. -/
def applyChanges (docs : Docs) (pending : Option (String × DocChanges)) :
    List ((String × String) × Option Value) → Docs
  | [] =>
    match pending with
    | some (current, changes) => docs.applyCollection current changes
    | none => docs
  | ((collection, id), doc) :: rest =>
    match pending with
    | some (current, changes) =>
      if current = collection then docs.applyChanges (some (current, changes ++ [(id, doc)])) rest
      else (docs.applyCollection current changes).applyChanges (some (collection, [(id, doc)])) rest
    | none => docs.applyChanges (some (collection, [(id, doc)])) rest

end Docs

structure DocState where
  docs : Docs
  tables : Tables
  vectors : Vectors
  lastSeq : Nat

def DocState.atSeq (seq : Nat) : DocState := ⟨Docs.empty, ∅, ∅, seq⟩

/-- One column table's staged change: its columns when the overlay creates it, and the row
groups appended after the base's. -/
structure TableStage where
  created : Option (List ColumnDef)
  groups : List (List UInt8)

structure Overlay where
  docs : BTreeMap (String × String) (Option Value)
  tables : BTreeMap String TableStage
  vectors : Vectors

namespace Overlay

def empty : Overlay := ⟨∅, ∅, ∅⟩

section

variable (overlay : Overlay)

def put (collection id : String) (doc : Value) : Overlay :=
  { overlay with docs := overlay.docs.insert (collection, id) (some doc) }

def delete (collection id : String) : Overlay :=
  { overlay with docs := overlay.docs.insert (collection, id) none }

def tableColumns (base : DocState) (name : String) : Option (List ColumnDef) :=
  match (overlay.tables[name]?).bind TableStage.created with
  | some columns => some columns
  | none => (base.tables[name]?).map ColumnTable.columns

def recordTableCreate (name : String) (columns : List ColumnDef) : Overlay :=
  { overlay with tables := overlay.tables.insert name ⟨some columns, []⟩ }

def recordTableAppend (name : String) (bytes : List UInt8) : Overlay :=
  let stage := (overlay.tables[name]?).getD ⟨none, []⟩
  { overlay with tables := overlay.tables.insert name { stage with groups := stage.groups ++ [bytes] } }

def vector (base : DocState) (name : String) : Option VectorCollection :=
  match overlay.vectors[name]? with
  | some collection => some collection
  | none => base.vectors[name]?

def stagedVectors (base : DocState) (collection : String) : Except StoreError VectorCollection :=
  match overlay.vector base collection with
  | some held => .ok held
  | none => .error (backend s!"no vector collection `{collection}`")

def setVector (name : String) (collection : VectorCollection) : Overlay :=
  { overlay with vectors := overlay.vectors.insert name collection }

end

def stage (engine : Engine) (overlay : Overlay) (base : DocState) : Op → Except StoreError Overlay
  | .put collection id doc => .ok (overlay.put collection id doc)
  | .delete collection id => .ok (overlay.delete collection id)
  | .createColumnTable name columns => do
    checkNewTable (overlay.tableColumns base name).isSome name columns
    .ok (overlay.recordTableCreate name columns)
  | .appendColumnGroup name bytes =>
    match overlay.tableColumns base name with
    | none => .error (corrupt s!"append to missing column table `{name}`")
    | some columns => do
      engine.validateRowGroup columns bytes
      .ok (overlay.recordTableAppend name bytes)
  | .createVectorCollection name params => do
    checkCreate name params
    if (overlay.vector base name).isSome then .error (backend s!"vector collection `{name}` already exists")
    else .ok (overlay.setVector name (VectorCollection.empty params))
  | .upsertVector collection id bytes metadata => do
    let held ← overlay.stagedVectors base collection
    let next ← engine.upsert held id bytes metadata
    .ok (overlay.setVector collection next)
  | .deleteVector collection id => do
    let held ← overlay.stagedVectors base collection
    let next ← engine.deleteId held id
    .ok (overlay.setVector collection next)

def applyTable (tables : Tables) : String × TableStage → Tables
  | (name, ⟨some columns, groups⟩) => tables.insert name ⟨columns, groups⟩
  | (name, ⟨none, groups⟩) =>
    match tables[name]? with
    | some table => tables.insert name { table with groups := table.groups ++ groups }
    | none => tables

def apply (overlay : Overlay) (state : DocState) : DocState where
  docs := state.docs.applyChanges none overlay.docs.toList
  tables := overlay.tables.toList.foldl applyTable state.tables
  vectors := overlay.vectors.toList.foldl (fun vectors entry => vectors.insert entry.1 entry.2) state.vectors
  lastSeq := state.lastSeq

def stageAll (engine : Engine) (base : DocState) (overlay : Overlay) (ops : List Op) : Except StoreError Overlay :=
  ops.foldlM (fun overlay op => overlay.stage engine base op) overlay

end Overlay

def u64Max : Nat := 2 ^ 64

/-- `u64::checked_add`. -/
def checkedAdd (a b : Nat) : Option Nat := if a + b < u64Max then some (a + b) else none

def nextSeq (state : DocState) : Except StoreError Nat :=
  match checkedAdd state.lastSeq 1 with
  | some seq => .ok seq
  | none => .error (backend "transaction sequence overflow")

def stageOps (engine : Engine) (state : DocState) (ops : List Op) : Except StoreError (Overlay × Nat) := do
  let seq ← nextSeq state
  let overlay ← Overlay.empty.stageAll engine state ops
  .ok (overlay, seq)

def publishOverlay (state : DocState) (overlay : Overlay) (seq : Nat) : DocState :=
  { overlay.apply state with lastSeq := seq }

section

variable (engine : Engine) (state : DocState)

def commitOps (ops : List Op) : Except StoreError DocState :=
  if ops.isEmpty then .ok state
  else do
    let (overlay, seq) ← stageOps engine state ops
    .ok (publishOverlay state overlay seq)

/-- One replayed operation. -/
def applyOp : Op → Except StoreError DocState
  | .put collection id doc => .ok { state with docs := state.docs.insert collection id doc }
  | .delete collection id => .ok { state with docs := state.docs.remove collection id }
  | .createColumnTable name columns => do
    checkNewTable (state.tables.contains name) name columns
    .ok { state with tables := state.tables.insert name ⟨columns, []⟩ }
  | .appendColumnGroup name bytes =>
    match state.tables[name]? with
    | none => .error (corrupt s!"append to missing column table `{name}`")
    | some table => do
      engine.validateRowGroup table.columns bytes
      .ok { state with tables := state.tables.insert name { table with groups := table.groups ++ [bytes] } }
  | .createVectorCollection name params => do
    checkCreate name params
    if state.vectors.contains name then .error (backend s!"vector collection `{name}` already exists")
    else .ok { state with vectors := state.vectors.insert name (VectorCollection.empty params) }
  | .upsertVector collection id bytes metadata =>
    match state.vectors[collection]? with
    | none => .error (backend s!"no vector collection `{collection}`")
    | some held => do
      let next ← engine.upsert held id bytes metadata
      .ok { state with vectors := state.vectors.insert collection next }
  | .deleteVector collection id =>
    match state.vectors[collection]? with
    | none => .error (backend s!"no vector collection `{collection}`")
    | some held => do
      let next ← engine.deleteId held id
      .ok { state with vectors := state.vectors.insert collection next }

def applyOps (ops : List Op) : Except StoreError DocState :=
  ops.foldlM (applyOp engine) state

end

abbrev Frame := Nat × List Op

/-- The sequences of the frames: not zero, strictly increasing, and past the snapshot each one
more than the last. -/
def checkSequences (snapshotSeq : Nat) (previous : Option Nat) (expect : Nat) :
    List Frame → Except StoreError Unit
  | [] => .ok ()
  | (seq, _) :: rest =>
    if seq = 0 then .error (corrupt "wal sequence is zero")
    else if previous.any fun prev => decide (seq ≤ prev) then
      .error (corrupt s!"wal sequence is not strictly increasing: previous {previous.getD 0}, found {seq}")
    else if seq ≤ snapshotSeq then checkSequences snapshotSeq (some seq) expect rest
    else
      match checkedAdd expect 1 with
      | none => .error (corrupt "transaction sequence overflow")
      | some expect =>
        if seq ≠ expect then
          .error (corrupt s!"wal sequence gap or duplicate: expected {expect}, found {seq}")
        else checkSequences snapshotSeq (some seq) expect rest

def applyFrame (engine : Engine) (snapshotSeq : Nat) (state : DocState) (frame : Frame) :
    Except StoreError DocState :=
  if frame.1 ≤ snapshotSeq then .ok state
  else do
    let next ← applyOps engine state frame.2
    .ok { next with lastSeq := frame.1 }

def applyFrames (engine : Engine) (state : DocState) (snapshotSeq : Nat) (frames : List Frame) :
    Except StoreError DocState := do
  checkSequences snapshotSeq none snapshotSeq frames
  frames.foldlM (applyFrame engine snapshotSeq) state

end FerroLoop.Store

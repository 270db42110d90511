import Std.Data.ExtTreeMap
import FerroLoop.Store.Value
import Mathlib.Algebra.Ring.Nat

/-!
Column tables and vector collections, the checks a new one passes, and the structural checks of
a vector graph. The row-group decoder and what computes in floating point are the fields of
`Engine`.
-/

namespace FerroLoop.Store

/-- Rust's `BTreeMap`: equal when it holds the same entries. -/
abbrev BTreeMap (κ ν : Type) [Ord κ] := Std.ExtTreeMap κ ν compare

inductive StoreError where
  | backend (detail : String)
  /-- A slot that a newer build wrote; the message is without the store's path. -/
  | containerFormat (found engine unknownIncompat : Nat)
  | formatVersion (found : Option Nat) (oldest newest : Nat)
  | decode (detail : String)
deriving DecidableEq

def formatVersionMessage (found : Option Nat) (oldest newest : Nat) : String :=
  let older (held : String) : String :=
    s!"the store holds format {held}, and this version of fl reads formats {oldest} to {newest}. There is no " ++
      "migration: start a new store, or keep using the version of fl that wrote this one."
  match found with
  | some version =>
    if newest < version then
      s!"the store holds format {version}, which a newer fl wrote, and this version of fl reads formats {oldest} to " ++
        s!"{newest}. Upgrade fl to open it: nothing is wrong with the store."
    else older (toString version)
  | none => older "none (written before format versioning)"

def containerFormatMessage (found engine unknownIncompat : Nat) : String :=
  let engineText := if engine ≠ 0 then s!", engine {engine}" else ""
  let featureText :=
    if unknownIncompat ≠ 0 then ", feature bits 0x" ++ String.ofList (Nat.toDigits 16 unknownIncompat) else ""
  s!"this FerroStore file uses container format {found}" ++ engineText ++ featureText ++
    ", which a newer fl wrote; this version of fl reads container formats 1 to 2 with engine 0 and no feature bits. " ++
    "Upgrade fl to open it: nothing is wrong with the store."

def StoreError.display : StoreError → String
  | .backend detail => "backend failure: " ++ detail
  | .containerFormat found engine unknownIncompat => containerFormatMessage found engine unknownIncompat
  | .formatVersion found oldest newest => formatVersionMessage found oldest newest
  | .decode detail =>
    s!"a stored record could not be read: {detail}. Two things produce this and the message cannot tell them apart. " ++
      "Either the store was written by a version of this tool whose wire format has since changed — there is no " ++
      "migration, so start a new store or keep using the version that wrote this one — or the stored bytes are " ++
      "damaged, in which case restore the file from a backup."

def backend (detail : String) : StoreError := .backend detail

def corrupt (detail : String) : StoreError := .backend ("corrupt ferrostore data: " ++ detail)

/-- `map_err(corrupt)`. -/
def asCorrupt {α : Type} : Except StoreError α → Except StoreError α
  | .ok a => .ok a
  | .error err => .error (corrupt err.display)

def nameMax : Nat := 128

def checkName (kind name : String) : Except StoreError Unit :=
  if name.isEmpty then .error (backend s!"{kind} name is empty")
  else if nameMax < name.utf8ByteSize ∨ '/' ∈ name.toList ∨ '\x00' ∈ name.toList then
    .error (backend s!"invalid {kind} name {name.quote}")
  else .ok ()

inductive ColumnType where
  | int64 | float64 | bool | utf8 | bytes | timestampMs
deriving DecidableEq

structure ColumnDef where
  name : String
  ty : ColumnType
deriving DecidableEq

structure ColumnTable where
  columns : List ColumnDef
  groups : List (List UInt8)
deriving DecidableEq

/-- The columns of a new table: each name is legal, and none repeats one of `seen`. -/
def checkColumns (seen : List String) : List ColumnDef → Except StoreError Unit
  | [] => .ok ()
  | column :: rest => do
    checkName "column" column.name
    if column.name ∈ seen then .error (backend s!"duplicate column `{column.name}`")
    else checkColumns (column.name :: seen) rest

def checkNewTable (taken : Bool) (name : String) (columns : List ColumnDef) : Except StoreError Unit := do
  checkName "table" name
  if taken then .error (backend s!"column table `{name}` already exists")
  else checkColumns [] columns

inductive VectorStorage where
  | f32 | f16 | i8
deriving DecidableEq

inductive VectorMetric where
  | cosine | l2 | dotProduct
deriving DecidableEq

structure VectorParams where
  dim : UInt32
  storage : VectorStorage
  metric : VectorMetric
  m : UInt32
  efConstruction : UInt32
  efSearch : UInt32
deriving DecidableEq

/-- One stored vector; `neighbors[layer]` for each layer up to `level`. -/
structure VectorRecord where
  bytes : List UInt8
  metadata : Option Value
  level : UInt8
  neighbors : List (List String)

structure VectorCollection where
  params : VectorParams
  vectors : BTreeMap String VectorRecord
  entry : Option String

def VectorCollection.empty (params : VectorParams) : VectorCollection := ⟨params, ∅, none⟩

def bytesPerValue : VectorStorage → Nat
  | .f32 => 4
  | .f16 => 2
  | .i8 => 1

def maxVectorBytes : Nat := 8 * 1024 * 1024

def storedLen (dim : UInt32) (storage : VectorStorage) : Except StoreError Nat :=
  if dim = 0 then .error (backend "vector dimension must be greater than zero")
  else if 2 ^ 32 ≤ dim.toNat * bytesPerValue storage then .error (backend "vector dimension overflows")
  else if maxVectorBytes < dim.toNat * bytesPerValue storage then
    .error (backend "vector dimension exceeds 8MiB")
  else .ok (dim.toNat * bytesPerValue storage)

def checkCreate (name : String) (params : VectorParams) : Except StoreError Unit := do
  checkName "vector collection" name
  let _ ← storedLen params.dim params.storage
  if params.m < 2 ∨ 128 < params.m then .error (backend "vector M is out of range")
  else if params.efConstruction < params.m ∨ 100000 < params.efConstruction then
    .error (backend "vector ef_construction is out of range")
  else if params.efSearch < 1 ∨ 100000 < params.efSearch then
    .error (backend "vector ef_search is out of range")
  else .ok ()

def idMax : Nat := 1024

def checkVectorId (id : String) : Except StoreError Unit :=
  if id.isEmpty then .error (backend "vector id is empty")
  else if idMax < id.utf8ByteSize ∨ '\x00' ∈ id.toList then .error (backend s!"invalid vector id {id.quote}")
  else .ok ()

def maxLevel : UInt8 := 16

def maxLinks (m : UInt32) (layer : Nat) : Nat := if layer = 0 then m.toNat * 2 else m.toNat

/-- The row-group decoder of `columnar.rs`, and what `vector.rs` computes in floating point. -/
structure Engine where
  validateRowGroup : List ColumnDef → List UInt8 → Except StoreError Unit
  upsert : VectorCollection → String → List UInt8 → Option Value → Except StoreError VectorCollection
  deleteId : VectorCollection → String → Except StoreError VectorCollection
  vectorLevel : String → UInt32 → UInt8
  checkStored : VectorStorage → UInt32 → List UInt8 → Except StoreError Unit
  /-- The order of every neighbor list by distance. -/
  checkOrder : VectorCollection → Except StoreError Unit

/-- The highest level wins, and among equals the lowest id. -/
def canonicalEntry (vectors : BTreeMap String VectorRecord) : Option String :=
  let best := vectors.toList.foldl (fun best entry =>
    match best with
    | none => some entry
    | some held => if held.2.level < entry.2.level then some entry else some held) none
  best.map Prod.fst

/-- One neighbor list of the vector `id` on `layer`; `seen` are the ids before. -/
def checkNeighbors (collection : VectorCollection) (id : String) (layer : Nat) (seen : List String) :
    List String → Except StoreError Unit
  | [] => .ok ()
  | nid :: rest =>
    match collection.vectors[nid]? with
    | none => .error (corrupt s!"vector neighbor `{nid}` is not live")
    | some other =>
      if nid = id then .error (corrupt s!"vector `{id}` links to itself")
      else if nid ∈ seen then .error (corrupt s!"vector `{id}` repeats neighbor `{nid}`")
      else if other.level.toNat < layer then
        .error (corrupt s!"vector neighbor `{nid}` does not exist on layer {layer}")
      else checkNeighbors collection id layer (nid :: seen) rest

def checkLayers (collection : VectorCollection) (id : String) (layer : Nat) :
    List (List String) → Except StoreError Unit
  | [] => .ok ()
  | nids :: rest => do
    if maxLinks collection.params.m layer < nids.length then
      .error (corrupt s!"vector `{id}` has too many neighbors on layer {layer}")
    else checkNeighbors collection id layer [] nids
    checkLayers collection id (layer + 1) rest

namespace Engine

variable (engine : Engine)

def checkRecord (collection : VectorCollection) (id : String) (record : VectorRecord) :
    Except StoreError Unit := do
  asCorrupt (checkVectorId id)
  asCorrupt (engine.checkStored collection.params.storage collection.params.dim record.bytes)
  if record.level ≠ engine.vectorLevel id collection.params.m ∨ maxLevel < record.level then
    .error (corrupt s!"vector `{id}` level does not match")
  else if record.neighbors.length ≠ record.level.toNat + 1 then
    .error (corrupt s!"vector `{id}` layer count does not match its level")
  else checkLayers collection id 0 record.neighbors

/-- Every link of the vector `id` on `layer` is in the list of its other end too. -/
def checkReciprocal (collection : VectorCollection) (id : String) (layer : Nat) (nids : List String) :
    Except StoreError Unit :=
  nids.forM fun nid =>
    match (collection.vectors[nid]?).bind fun other => other.neighbors[layer]? with
    | some back =>
      if id ∈ back then .ok () else .error (corrupt s!"vector link `{id}` -> `{nid}` is not bidirectional")
    | none => .error (corrupt s!"vector link `{id}` -> `{nid}` is not bidirectional")

def validateGraph (name : String) (collection : VectorCollection) : Except StoreError Unit := do
  asCorrupt (checkCreate name collection.params)
  if collection.vectors.isEmpty then
    if collection.entry.isSome then .error (corrupt "empty vector collection has an entry point")
    else .ok ()
  else
    match collection.entry with
    | none => .error (corrupt "vector collection is missing an entry point")
    | some entry =>
      if ¬ collection.vectors.contains entry then .error (corrupt "vector entry point is not live")
      else if some entry ≠ canonicalEntry collection.vectors then
        .error (corrupt "vector entry point is not canonical")
      else if 2 ^ 32 ≤ collection.vectors.size then .error (corrupt "too many vectors in one collection")
      else do
        collection.vectors.toList.forM fun entry => engine.checkRecord collection entry.1 entry.2
        collection.vectors.toList.forM fun entry =>
          entry.2.neighbors.zipIdx.forM fun list => checkReciprocal collection entry.1 list.2 list.1

def validateGraphFull (name : String) (collection : VectorCollection) : Except StoreError Unit := do
  engine.validateGraph name collection
  if collection.vectors.isEmpty then .ok () else engine.checkOrder collection

end Engine

end FerroLoop.Store

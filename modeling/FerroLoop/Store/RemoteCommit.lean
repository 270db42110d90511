import FerroLoop.Store.Versions

/-!
The server's side of remote transactions: the read primitives with their answers in JSON, and the
commit that checks a read set by value, admits the operations and stages them.
-/

namespace FerroLoop.Store

open Checked

inductive ReadKey where
  | get (collection id : String)
  | scan (collection : String)
  | query (collection field value : String)
  | columns (name : String)
  | vectorParams (name : String)
  | getVector (collection id : String)
  | inventory
deriving DecidableEq

def ReadKey.primitive : ReadKey → String
  | .get _ _ => "get"
  | .scan _ => "scan"
  | .query _ _ _ => "query"
  | .columns _ => "table_columns"
  | .vectorParams _ => "vector"
  | .getVector _ _ => "get_vector"
  | .inventory => "inventory"

def ReadKey.subject : ReadKey → String
  | .get collection _ => collection
  | .scan collection => collection
  | .query collection _ _ => collection
  | .columns name => name
  | .vectorParams name => name
  | .getVector collection _ => collection
  | .inventory => "*"

/-- What answers are made with besides the state: the JSON of a stored vector, which is computed in
floating point, the text of a number, the text of an answer, and SHA-256 in hex. -/
structure Reading (Digest : Type) where
  vectorJson : VectorStorage → VectorRecord → Except StoreError Tree
  numberText : Number → String
  toVec : Tree → List UInt8
  sha256 : List UInt8 → Digest

def typeName : ColumnType → String
  | .int64 => "int64"
  | .float64 => "float64"
  | .bool => "bool"
  | .utf8 => "utf8"
  | .bytes => "bytes"
  | .timestampMs => "timestamp_ms"

def columnDefJson (column : ColumnDef) : Tree := .object [("name", .string column.name), ("ty", .string (typeName column.ty))]

def storageName : VectorStorage → String
  | .f32 => "f32"
  | .f16 => "f16"
  | .i8 => "i8"

def metricName : VectorMetric → String
  | .cosine => "cosine"
  | .l2 => "l2"
  | .dotProduct => "dot"

def u32Json (value : UInt32) : Tree := .number (.posInt value.toUInt64)

def VectorParams.toJson (params : VectorParams) : Tree :=
  .object [("dim", u32Json params.dim), ("ef_construction", u32Json params.efConstruction),
    ("ef_search", u32Json params.efSearch), ("m", u32Json params.m), ("metric", .string (metricName params.metric)),
    ("storage", .string (storageName params.storage))]

/-- `Value::get` of an object's field. -/
def Tree.field (tree : Tree) (name : String) : Option Tree :=
  match tree with
  | .object fields => (fields.find? fun entry => entry.1 = name).map Prod.snd
  | _ => none

def Docs.collections (docs : Docs) : List String := docs.nested.keys

section Answers

variable {Digest : Type} (reading : Reading Digest)

def scalarKey : Tree → Option String
  | .string text => some text
  | .number number => some (reading.numberText number)
  | .bool true => some "true"
  | .bool false => some "false"
  | _ => none

def fieldMatches (doc : Tree) (field value : String) : Bool :=
  match doc.field field with
  | some found => scalarKey reading found == some value
  | none => false

def queryByField (state : DocState) (collection field value : String) : List String :=
  let ids := ((state.docs.inCollection collection).filter fun entry => fieldMatches reading entry.2.tree field value).map Prod.fst
  ids.mergeSort

def storedVector (state : DocState) (collection id : String) : Except StoreError Tree :=
  match state.vectors[collection]? with
  | none => .error (backend s!"no vector collection `{collection}`")
  | some held => do
    checkVectorId id
    match held.vectors[id]? with
    | none => .ok .null
    | some record => reading.vectorJson held.params.storage record

def eval (state : DocState) : ReadKey → Tree
  | .get collection id =>
    match state.docs.get collection id with
    | some doc => .object [("doc", doc.tree)]
    | none => .null
  | .scan collection => .array ((state.docs.inCollection collection).map fun entry => .array [.string entry.1, entry.2.tree])
  | .query collection field value => .array ((queryByField reading state collection field value).map .string)
  | .columns name =>
    match state.tables[name]? with
    | some table => .array (table.columns.map columnDefJson)
    | none => .null
  | .vectorParams name =>
    match state.vectors[name]? with
    | some held => held.params.toJson
    | none => .null
  | .getVector collection id =>
    match storedVector reading state collection id with
    | .ok value => value
    | .error err => .object [("err", .string err.display)]
  | .inventory => .object [("collections", .array (state.docs.collections.map .string)),
      ("tables", .array (state.tables.keys.map .string)), ("vectors", .array (state.vectors.keys.map .string))]

def fingerprint (state : DocState) (key : ReadKey) : Digest := reading.sha256 (reading.toVec (eval reading state key))

end Answers

inductive SchemaOp where
  | put (to_ : Nat)
  | delete
deriving DecidableEq

def refuseReserved (collection what : String) : Except StoreError Unit :=
  if isReserved collection then
    .error (backend (s!"{what} refused: collection `{collection}` is reserved " ++
      "(a `__` collection is written only by the store itself)"))
  else .ok ()

def admitRemoteOp (op : Op) : Except StoreError (Option SchemaOp) :=
  let refused (collection : String) : Except StoreError (Option SchemaOp) := do
    refuseReserved collection "commit_txn"
    .ok none
  match op with
  | .put collection id doc =>
    if isReserved collection = false then .ok none
    else if collection = schemaCollection ∧ id = schemaKey then
      match doc.asU64 with
      | some to_ => if (checkFormat (some to_)).toOption.isSome then .ok (some (.put to_)) else refused collection
      | none => refused collection
    else refused collection
  | .delete collection id =>
    if isReserved collection = false then .ok none
    else if collection = schemaCollection ∧ id = schemaKey then .ok (some .delete)
    else refused collection
  | _ => .ok none

/-- Nothing outside `__meta`. -/
def holdsOnlyMeta (state : DocState) : Bool :=
  state.docs.collections.all (fun collection => collection = schemaCollection) && state.tables.isEmpty && state.vectors.isEmpty

def formatVersion : Nat := 2

/-- A write of the schema version is admitted when it raises the version of the committed state, or
when that state holds nothing else. -/
def admitSchemaOp (serde : SerdeJson) (current : DocState) (op : SchemaOp) : Except StoreError Unit := do
  let found ← schemaVersionIn serde current.docs.get
  let now := found.getD formatVersion
  let raises := match op with
    | .put to_ => decide (now < to_)
    | .delete => false
  if raises then .ok ()
  else if holdsOnlyMeta current then .ok ()
  else
    let what := match op with
      | .put to_ => s!"set the schema version from {now} to {to_}"
      | .delete => s!"delete the schema version {now}"
    .error (backend (s!"commit_txn refused: it would {what} on a store that holds data; a remote commit " ++
      "only raises the schema version, except into an empty store"))

structure NamedSession where
  id : Nat
  pinned : Option Nat

structure CommitTxn (Digest : Type) where
  session : Option NamedSession
  baseSeq : Option Nat
  reads : List (ReadKey × Digest)
  ops : List Op

namespace CommitTxn

variable {Digest : Type}

def checkBase (commit : CommitTxn Digest) : Except StoreError Unit :=
  match commit.session, commit.baseSeq with
  | some ⟨id, some pinned⟩, some base =>
    if pinned ≠ base then .error (backend s!"commit_txn base_seq {base} is not session {id}'s snapshot {pinned}") else .ok ()
  | _, _ => .ok ()

def schemaOps : List Op → Except StoreError (List SchemaOp)
  | [] => .ok []
  | op :: rest => do
    let first ← admitRemoteOp op
    let later ← schemaOps rest
    .ok (first.toList ++ later)

section

variable (serde : SerdeJson) (reading : Reading Digest) (commit : CommitTxn Digest) (versions : List SchemaOp)

/-- What the commit does inside the write lock: `none` when a read no longer has its value. -/
def attempt [DecidableEq Digest] (current : DocState) : Except StoreError (Option (List Op)) :=
  if commit.reads.all fun read => fingerprint reading current read.1 = read.2 then do
    versions.forM (admitSchemaOp serde current)
    .ok (some commit.ops)
  else .ok none

def body [DecidableEq Digest] : Body :=
  fun current => do
    let staged ← commit.attempt serde reading versions current
    .ok (staged.getD [])

end

end CommitTxn

/-- A store in memory or on disk, and what its next write meets there: an error of the poison
check, the lock or the refresh, and an error of the publish with whether its slot reached the file
all the same. -/
structure Medium where
  onDisk : Bool
  locked : Option StoreError
  failed : Option (StoreError × Bool)

def Medium.publish (medium : Medium) (serde : SerdeJson) (frames : List Frame) (state next : DocState) :
    Except StoreError Unit × DocState :=
  if medium.onDisk then
    match frames.mapM fun frame => encodeFrame serde frame.1 frame.2 with
    | .error err => (.error err, state)
    | .ok _ =>
      match medium.failed with
      | some (err, landed) => (.error err, if landed then next else state)
      | none => (.ok (), next)
  else (.ok (), next)

def Medium.refused (medium : Medium) : Option StoreError := if medium.onDisk then medium.locked else none

section

variable (engine : Engine) (serde : SerdeJson)

/-- A write body run and committed: its sequence, or `none` when it wrote nothing. -/
def writeLocal (medium : Medium) (state : DocState) (body : Body) : Except StoreError (Option Nat) × DocState :=
  match medium.refused with
  | some err => (.error err, state)
  | none =>
    match runBody engine body state with
    | .error err => (.error err, state)
    | .ok none => (.ok none, state)
    | .ok (some staged) =>
      match nextSeq state with
      | .error err => (.error err, state)
      | .ok seq =>
        let done := medium.publish serde [(seq, staged.ops)] state (publishOverlay state staged.overlay seq)
        (done.1.map fun _ => some seq, done.2)

/-- `commit_txn` on the server. -/
def commitTxn {Digest : Type} [DecidableEq Digest] (reading : Reading Digest)
    (medium : Medium) (state : DocState) (commit : CommitTxn Digest) : Except StoreError (Option Nat) × DocState :=
  match (do commit.checkBase; CommitTxn.schemaOps commit.ops : Except StoreError (List SchemaOp)) with
  | .error err => (.error err, state)
  | .ok versions => writeLocal engine serde medium state (commit.body serde reading versions)

theorem Medium.publish_cases (medium : Medium) (serde : SerdeJson) (frames : List Frame) (state next : DocState) :
    (∃ err, medium.publish serde frames state next = (.error err, state)) ∨ (medium.publish serde frames state next).2 = next := by
  unfold Medium.publish
  split
  · split
    · exact .inl ⟨_, rfl⟩
    split
    · rename_i landed _
      cases landed
      · exact .inl ⟨_, rfl⟩
      · exact .inr rfl
    · exact .inr rfl
  · exact .inr rfl

theorem writeLocal_cases (medium : Medium) (state : DocState) (body : Body) :
    (writeLocal engine serde medium state body).2 = state ∨
      ∃ ops, body state = .ok ops ∧ ops ≠ [] ∧
        commitOps engine state ops = .ok (writeLocal engine serde medium state body).2 := by
  unfold writeLocal
  split
  · exact .inl rfl
  split
  · exact .inl rfl
  · exact .inl rfl
  rename_i staged ran
  split
  · exact .inl rfl
  rename_i seq next
  rcases medium.publish_cases serde [(seq, staged.ops)] state (publishOverlay state staged.overlay seq) with ⟨err, same⟩ | landed
  · rw [same]
    exact .inl rfl
  obtain ⟨filled, stagedOk⟩ := runBody_staged ran
  obtain ⟨ops, made, rest⟩ := bind_ok ran
  obtain ⟨overlay, -, same⟩ := bind_ok rest
  split at same
  · cases same
  cases same
  refine .inr ⟨ops, made, filled, ?_⟩
  have some_ : ops.isEmpty = false := List.isEmpty_eq_false_iff.mpr filled
  rw [landed, commitOps, some_]
  simp only [Bool.false_eq_true, ↓reduceIte, stageOps, next, ok_bind, stagedOk]

/-- A remote commit that changes the state: every read still has its value, every write of the
version is admitted, and the operations are committed. -/
theorem commitTxn_cases {Digest : Type} [DecidableEq Digest] (reading : Reading Digest)
    (medium : Medium) (state : DocState) (commit : CommitTxn Digest) :
    (commitTxn engine serde reading medium state commit).2 = state ∨
      ∃ versions, CommitTxn.schemaOps commit.ops = .ok versions ∧
        (∀ read ∈ commit.reads, fingerprint reading state read.1 = read.2) ∧
        (∀ version ∈ versions, admitSchemaOp serde state version = .ok ()) ∧ commit.ops ≠ [] ∧
        commitOps engine state commit.ops = .ok (commitTxn engine serde reading medium state commit).2 := by
  unfold commitTxn
  split
  · exact .inl rfl
  rename_i versions ran
  obtain ⟨_, -, versionsOk⟩ := bind_ok ran
  rcases writeLocal_cases engine serde medium state (commit.body serde reading versions) with same | ⟨ops, made, filled, committed⟩
  · exact .inl same
  obtain ⟨staged, attempted, same⟩ := bind_ok made
  cases same
  unfold CommitTxn.attempt at attempted
  split at attempted
  · rename_i valid
    obtain ⟨_, admitted, same⟩ := bind_ok attempted
    cases same
    refine .inr ⟨versions, versionsOk, ?_, Checked.forM_ok admitted, filled, committed⟩
    intro read member
    exact of_decide_eq_true (List.all_eq_true.mp valid read member)
  · cases attempted
    exact absurd rfl filled

end

theorem commitOps_ok {engine : Engine} {state next : DocState} {ops : List Op} (filled : ops ≠ [])
    (committed : commitOps engine state ops = .ok next) :
    next.lastSeq = state.lastSeq + 1 ∧ ∃ mid, applyOps engine state ops = .ok mid ∧ next.docs = mid.docs := by
  have some_ : ops.isEmpty = false := List.isEmpty_eq_false_iff.mpr filled
  rw [commitOps, some_] at committed
  obtain ⟨⟨overlay, seq⟩, stagedOk, same⟩ := bind_ok committed
  cases same
  obtain ⟨next, -, applied⟩ := stageOps_ok stagedOk
  exact ⟨next, _, applied, rfl⟩

namespace Sample

/-- Answers whose hash is their text. -/
def reading : Reading (List UInt8) := ⟨fun _ _ => .ok .null, fun _ => "", code, fun bytes => bytes⟩

def inMemory : Medium := ⟨false, none, none⟩

end Sample

end FerroLoop.Store

import FerroLoop.Store.RemoteCommit

/-!
The client's side of a remote transaction: a body that reads through a session on the server and
stages its writes in an overlay of its own. Each method of the transaction asks its base at most
once, so a method is what it asks, if anything, and what it does with the answer.
-/

namespace FerroLoop.Store

open Checked

def parseTypeName (name : String) : Except StoreError ColumnType :=
  match name with
  | "int64" => .ok .int64
  | "float64" => .ok .float64
  | "bool" => .ok .bool
  | "utf8" => .ok .utf8
  | "bytes" => .ok .bytes
  | "timestamp_ms" => .ok .timestampMs
  | other => .error (backend s!"unknown column type `{other}`")

def Tree.asStr : Tree → Option String
  | .string text => some text
  | _ => none

def Tree.asArray : Tree → Option (List Tree)
  | .array items => some items
  | _ => none

def Tree.isNull : Tree → Bool
  | .null => true
  | _ => false

def Tree.isObject : Tree → Bool
  | .object _ => true
  | _ => false

def parseColumnDef (tree : Tree) : Except StoreError ColumnDef :=
  match (tree.field "name").bind Tree.asStr with
  | none => .error (backend "column is missing name")
  | some name =>
    match (tree.field "ty").bind Tree.asStr with
    | none => .error (backend "column is missing ty")
    | some ty => do
      let ty ← parseTypeName ty
      .ok ⟨name, ty⟩

def parseColumns (tree : Tree) : Except StoreError (List ColumnDef) :=
  match tree.asArray with
  | none => .error (backend "columns is not an array")
  | some items => items.mapM parseColumnDef

def storageFromName (name : String) : Except StoreError VectorStorage :=
  match name with
  | "f32" => .ok .f32
  | "f16" => .ok .f16
  | "i8" => .ok .i8
  | other => .error (backend s!"unknown vector storage `{other}`")

def metricFromName (name : String) : Except StoreError VectorMetric :=
  match name with
  | "cosine" => .ok .cosine
  | "l2" => .ok .l2
  | "dot" => .ok .dotProduct
  | other => .error (backend s!"unknown vector metric `{other}`")

def VectorParams.parse (tree : Tree) : Except StoreError VectorParams := do
  let missing {α : Type} (key : String) : Except StoreError α := .error (backend s!"vector parameters are missing `{key}`")
  let number (key : String) : Except StoreError UInt32 :=
    match tree.field key with
    | some (.number (.posInt n)) => if n.toNat < 2 ^ 32 then .ok n.toUInt32 else missing key
    | _ => missing key
  let name (key : String) : Except StoreError String :=
    match (tree.field key).bind Tree.asStr with
    | some text => .ok text
    | none => missing key
  let dim ← number "dim"
  let storage ← storageFromName (← name "storage")
  let metric ← metricFromName (← name "metric")
  let m ← number "m"
  let efConstruction ← number "ef_construction"
  let efSearch ← number "ef_search"
  .ok ⟨dim, storage, metric, m, efConstruction, efSearch⟩

def inventoryNames (tree : Tree) (field : String) : List String :=
  (((tree.field field).bind Tree.asArray).getD []).filterMap Tree.asStr

/-- The answer has the form its primitive answers with. -/
def checkShape (key : ReadKey) (tree : Tree) : Bool :=
  match key with
  | .get _ _ => tree.isNull || (tree.field "doc").isSome
  | .scan _ => tree.asArray.any fun items => items.all fun pair =>
      match pair with
      | .array [.string _, _] => true
      | _ => false
  | .query _ _ _ => tree.asArray.any fun ids => ids.all fun id => id.asStr.isSome
  | .columns _ => tree.isNull || tree.asArray.isSome
  | .vectorParams _ => tree.isNull || tree.isObject
  | .getVector _ _ => tree.isNull || tree.isObject
  | .inventory => ["collections", "tables", "vectors"].all fun field => (tree.field field).any fun names => names.asArray.isSome

abbrev StoredVector := List UInt32 × Option Tree

/-- The methods of a transaction. `refuse` is a write method's own refusal, which fails the
transaction. -/
inductive Method where
  | get (collection id : String)
  | scan (collection : String)
  | queryByField (collection field value : String)
  | collections
  | tableColumns (name : String)
  | vectorParams (name : String)
  | readVector (collection id : String)
  | hasTables
  | hasVectors
  | put (collection id : String) (doc : Value)
  | delete (collection id : String)
  | stage (op : Op)
  | refuse

def Method.Result : Method → Type
  | .get _ _ => Option Tree
  | .scan _ => List (String × Tree)
  | .queryByField _ _ _ => List String
  | .collections => List String
  | .tableColumns _ => Option (List ColumnDef)
  | .vectorParams _ => Option VectorParams
  | .readVector _ _ => Except StoreError (Option StoredVector)
  | .hasTables => Bool
  | .hasVectors => Bool
  | .put _ _ _ => Unit
  | .delete _ _ => Unit
  | .stage _ => Except StoreError Unit
  | .refuse => Unit

inductive Program where
  | done (result : Except StoreError Unit)
  | call (method : Method) (next : method.Result → Program)

structure RemoteTxn where
  overlay : Overlay
  ops : List Op
  failed : Bool
  createdVectors : BTreeMap String VectorParams
  writtenVectors : List String

def RemoteTxn.start : RemoteTxn := ⟨Overlay.empty, [], false, ∅, []⟩

abbrev ParseGet := Tree → Except StoreError (Option StoredVector)

namespace RemoteTxn

variable {Digest : Type} (engine : Engine) (reading : Reading Digest) (parseGet : ParseGet)

section

variable (txn : RemoteTxn)

def createdColumns (name : String) : Option (List ColumnDef) :=
  (txn.overlay.tables[name]?).bind TableStage.created

def createsTable : Bool := txn.overlay.tables.toList.any fun entry => entry.2.created.isSome

def asksColumns (name : String) : Option ReadKey :=
  if (txn.createdColumns name).isSome then none else some (.columns name)

def asksParams (name : String) : Option ReadKey :=
  if (txn.createdVectors[name]?).isSome then none else some (.vectorParams name)

def asks : Method → Option ReadKey
  | .get collection id => if (txn.overlay.docs[(collection, id)]?).isSome then none else some (.get collection id)
  | .scan collection => some (.scan collection)
  | .queryByField collection field value => some (.query collection field value)
  | .collections => some .inventory
  | .tableColumns name => txn.asksColumns name
  | .vectorParams name => txn.asksParams name
  | .readVector collection id => if collection ∈ txn.writtenVectors then none else some (.getVector collection id)
  | .hasTables => if txn.createsTable then none else some .inventory
  | .hasVectors => if txn.createdVectors.isEmpty then some .inventory else none
  | .stage (.createColumnTable name _) => txn.asksColumns name
  | .stage (.appendColumnGroup name _) => txn.asksColumns name
  | .stage (.createVectorCollection name params) =>
    if (checkCreate name params).toOption.isSome then txn.asksParams name else none
  | .stage (.upsertVector collection _ _ _) => txn.asksParams collection
  | .stage (.deleteVector collection _) => txn.asksParams collection
  | _ => none

def stagedIn (collection : String) : List (String × Option Value) :=
  (txn.overlay.docs.toList.filter fun entry => entry.1.1 = collection).map fun entry => (entry.1.2, entry.2)

end

/-- The documents of a collection seen through the staged ones: a put replaces or adds, a delete
hides. -/
def visitOver (staged : List (String × Option Value)) (held : List (String × Tree)) : List (String × Tree) :=
  match staged, held with
  | [], held => held
  | (id, doc) :: rest, [] => (doc.map fun doc => (id, doc.tree)).toList ++ visitOver rest []
  | (id, doc) :: rest, (baseId, base) :: others =>
    if id ≤ baseId then
      (doc.map fun doc => (id, doc.tree)).toList ++
        visitOver rest (if baseId = id then others else (baseId, base) :: others)
    else (baseId, base) :: visitOver ((id, doc) :: rest) others
termination_by staged.length + held.length
decreasing_by
  all_goals simp only [List.length_cons]
  · omega
  · split
    · omega
    · simp only [List.length_cons]
      omega
  · omega

def scanPairs (answer : Tree) : List (String × Tree) :=
  (answer.asArray.getD []).filterMap fun pair =>
    match pair with
    | .array (.string id :: doc :: _) => some (id, doc)
    | _ => none

section

variable (txn : RemoteTxn)

def queryOver (collection field value : String) (answer : Tree) : List String :=
  let staged := txn.stagedIn collection
  let held := ((answer.asArray.getD []).filterMap Tree.asStr).filter fun id => !staged.any fun entry => entry.1 = id
  let own := staged.filterMap fun entry =>
    match entry.2 with
    | some doc => if fieldMatches reading doc.tree field value then some entry.1 else none
    | none => none
  (held ++ own).mergeSort

def columnsOf (name : String) (answer : Option Tree) : Option (List ColumnDef) × Option StoreError :=
  match txn.createdColumns name with
  | some columns => (some columns, none)
  | none =>
    match answer with
    | none => (none, none)
    | some held =>
      if held.isNull then (none, none)
      else
        match parseColumns held with
        | .ok columns => (some columns, none)
        | .error err => (none, some err)

def paramsOf (name : String) (answer : Option Tree) : Option VectorParams × Option StoreError :=
  match txn.createdVectors[name]? with
  | some params => (some params, none)
  | none =>
    match answer with
    | none => (none, none)
    | some held =>
      if held.isNull then (none, none)
      else
        match VectorParams.parse held with
        | .ok params => (some params, none)
        | .error err => (none, some err)

def stageRemote (answer : Option Tree) : Op → Except StoreError RemoteTxn × Option StoreError
  | .put collection id doc => (.ok { txn with overlay := txn.overlay.put collection id doc }, none)
  | .delete collection id => (.ok { txn with overlay := txn.overlay.delete collection id }, none)
  | .createColumnTable name columns =>
    let found := txn.columnsOf name answer
    ((checkNewTable found.1.isSome name columns).map fun _ =>
      { txn with overlay := txn.overlay.recordTableCreate name columns }, found.2)
  | .appendColumnGroup name bytes =>
    let found := txn.columnsOf name answer
    match found.1 with
    | none => (.error (corrupt s!"append to missing column table `{name}`"), found.2)
    | some columns =>
      ((engine.validateRowGroup columns bytes).map fun _ =>
        { txn with overlay := txn.overlay.recordTableAppend name bytes }, found.2)
  | .createVectorCollection name params =>
    match checkCreate name params with
    | .error err => (.error err, none)
    | .ok _ =>
      let found := txn.paramsOf name answer
      if found.1.isSome then (.error (backend s!"vector collection `{name}` already exists"), found.2)
      else
        (.ok { txn with
          createdVectors := txn.createdVectors.insert name params
          writtenVectors := name :: txn.writtenVectors }, found.2)
  | .upsertVector collection _ _ _ | .deleteVector collection _ =>
    let found := txn.paramsOf collection answer
    if found.1.isNone then (.error (backend s!"no vector collection `{collection}`"), found.2)
    else (.ok { txn with writtenVectors := collection :: txn.writtenVectors }, found.2)

def readBack (collection : String) (answer : Option Tree) : Except StoreError (Option StoredVector) :=
  if collection ∈ txn.writtenVectors then
    .error (backend s!"remote transaction cannot read back its own vector writes (vector collection `{collection}`)")
  else
    match answer with
    | none => .error (backend s!"the remote read of vector collection `{collection}` failed")
    | some held =>
      match (held.field "err").bind Tree.asStr with
      | some err => .error (backend err)
      | none => parseGet held

/-- A method with the answer to what it asked: its result, what the transaction holds then, and the
error of an answer that does not parse. -/
def perform (answer : Option Tree) : (method : Method) → method.Result × RemoteTxn × Option StoreError
  | .get collection id =>
    match txn.overlay.docs[(collection, id)]? with
    | some staged => (staged.map Value.tree, txn, none)
    | none => (answer.bind fun held => held.field "doc", txn, none)
  | .scan collection =>
    match answer with
    | none => (([] : List (String × Tree)), txn, none)
    | some held => (visitOver (txn.stagedIn collection) (scanPairs held), txn, none)
  | .queryByField collection field value =>
    match answer with
    | none => (([] : List String), txn, none)
    | some held => (txn.queryOver reading collection field value held, txn, none)
  | .collections => (((answer.map fun held => inventoryNames held "collections").getD [] : List String), txn, none)
  | .tableColumns name =>
    let found := txn.columnsOf name answer
    (found.1, txn, found.2)
  | .vectorParams name =>
    let found := txn.paramsOf name answer
    (found.1, txn, found.2)
  | .readVector collection _ => (txn.readBack parseGet collection answer, txn, none)
  | .hasTables =>
    ((txn.createsTable || answer.any fun held => !(inventoryNames held "tables").isEmpty : Bool), txn, none)
  | .hasVectors =>
    ((!txn.createdVectors.isEmpty || answer.any fun held => !(inventoryNames held "vectors").isEmpty : Bool), txn, none)
  | .put collection id doc =>
    ((), { txn with overlay := txn.overlay.put collection id doc, ops := txn.ops ++ [.put collection id doc] }, none)
  | .delete collection id =>
    ((), { txn with overlay := txn.overlay.delete collection id, ops := txn.ops ++ [.delete collection id] }, none)
  | .stage op =>
    match txn.stageRemote engine answer op with
    | (.ok staged, err) => ((.ok () : Except StoreError Unit), { staged with ops := txn.ops ++ [op] }, err)
    | (.error refused, err) => ((.error refused : Except StoreError Unit), { txn with failed := true }, err)
  | .refuse => ((), { txn with failed := true }, none)

end

end RemoteTxn

/-- How a reply reaches the client: the answer as it reads it, or an error. -/
abbrev Transport := Tree → Except StoreError Tree

def answerCap : Nat := 16 * 1024 * 1024 - 4096

section Base

variable {Digest : Type} (reading : Reading Digest) (transport : Transport)

def fetched (state : DocState) (key : ReadKey) : Except StoreError (Tree × Digest) :=
  let held := eval reading state key
  if answerCap < (reading.toVec held).length then
    .error (backend (s!"{key.primitive} of `{key.subject}`: the result is {(reading.toVec held).length} bytes, more than " ++
      "one 16 MiB frame holds (a paginated read is a known limit)"))
  else do
    let received ← transport held
    if checkShape key received then .ok (received, reading.sha256 (reading.toVec held))
    else .error (backend s!"txn_read {key.primitive} of `{key.subject}` answered in the wrong form")

structure RemoteBase (Digest : Type) where
  pinned : Option DocState
  cache : List (ReadKey × Tree)
  reads : List (ReadKey × Digest)
  error : Option StoreError

def RemoteBase.start : RemoteBase Digest := ⟨none, [], [], none⟩

def RemoteBase.fail (base : RemoteBase Digest) (err : StoreError) : RemoteBase Digest :=
  { base with error := some (base.error.getD err) }

/-- A read: from the cache, or from the session, which the first one opens at the server's state.
`lost` is the error of a call that does not come back, an expired session's among them. -/
def RemoteBase.read (server : DocState) (lost : Option StoreError) (base : RemoteBase Digest) (key : ReadKey) :
    Option Tree × RemoteBase Digest :=
  if base.error.isSome then (none, base)
  else
    match base.cache.find? fun entry => entry.1 = key with
    | some hit => (some hit.2, base)
    | none =>
      match lost with
      | some err => (none, base.fail err)
      | none =>
        let state := base.pinned.getD server
        match fetched reading transport state key with
        | .error err => (none, base.fail err)
        | .ok (tree, digest) =>
          (some tree, { base with
            pinned := some state
            cache := base.cache ++ [(key, tree)]
            reads := base.reads ++ [(key, digest)] })

end Base

end FerroLoop.Store

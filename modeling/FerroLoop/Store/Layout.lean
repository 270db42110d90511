import FerroLoop.Lib.Bytes
import FerroLoop.Lib.Text
import FerroLoop.Store.State

/-!
The little-endian layout of a store file: superblock slots, WAL frames and snapshots, each as it
is written and as it is read.
-/

namespace FerroLoop.Store

open Bytes
open Text (textBytes)

def crcBit (crc : UInt32) : UInt32 :=
  if crc &&& 1 = 1 then (crc >>> 1) ^^^ 0xEDB88320 else crc >>> 1

/-- `CRC_TABLES`: the register after one byte fed into zero, then `k` zero bytes. -/
def crcTable : Nat → UInt32 → UInt32
  | 0, byte => Nat.repeat crcBit 8 byte
  | k + 1, byte => (crcTable k byte >>> 8) ^^^ crcTable 0 (crcTable k byte &&& 0xff)

/-- Eight bytes a step, then the remainder byte by byte. -/
def crcFeed (crc : UInt32) : List UInt8 → UInt32
  | b0 :: b1 :: b2 :: b3 :: b4 :: b5 :: b6 :: b7 :: rest =>
    let lo := crc ^^^ UInt32.ofNat (fromLe [b0, b1, b2, b3])
    let hi := UInt32.ofNat (fromLe [b4, b5, b6, b7])
    crcFeed (crcTable 7 (lo &&& 0xff) ^^^ crcTable 6 ((lo >>> 8) &&& 0xff) ^^^ crcTable 5 ((lo >>> 16) &&& 0xff) ^^^
      crcTable 4 (lo >>> 24) ^^^ crcTable 3 (hi &&& 0xff) ^^^ crcTable 2 ((hi >>> 8) &&& 0xff) ^^^
      crcTable 1 ((hi >>> 16) &&& 0xff) ^^^ crcTable 0 (hi >>> 24)) rest
  | tail => tail.foldl (fun crc byte => (crc >>> 8) ^^^ crcTable 0 ((crc ^^^ byte.toUInt32) &&& 0xff)) crc

@[irreducible] def crc32 (data : List UInt8) : UInt32 := ~~~ (crcFeed 0xFFFFFFFF data)

def crcBytes (data : List UInt8) : List UInt8 := toLe 4 (crc32 data).toNat

def ascii (chars : List Char) : List UInt8 := chars.map fun c => UInt8.ofNat c.toNat

def slotLen : Nat := 4096
def headerBytes : Nat := 8192
def superMagic : List UInt8 := ascii ['F', 'E', 'R', 'R', 'S', 'T', 'R', '1']
def formatV1 : Nat := 1
def formatV2 : Nat := 2
def engineSnapshotWal : Nat := 0

structure Superblock where
  epoch : Nat
  snapshotOffset : Nat
  snapshotLength : Nat
  walOffset : Nat
  walLength : Nat
  snapshotSeq : Nat
deriving DecidableEq

def slotWith (sb : Superblock) (version engine incompat : Nat) (crc : List UInt8) : List UInt8 :=
  superMagic ++ toLe 4 version ++ toLe 8 sb.epoch ++ crc ++ toLe 8 sb.snapshotOffset ++ toLe 8 sb.snapshotLength ++
    toLe 8 sb.walOffset ++ toLe 8 sb.walLength ++ toLe 8 sb.snapshotSeq ++ toLe 4 engine ++ toLe 8 incompat ++
    List.replicate (slotLen - 76) 0

def encodeSuperblockAs (sb : Superblock) (version engine incompat : Nat) : List UInt8 :=
  let engine := if version = formatV1 then 0 else engine
  let incompat := if version = formatV1 then 0 else incompat
  slotWith sb version engine incompat (crcBytes (slotWith sb version engine incompat [0, 0, 0, 0]))

def encodeSuperblock (sb : Superblock) : List UInt8 := encodeSuperblockAs sb formatV2 engineSnapshotWal 0

inductive SlotRead where
  | valid (sb : Superblock)
  | invalid
  | newer (version engine incompat : Nat)
deriving DecidableEq

section

variable (buf : List UInt8)

def u32At (offset : Nat) : Option Nat :=
  if offset + 4 ≤ buf.length then some (fromLe ((buf.drop offset).take 4)) else none

def u64At (offset : Nat) : Option Nat :=
  if offset + 8 ≤ buf.length then some (fromLe ((buf.drop offset).take 8)) else none

def parseFields : SlotRead :=
  match u64At buf 12, u64At buf 24, u64At buf 32, u64At buf 40, u64At buf 48, u64At buf 56 with
  | some epoch, some snapshotOffset, some snapshotLength, some walOffset, some walLength, some snapshotSeq =>
    if epoch = 0 ∨ snapshotOffset < headerBytes ∨ walOffset < headerBytes ∨
        (checkedAdd snapshotOffset snapshotLength).isNone ∨ (checkedAdd walOffset walLength).isNone then .invalid
    else .valid ⟨epoch, snapshotOffset, snapshotLength, walOffset, walLength, snapshotSeq⟩
  | _, _, _, _, _, _ => .invalid

def parseKnown (version engine incompat reservedFrom : Nat) : SlotRead :=
  if engine ≠ engineSnapshotWal ∨ incompat ≠ 0 then .newer version engine incompat
  else if (buf.drop reservedFrom).any fun byte => byte ≠ 0 then .invalid
  else parseFields buf

def parseSuperblock : SlotRead :=
  if buf.length ≠ slotLen ∨ buf.take 8 ≠ superMagic then .invalid
  else
    match u32At buf 8, u32At buf 20 with
    | some version, some stored =>
      if (crc32 (buf.take 20 ++ [0, 0, 0, 0] ++ buf.drop 24)).toNat ≠ stored then .invalid
      else if version = formatV1 then parseKnown buf version engineSnapshotWal 0 64
      else if version = formatV2 then
        match u32At buf 64, u64At buf 68 with
        | some engine, some incompat => parseKnown buf version engine incompat 76
        | _, _ => .invalid
      else if version = 0 then .invalid
      else .newer version engineSnapshotWal 0
    | _, _ => .invalid

end

abbrev Written := Except StoreError (List UInt8)

def both (first second : Written) : Written := do
  let front ← first
  let back ← second
  .ok (front ++ back)

def writeEach {α : Type} (write : α → Written) : List α → Written
  | [] => .ok []
  | item :: rest => both (write item) (writeEach write rest)

def u32Max : Nat := 2 ^ 32

def writeU8 (byte : UInt8) : Written := .ok [byte]

def writeU32 (n : UInt32) : Written := .ok (toLe 4 n.toNat)

def writeU64 (n : Nat) : Written := .ok (toLe 8 n)

/-- A `u32` count, or the error that it does not fit. -/
def writeCount (count : Nat) (failure : String) : Written :=
  if count < u32Max then .ok (toLe 4 count) else .error (backend failure)

def writeLp (bytes : List UInt8) : Written := both (writeCount bytes.length "length does not fit in u32") (.ok bytes)

def writeText (text : String) : Written := writeLp (textBytes text)

def typeTag : ColumnType → UInt8
  | .int64 => 1
  | .float64 => 2
  | .bool => 3
  | .utf8 => 4
  | .bytes => 5
  | .timestampMs => 6

def storageTag : VectorStorage → UInt8
  | .f32 => 1
  | .f16 => 2
  | .i8 => 3

def metricTag : VectorMetric → UInt8
  | .cosine => 1
  | .l2 => 2
  | .dotProduct => 3

def writeColumn (column : ColumnDef) : Written := both (writeText column.name) (writeU8 (typeTag column.ty))

def writeColumns (columns : List ColumnDef) : Written :=
  both (writeCount columns.length "too many columns") (writeEach writeColumn columns)

def writeParams (params : VectorParams) : Written :=
  both (writeU32 params.dim) <| both (writeU8 (storageTag params.storage)) <| both (writeU8 (metricTag params.metric)) <|
    both (writeU32 params.m) <| both (writeU32 params.efConstruction) (writeU32 params.efSearch)

section Encode

variable (serde : SerdeJson)

def writeJson (value : Value) : Written := writeLp (serde.toVec value)

def writeMetadata : Option Value → Written
  | none => writeU8 0
  | some value => both (writeU8 1) (writeJson serde value)

def encodeOp : Op → Written
  | .put collection id doc =>
    both (writeU8 1) <| both (writeText collection) <| both (writeText id) (writeJson serde doc)
  | .delete collection id => both (writeU8 2) <| both (writeText collection) (writeText id)
  | .createColumnTable name columns => both (writeU8 3) <| both (writeText name) (writeColumns columns)
  | .appendColumnGroup name bytes => both (writeU8 4) <| both (writeText name) (writeLp bytes)
  | .createVectorCollection name params => both (writeU8 5) <| both (writeText name) (writeParams params)
  | .upsertVector collection id bytes metadata =>
    both (writeU8 6) <| both (writeText collection) <| both (writeText id) <|
      both (writeLp bytes) (writeMetadata serde metadata)
  | .deleteVector collection id => both (writeU8 7) <| both (writeText collection) (writeText id)

def encodePayload (seq : Nat) (ops : List Op) : Written :=
  both (writeU64 seq) <| both (writeCount ops.length "too many operations in one frame") (writeEach (encodeOp serde) ops)

def encodeFrame (seq : Nat) (ops : List Op) : Written := do
  let payload ← encodePayload serde seq ops
  both (writeCount payload.length "wal payload exceeds 4 GiB") (.ok (crcBytes payload ++ payload))

def snapMagic : List UInt8 := ascii ['F', 'E', 'R', 'R', 'S', 'N', 'A', 'P']

/-- Every document, in collection and id order. -/
def Docs.iter (docs : Docs) : List (String × String × Value) :=
  docs.nested.toList.flatMap fun entry => entry.2.toList.map fun doc => (entry.1, doc.1, doc.2)

def writeDoc (entry : String × String × Value) : Written :=
  both (writeText entry.1) <| both (writeText entry.2.1) (writeJson serde entry.2.2)

def writeDocs (docs : Docs) : Written :=
  both (writeCount docs.iter.length "snapshot has too many documents") (writeEach (writeDoc serde) docs.iter)

def writeColumnTable (entry : String × ColumnTable) : Written :=
  both (writeText entry.1) <| both (writeColumns entry.2.columns) <|
    both (writeCount entry.2.groups.length "too many row groups") (writeEach writeLp entry.2.groups)

def writeTables (tables : Tables) : Written :=
  both (writeCount tables.toList.length "snapshot has too many column tables") (writeEach writeColumnTable tables.toList)

def writeVector (entry : String × VectorRecord) : Written :=
  both (writeText entry.1) <| both (writeLp entry.2.bytes) (writeMetadata serde entry.2.metadata)

def writeEntry : Option String → Written
  | none => writeU8 0
  | some id => both (writeU8 1) (writeText id)

def writeNeighbors (neighbors : List String) : Written :=
  both (writeCount neighbors.length "too many vector neighbors") (writeEach writeText neighbors)

def writeLinks (entry : String × VectorRecord) : Written :=
  both (writeU8 entry.2.level) (writeEach writeNeighbors entry.2.neighbors)

def writeVectorCollection (entry : String × VectorCollection) : Written :=
  both (writeText entry.1) <| both (writeParams entry.2.params) <|
    both (writeCount entry.2.vectors.toList.length "too many vectors in one collection") <|
    both (writeEach (writeVector serde) entry.2.vectors.toList) <|
    both (writeEntry entry.2.entry) (writeEach writeLinks entry.2.vectors.toList)

def writeVectors (vectors : Vectors) : Written :=
  both (writeCount vectors.toList.length "snapshot has too many vector collections")
    (writeEach (writeVectorCollection serde) vectors.toList)

def snapshotOf (version seq : Nat) (sections : Written) : Written := do
  let body ← both (.ok snapMagic) (both (.ok (toLe 4 version)) (both (writeU64 seq) sections))
  .ok (body ++ crcBytes body)

def encodeSnapshot (seq : Nat) (docs : Docs) : Written := snapshotOf 1 seq (writeDocs serde docs)

def encodeSnapshotV2 (seq : Nat) (docs : Docs) (tables : Tables) : Written :=
  snapshotOf 2 seq (both (writeDocs serde docs) (writeTables tables))

def encodeSnapshotV3 (engine : Engine) (seq : Nat) (docs : Docs) (tables : Tables) (vectors : Vectors) : Written :=
  if vectors.isEmpty then .error (backend "snapshot has no vector collections")
  else do
    vectors.toList.forM fun entry => engine.validateGraphFull entry.1 entry.2
    snapshotOf 3 seq (both (writeDocs serde docs) (both (writeTables tables) (writeVectors serde vectors)))

def encodeStateSnapshot (engine : Engine) (state : DocState) : Written :=
  if ¬ state.vectors.isEmpty then
    encodeSnapshotV3 serde engine state.lastSeq state.docs state.tables state.vectors
  else if state.tables.isEmpty then encodeSnapshot serde state.lastSeq state.docs
  else encodeSnapshotV2 serde state.lastSeq state.docs state.tables

end Encode

abbrev Cur (α : Type) := Reader StoreError α

def refuse {α : Type} (err : StoreError) : Cur α := fun _ => .error err

def check {α : Type} (x : Except StoreError α) : Cur α := fun rest => x.map fun a => (a, rest)

def take (n : Nat) : Cur (List UInt8) := fun rest =>
  if rest.length < n then .error (corrupt "truncated record") else .ok (rest.take n, rest.drop n)

def readU8 : Cur UInt8 := do
  let bytes ← take 1
  pure (bytes.headD 0)

def readU32 : Cur Nat := do
  let bytes ← take 4
  pure (fromLe bytes)

def readU64 : Cur Nat := do
  let bytes ← take 8
  pure (fromLe bytes)

def readLp : Cur (List UInt8) := do
  let n ← readU32
  ensure n (corrupt "length prefix exceeds the record")
  take n

def readText : Cur String := do
  let bytes ← readLp
  match String.fromUTF8? ⟨bytes.toArray⟩ with
  | some text => pure text
  | none => refuse (corrupt "text is not utf-8")

def typeFromTag (tag : UInt8) : Except StoreError ColumnType :=
  if tag = 1 then .ok .int64
  else if tag = 2 then .ok .float64
  else if tag = 3 then .ok .bool
  else if tag = 4 then .ok .utf8
  else if tag = 5 then .ok .bytes
  else if tag = 6 then .ok .timestampMs
  else .error (corrupt s!"unknown column type tag {tag}")

def storageFromTag (tag : UInt8) : Except StoreError VectorStorage :=
  if tag = 1 then .ok .f32
  else if tag = 2 then .ok .f16
  else if tag = 3 then .ok .i8
  else .error (corrupt s!"unknown vector storage tag {tag}")

def metricFromTag (tag : UInt8) : Except StoreError VectorMetric :=
  if tag = 1 then .ok .cosine
  else if tag = 2 then .ok .l2
  else if tag = 3 then .ok .dotProduct
  else .error (corrupt s!"unknown vector metric tag {tag}")

def readColumn : Cur ColumnDef := do
  let name ← readText
  let tag ← readU8
  let ty ← check (typeFromTag tag)
  pure ⟨name, ty⟩

def readColumns (failure : String) : Cur (List ColumnDef) := do
  let count ← readU32
  ensure count (corrupt failure)
  times count readColumn

def readParams : Cur VectorParams := do
  let dim ← readU32
  let storage ← readU8
  let storage ← check (storageFromTag storage)
  let metric ← readU8
  let metric ← check (metricFromTag metric)
  let m ← readU32
  let efConstruction ← readU32
  let efSearch ← readU32
  pure ⟨UInt32.ofNat dim, storage, metric, UInt32.ofNat m, UInt32.ofNat efConstruction, UInt32.ofNat efSearch⟩

section Decode

variable (serde : SerdeJson)

def readJson (failure : String) : Cur Value := do
  let raw ← readLp
  match serde.fromSlice raw with
  | some value => pure value
  | none => refuse (corrupt failure)

def readMetadata : Cur (Option Value) := do
  let flag ← readU8
  if flag = 0 then pure none
  else if flag = 1 then do
    let value ← readJson serde "vector metadata is not json"
    pure (some value)
  else refuse (corrupt s!"unknown vector metadata flag {flag}")

def readOpBody (tag : UInt8) : Cur Op :=
  if tag = 1 then do
    let collection ← readText
    let id ← readText
    let doc ← readJson serde "document is not json"
    pure (.put collection id doc)
  else if tag = 2 then do
    let collection ← readText
    let id ← readText
    pure (.delete collection id)
  else if tag = 3 then do
    let name ← readText
    let columns ← readColumns "column count exceeds the wal payload"
    pure (.createColumnTable name columns)
  else if tag = 4 then do
    let name ← readText
    let bytes ← readLp
    pure (.appendColumnGroup name bytes)
  else if tag = 5 then do
    let name ← readText
    let params ← readParams
    pure (.createVectorCollection name params)
  else if tag = 6 then do
    let collection ← readText
    let id ← readText
    let bytes ← readLp
    let metadata ← readMetadata serde
    pure (.upsertVector collection id bytes metadata)
  else if tag = 7 then do
    let collection ← readText
    let id ← readText
    pure (.deleteVector collection id)
  else refuse (corrupt s!"unknown wal op tag {tag}")

def readOp : Cur Op := do
  let tag ← readU8
  readOpBody serde tag

def readPayload : Cur Frame := do
  let seq ← readU64
  let count ← readU32
  ensure count (corrupt "op count exceeds the wal payload")
  let ops ← times count (readOp serde)
  pure (seq, ops)

/-- The whole of a byte string, with nothing left over. -/
def readAll {α : Type} (p : Cur α) (buf : List UInt8) : Except StoreError α :=
  match p.run buf with
  | .error err => .error err
  | .ok (a, []) => .ok a
  | .ok (_, _ :: _) => .error (corrupt "trailing bytes inside a committed record")

def decodePayload (buf : List UInt8) : Except StoreError Frame := readAll (readPayload serde) buf

def frameFits (buf : List UInt8) : Bool :=
  8 ≤ buf.length && 8 + fromLe (buf.take 4) ≤ buf.length

/-- The frames of a WAL and how many bytes they cover. A torn tail is dropped; a bad checksum
with a complete frame behind it is corruption. -/
def decodeWalPrefix (buf : List UInt8) : Except StoreError (List Frame × Nat) :=
  if buf.length < 8 then .ok ([], 0)
  else
    let len := fromLe (buf.take 4)
    let stored := fromLe ((buf.drop 4).take 4)
    let rest := buf.drop 8
    if rest.length < len then .ok ([], 0)
    else if (crc32 (rest.take len)).toNat ≠ stored then
      if rest.drop len = [] ∨ frameFits (rest.drop len) = false then .ok ([], 0)
      else .error (corrupt "wal frame crc does not match and another frame follows")
    else do
      let frame ← decodePayload serde (rest.take len)
      let (frames, consumed) ← decodeWalPrefix (rest.drop len)
      .ok (frame :: frames, 8 + len + consumed)
termination_by buf.length
decreasing_by
  simp only [List.length_drop]
  omega

structure Snapshot where
  seq : Nat
  docs : Docs
  tables : Tables
  vectors : Vectors

/-- `count` documents read into `docs`; one that is already there is refused. -/
def readDocs (docs : Docs) : Nat → Cur Docs
  | 0 => pure docs
  | count + 1 => do
    let collection ← readText
    let id ← readText
    let doc ← readJson serde "snapshot document is not json"
    if (docs.get collection id).isSome then refuse (corrupt "snapshot repeats a document id")
    else readDocs (docs.insert collection id doc) count

end Decode

section DecodeSnapshot

variable (engine : Engine)

def readTables (tables : Tables) : Nat → Cur Tables
  | 0 => pure tables
  | count + 1 => do
    let name ← readText
    let columns ← readColumns "snapshot column count exceeds the blob"
    let groupCount ← readU32
    ensure groupCount (corrupt "snapshot row-group count exceeds the blob")
    let groups ← times groupCount readLp
    if tables.contains name then refuse (corrupt s!"snapshot repeats column table `{name}`")
    else do
      check (checkNewTable false name columns)
      check (groups.forM fun group => engine.validateRowGroup columns group)
      readTables (tables.insert name ⟨columns, groups⟩) count

def readColumnTables (requireNonempty : Bool) : Cur Tables := do
  let count ← readU32
  if requireNonempty && count == 0 then refuse (corrupt "snapshot has no column tables")
  else do
    ensure count (corrupt "snapshot table count exceeds the blob")
    readTables engine ∅ count

def readVectorRecords (serde : SerdeJson) (vectors : BTreeMap String VectorRecord) :
    Nat → Cur (BTreeMap String VectorRecord)
  | 0 => pure vectors
  | count + 1 => do
    let id ← readText
    let bytes ← readLp
    let metadata ← readMetadata serde
    if vectors.contains id then refuse (corrupt s!"snapshot repeats vector id `{id}`")
    else readVectorRecords serde (vectors.insert id ⟨bytes, metadata, 0, []⟩) count

def readEntry : Cur (Option String) := do
  let flag ← readU8
  if flag = 0 then pure none
  else if flag = 1 then do
    let id ← readText
    pure (some id)
  else refuse (corrupt s!"unknown vector entry flag {flag}")

def readNeighbors : Cur (List String) := do
  let count ← readU32
  ensure count (corrupt "snapshot neighbor count exceeds the blob")
  times count readText

def readLinks (vectors : BTreeMap String VectorRecord) : List (String × VectorRecord) → Cur (BTreeMap String VectorRecord)
  | [] => pure vectors
  | (id, record) :: rest => do
    let level ← readU8
    ensure level.toNat (corrupt "snapshot vector level exceeds the blob")
    let neighbors ← times (level.toNat + 1) readNeighbors
    readLinks (vectors.insert id { record with level, neighbors }) rest

def readVectorCollection (serde : SerdeJson) : Cur (String × VectorCollection) := do
  let name ← readText
  let params ← readParams
  let count ← readU32
  ensure count (corrupt "snapshot vector count exceeds the blob")
  let vectors ← readVectorRecords serde ∅ count
  let entry ← readEntry
  let vectors ← readLinks vectors vectors.toList
  pure (name, ⟨params, vectors, entry⟩)

def readCollections (serde : SerdeJson) (collections : Vectors) : Nat → Cur Vectors
  | 0 => pure collections
  | count + 1 => do
    let (name, collection) ← readVectorCollection serde
    if collections.contains name then refuse (corrupt s!"snapshot repeats vector collection `{name}`")
    else do
      check (engine.validateGraph name collection)
      readCollections serde (collections.insert name collection) count

def readVectorCollections (serde : SerdeJson) : Cur Vectors := do
  let count ← readU32
  if count = 0 then refuse (corrupt "snapshot has no vector collections")
  else do
    ensure count (corrupt "snapshot vector count exceeds the blob")
    readCollections engine serde ∅ count

def readSnapshot (serde : SerdeJson) : Cur Snapshot := do
  let magic ← take 8
  if magic ≠ snapMagic then refuse (corrupt "snapshot magic mismatch")
  else do
    let version ← readU32
    if version ≠ 1 ∧ version ≠ 2 ∧ version ≠ 3 then
      refuse (corrupt s!"snapshot version {version} is not supported")
    else do
      let seq ← readU64
      let count ← readU32
      ensure count (corrupt "snapshot count exceeds the blob")
      let docs ← readDocs serde Docs.empty count
      let tables ← (if version = 2 ∨ version = 3 then readColumnTables engine (version == 2) else pure ∅)
      let vectors ← (if version = 3 then readVectorCollections engine serde else pure ∅)
      pure ⟨seq, docs, tables, vectors⟩

def decodeSnapshot (serde : SerdeJson) (buf : List UInt8) : Except StoreError Snapshot :=
  if buf.length < 4 then .error (corrupt "snapshot is shorter than its crc")
  else
    let body := buf.take (buf.length - 4)
    if (crc32 body).toNat ≠ fromLe (buf.drop (buf.length - 4)) then .error (corrupt "snapshot crc mismatch")
    else if body.length < 24 then .error (corrupt "snapshot header is truncated")
    else readAll (readSnapshot engine serde) body

end DecodeSnapshot

end FerroLoop.Store

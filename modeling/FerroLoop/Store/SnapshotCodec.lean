import FerroLoop.Store.Codec
import FerroLoop.Store.Staging

namespace FerroLoop.Store

open List hiding getElem?_insert
open Std Bytes Checked Map Inverts

def insertDocs (docs : Docs) (entries : List (String × String × Value)) : Docs :=
  entries.foldl (fun docs entry => docs.insert entry.1 entry.2.1 entry.2.2) docs

variable (docs : Docs)

theorem mem_iter (collection id : String) (doc : Value) :
    (collection, id, doc) ∈ docs.iter ↔ docs.get collection id = some doc := by
  unfold Docs.iter Docs.get
  rw [mem_flatMap]
  constructor
  · rintro ⟨⟨name, held⟩, inNested, inHeld⟩
    obtain ⟨⟨key, value⟩, member, same⟩ := List.mem_map.mp inHeld
    cases same
    rw [ExtTreeMap.mem_toList_iff_getElem?_eq_some.mp inNested, Option.bind_some]
    exact ExtTreeMap.mem_toList_iff_getElem?_eq_some.mp member
  · intro found
    obtain ⟨held, inNested, inHeld⟩ := Option.bind_eq_some_iff.mp found
    exact ⟨(collection, held), ExtTreeMap.mem_toList_iff_getElem?_eq_some.mpr inNested,
      List.mem_map.mpr ⟨(id, doc), ExtTreeMap.mem_toList_iff_getElem?_eq_some.mpr inHeld, rfl⟩⟩

theorem iter_distinct : docs.iter.Pairwise fun a b => (a.1, a.2.1) ≠ (b.1, b.2.1) := by
  unfold Docs.iter
  rw [pairwise_flatMap]
  constructor
  · intro entry _
    rw [pairwise_map]
    refine (toList_distinct entry.2).imp ?_
    intro a b apart same
    exact apart (Prod.mk.inj same).2
  · refine (toList_distinct docs.nested).imp ?_
    intro a b apart x inA y inB same
    obtain ⟨_, _, rfl⟩ := List.mem_map.mp inA
    obtain ⟨_, _, rfl⟩ := List.mem_map.mp inB
    exact apart (Prod.mk.inj same).1

theorem insertDocs_iter : insertDocs Docs.empty docs.iter = docs := by
  have keyed : insertDocs Docs.empty docs.iter = (docs.iter.map fun entry => ((entry.1, entry.2.1), entry.2.2)).foldl
      (fun docs (entry : (String × String) × Value) => docs.insert entry.1.1 entry.1.2 entry.2) Docs.empty := by
    rw [foldl_map]
    rfl
  have each : ∀ (docs : Docs) (entry : (String × String) × Value) (key : String × String),
      (docs.insert entry.1.1 entry.1.2 entry.2).get key.1 key.2 =
        if entry.1 = key then some entry.2 else docs.get key.1 key.2 := by
    intro docs entry key
    exact Docs.get_insert docs entry.1.1 entry.1.2 key.1 key.2 entry.2
  have distinct : (docs.iter.map fun entry => ((entry.1, entry.2.1), entry.2.2)).Pairwise fun a b => a.1 ≠ b.1 :=
    pairwise_map.mpr (iter_distinct docs)
  apply Docs.ext_get
  intro collection id
  rw [keyed]
  cases held : docs.get collection id with
  | some doc =>
    refine foldl_named (fun (docs : Docs) (key : String × String) => docs.get key.1 key.2) _ (fun doc _ => some doc)
      each distinct (k := (collection, id)) ?_ Docs.empty
    exact List.mem_map.mpr ⟨(collection, id, doc), (mem_iter docs collection id doc).mpr held, rfl⟩
  | none =>
    refine (foldl_other (fun (docs : Docs) (key : String × String) => docs.get key.1 key.2) _ (fun doc _ => some doc)
      each (k := (collection, id)) ?_ Docs.empty).trans rfl
    intro doc member
    obtain ⟨⟨name, key, value⟩, inIter, same⟩ := List.mem_map.mp member
    cases same
    rw [(mem_iter docs name key value).mp inIter] at held
    cases held

section Docs

variable {serde : SerdeJson}

theorem inverts_docs {docs : Docs} {entries : List (String × String × Value)}
    (survive : ∀ entry ∈ entries, serde.Survives entry.2.2)
    (distinct : entries.Pairwise fun a b => (a.1, a.2.1) ≠ (b.1, b.2.1))
    (absent : ∀ entry ∈ entries, docs.get entry.1 entry.2.1 = none) :
    Inverts entries.length (writeEach (writeDoc serde) entries) (readDocs serde docs entries.length)
      (insertDocs docs entries) := by
  induction entries generalizing docs with
  | nil => exact of_reads (Reads.pure docs)
  | cons entry rest ih =>
    obtain ⟨collection, id, doc⟩ := entry
    obtain ⟨apart, others⟩ := pairwise_cons.mp distinct
    have fresh : (docs.get collection id).isSome = false := by
      rw [absent _ mem_cons_self]
      rfl
    have stillAbsent : ∀ entry ∈ rest, (docs.insert collection id doc).get entry.1 entry.2.1 = none := by
      intro entry member
      rw [Docs.get_insert, if_neg (apart entry member)]
      exact absent entry (mem_cons_of_mem _ member)
    have later := ih (fun entry member => survive entry (mem_cons_of_mem _ member)) others stillAbsent
    have guarded : Inverts rest.length (writeEach (writeDoc serde) rest)
        (if (docs.get collection id).isSome then refuse (corrupt "snapshot repeats a document id")
          else readDocs serde (docs.insert collection id doc) rest.length)
        (insertDocs (docs.insert collection id doc) rest) := by
      rw [fresh]
      exact later
    have survives := inverts_json (survive _ mem_cons_self) "snapshot document is not json"
    have whole : Inverts (4 + (4 + (4 + rest.length)))
        (both (writeText collection) (both (writeText id) (both (writeJson serde doc) (writeEach (writeDoc serde) rest))))
        (readDocs serde docs (rest.length + 1)) (insertDocs (docs.insert collection id doc) rest) :=
      (inverts_text collection).both ((inverts_text id).both (survives.both guarded))
    rw [writeEach, writeDoc, both_assoc, both_assoc]
    exact whole.weaken (by rw [length_cons]; omega)

end Docs

theorem forM_ok {α : Type} {check : α → Except StoreError Unit} {items : List α} :
    items.forM check = .ok () ↔ ∀ item ∈ items, check item = .ok () := by
  induction items with
  | nil => exact ⟨fun _ item member => (nomatch member), fun _ => rfl⟩
  | cons item rest ih =>
    rw [forall_mem_cons, ← ih]
    show (check item >>= fun _ => rest.forM check) = .ok () ↔ _
    constructor
    · intro passed
      obtain ⟨_, first, others⟩ := bind_ok passed
      exact ⟨first, others⟩
    · rintro ⟨first, others⟩
      rw [first]
      exact others

variable {name : String}

theorem contains_false {ν : Type} {held : BTreeMap String ν} (absent : held[name]? = none) :
    held.contains name = false := by
  rw [ExtTreeMap.contains_eq_isSome_getElem?, absent]
  rfl

theorem absent_insert {ν : Type} {held : BTreeMap String ν} {entry : String × ν} {rest : List (String × ν)}
    (apart : ∀ other ∈ rest, entry.1 ≠ other.1) (absent : ∀ other ∈ entry :: rest, held[other.1]? = none) :
    ∀ other ∈ rest, (held.insert entry.1 entry.2)[other.1]? = none := by
  intro other member
  rw [getElem?_insert, if_neg (apart other member)]
  exact absent other (mem_cons_of_mem _ member)

def Engine.SoundTable (engine : Engine) (name : String) (table : ColumnTable) : Prop :=
  checkNewTable false name table.columns = .ok () ∧ ∀ group ∈ table.groups, engine.validateRowGroup table.columns group = .ok ()

variable {engine : Engine}

theorem inverts_tables {tables : Tables} {entries : List (String × ColumnTable)}
    (sound : ∀ entry ∈ entries, engine.SoundTable entry.1 entry.2) (distinct : entries.Pairwise fun a b => a.1 ≠ b.1)
    (absent : ∀ entry ∈ entries, tables[entry.1]? = none) :
    Inverts entries.length (writeEach writeColumnTable entries) (readTables engine tables entries.length)
      (entries.foldl (fun built entry => built.insert entry.1 entry.2) tables) := by
  induction entries generalizing tables with
  | nil => exact of_reads (Reads.pure tables)
  | cons entry rest ih =>
    obtain ⟨apart, others⟩ := pairwise_cons.mp distinct
    obtain ⟨legal, valid⟩ := sound entry mem_cons_self
    have later := ih (fun other member => sound other (mem_cons_of_mem _ member)) others (absent_insert apart absent)
    obtain ⟨name, columns, groups⟩ := entry
    have fresh : tables.contains name = false := contains_false (absent _ mem_cons_self)
    have guarded : Inverts rest.length (writeEach writeColumnTable rest)
        (if tables.contains name then refuse (corrupt s!"snapshot repeats column table `{name}`")
          else do
            check (checkNewTable false name columns)
            check (groups.forM fun group => engine.validateRowGroup columns group)
            readTables engine (tables.insert name ⟨columns, groups⟩) rest.length)
        (rest.foldl (fun built entry => built.insert entry.1 entry.2) (tables.insert name ⟨columns, groups⟩)) := by
      rw [fresh]
      exact checked legal (checked (forM_ok.mpr valid) later)
    have each := each (fun group => group) groups fun group _ => inverts_lp group
    rw [map_id'] at each
    have body : Inverts (4 * groups.length + rest.length)
        (both (writeEach writeLp groups) (writeEach writeColumnTable rest))
        (ensure groups.length (corrupt "snapshot row-group count exceeds the blob") >>= fun _ =>
          times groups.length readLp >>= fun groups =>
            if tables.contains name then refuse (corrupt s!"snapshot repeats column table `{name}`")
            else do
              check (checkNewTable false name columns)
              check (groups.forM fun group => engine.validateRowGroup columns group)
              readTables engine (tables.insert name ⟨columns, groups⟩) rest.length)
        (rest.foldl (fun built entry => built.insert entry.1 entry.2) (tables.insert name ⟨columns, groups⟩)) :=
      ensure _ (by omega) (each.both guarded)
    have whole : Inverts (4 + (4 + (4 + (4 * groups.length + rest.length))))
        (both (writeText name) (both (writeColumns columns) (both (writeCount groups.length "too many row groups")
          (both (writeEach writeLp groups) (writeEach writeColumnTable rest)))))
        (readTables engine tables (rest.length + 1))
        (rest.foldl (fun built entry => built.insert entry.1 entry.2) (tables.insert name ⟨columns, groups⟩)) :=
      (inverts_text name).both ((inverts_columns columns _).both ((inverts_count groups.length _).both body))
    rw [writeEach, writeColumnTable, both_assoc, both_assoc, both_assoc]
    exact whole.weaken (by rw [length_cons]; omega)

variable {collection : VectorCollection}

section Vectors

variable {serde : SerdeJson}

/-- A record as the first pass over a snapshot reads it, with no link. -/
def VectorRecord.unlinked (record : VectorRecord) : VectorRecord := ⟨record.bytes, record.metadata, 0, []⟩

variable {held : BTreeMap String VectorRecord} {entries : List (String × VectorRecord)}

theorem inverts_vectorRecords
    (survive : ∀ entry ∈ entries, ∀ value ∈ entry.2.metadata.toList, serde.Survives value)
    (distinct : entries.Pairwise fun a b => a.1 ≠ b.1) (absent : ∀ entry ∈ entries, held[entry.1]? = none) :
    Inverts entries.length (writeEach (writeVector serde) entries) (readVectorRecords serde held entries.length)
      (entries.foldl (fun built entry => built.insert entry.1 entry.2.unlinked) held) := by
  induction entries generalizing held with
  | nil => exact of_reads (Reads.pure held)
  | cons entry rest ih =>
    obtain ⟨apart, others⟩ := pairwise_cons.mp distinct
    have metadata := inverts_metadata (survive entry mem_cons_self)
    obtain ⟨id, record⟩ := entry
    have fresh : held.contains id = false := contains_false (absent _ mem_cons_self)
    have stillAbsent : ∀ other ∈ rest, (held.insert id record.unlinked)[other.1]? = none := by
      intro other member
      rw [getElem?_insert, if_neg (apart other member)]
      exact absent other (mem_cons_of_mem _ member)
    have later := ih (fun other member => survive other (mem_cons_of_mem _ member)) others stillAbsent
    have guarded : Inverts rest.length (writeEach (writeVector serde) rest)
        (if held.contains id then refuse (corrupt s!"snapshot repeats vector id `{id}`")
          else readVectorRecords serde (held.insert id record.unlinked) rest.length)
        (rest.foldl (fun built entry => built.insert entry.1 entry.2.unlinked) (held.insert id record.unlinked)) := by
      rw [fresh]
      exact later
    have whole : Inverts (4 + (4 + (1 + rest.length)))
        (both (writeText id) (both (writeLp record.bytes) (both (writeMetadata serde record.metadata)
          (writeEach (writeVector serde) rest))))
        (readVectorRecords serde held (rest.length + 1))
        (rest.foldl (fun built entry => built.insert entry.1 entry.2.unlinked) (held.insert id record.unlinked)) :=
      (inverts_text id).both ((inverts_lp record.bytes).both (metadata.both guarded))
    rw [writeEach, writeVector, both_assoc, both_assoc]
    exact whole.weaken (by rw [length_cons]; omega)

theorem inverts_entry (entry : Option String) : Inverts 1 (writeEntry entry) readEntry entry := by
  cases entry with
  | none => exact (inverts_u8 0).andThen (Reads.pure none)
  | some id => exact ((inverts_u8 1).both (inverts_text id).map).weaken (by omega)

theorem inverts_neighbors (neighbors : List String) : Inverts 4 (writeNeighbors neighbors) readNeighbors neighbors := by
  have each := each (fun text => text) neighbors fun text _ => inverts_text text
  rw [map_id'] at each
  exact ((inverts_count neighbors.length _).both (each.ensure _ (by omega))).weaken (by omega)

theorem inverts_links
    (layers : ∀ entry ∈ entries, entry.2.neighbors.length = entry.2.level.toNat + 1) :
    Inverts entries.length (writeEach writeLinks entries)
      (readLinks held (entries.map fun entry => (entry.1, entry.2.unlinked)))
      (entries.foldl (fun built entry => built.insert entry.1 entry.2) held) := by
  induction entries generalizing held with
  | nil => exact of_reads (Reads.pure held)
  | cons entry rest ih =>
    obtain ⟨id, bytes, metadata, level, neighbors⟩ := entry
    have count : neighbors.length = level.toNat + 1 := layers _ mem_cons_self
    have later : Inverts rest.length (writeEach writeLinks rest)
        (readLinks (held.insert id ⟨bytes, metadata, level, neighbors⟩)
          (rest.map fun entry => (entry.1, entry.2.unlinked)))
        (rest.foldl (fun built entry => built.insert entry.1 entry.2)
          (held.insert id ⟨bytes, metadata, level, neighbors⟩)) :=
      ih fun other member => layers other (mem_cons_of_mem _ member)
    have each := each (fun list => list) neighbors fun list _ => inverts_neighbors list
    rw [map_id', count] at each
    have body : Inverts (4 * (level.toNat + 1) + rest.length)
        (both (writeEach writeNeighbors neighbors) (writeEach writeLinks rest))
        (ensure level.toNat (corrupt "snapshot vector level exceeds the blob") >>= fun _ =>
          times (level.toNat + 1) readNeighbors >>= fun neighbors =>
            readLinks (held.insert id ⟨bytes, metadata, level, neighbors⟩)
              (rest.map fun entry => (entry.1, entry.2.unlinked)))
        (rest.foldl (fun built entry => built.insert entry.1 entry.2)
          (held.insert id ⟨bytes, metadata, level, neighbors⟩)) :=
      ensure _ (by omega) (each.both later)
    have whole : Inverts (1 + (4 * (level.toNat + 1) + rest.length))
        (both (writeU8 level) (both (writeEach writeNeighbors neighbors) (writeEach writeLinks rest)))
        (readLinks held ((id, VectorRecord.unlinked ⟨bytes, metadata, level, neighbors⟩) ::
          rest.map fun entry => (entry.1, entry.2.unlinked)))
        (rest.foldl (fun built entry => built.insert entry.1 entry.2)
          (held.insert id ⟨bytes, metadata, level, neighbors⟩)) :=
      (inverts_u8 level).both body
    rw [writeEach, writeLinks, both_assoc]
    exact whole.weaken (by rw [length_cons]; omega)

def VectorCollection.Survives (serde : SerdeJson) (collection : VectorCollection) : Prop :=
  ∀ (id : String) (record : VectorRecord), collection.vectors[id]? = some record →
    ∀ value ∈ record.metadata.toList, serde.Survives value

def VectorCollection.Layered (collection : VectorCollection) : Prop :=
  ∀ (id : String) (record : VectorRecord), collection.vectors[id]? = some record →
    record.neighbors.length = record.level.toNat + 1

theorem foldl_unlinked (vectors : BTreeMap String VectorRecord) :
    vectors.toList.foldl (fun built entry => built.insert entry.1 entry.2.unlinked) ∅ =
      vectors.map fun _ record => record.unlinked := by
  apply ExtTreeMap.ext_getElem?
  intro id
  rw [foldl_toList (fun (built : BTreeMap String VectorRecord) id => built[id]?)
    (fun built entry => built.insert entry.1 entry.2.unlinked) (fun record _ => some record.unlinked)
    (fun built entry id => getElem?_insert built entry.1 id entry.2.unlinked) vectors ∅ id,
    ExtTreeMap.getElem?_map, ExtTreeMap.getElem?_empty]
  cases vectors[id]? <;> rfl

theorem foldl_linked (vectors : BTreeMap String VectorRecord) :
    vectors.toList.foldl (fun built entry => built.insert entry.1 entry.2)
      (vectors.map fun _ record => record.unlinked) = vectors := by
  apply ExtTreeMap.ext_getElem?
  intro id
  rw [foldl_toList (fun (built : BTreeMap String VectorRecord) id => built[id]?)
    (fun built entry => built.insert entry.1 entry.2) (fun record _ => some record)
    (fun built entry id => getElem?_insert built entry.1 id entry.2) vectors _ id, ExtTreeMap.getElem?_map]
  cases vectors[id]? <;> rfl

theorem inverts_vectorCollection
    (survives : collection.Survives serde) (layered : collection.Layered) :
    Inverts 4 (writeVectorCollection serde (name, collection)) (readVectorCollection serde) (name, collection) := by
  obtain ⟨params, vectors, entry⟩ := collection
  have held : ∀ item ∈ vectors.toList, vectors[item.1]? = some item.2 := fun item member =>
    ExtTreeMap.mem_toList_iff_getElem?_eq_some.mp member
  have records : Inverts _ (writeEach (writeVector serde) vectors.toList)
      (readVectorRecords serde ∅ vectors.toList.length) _ :=
    inverts_vectorRecords (fun item member => survives item.1 item.2 (held item member))
      (toList_distinct vectors) (fun _ _ => ExtTreeMap.getElem?_empty)
  rw [foldl_unlinked] at records
  have links : Inverts _ (writeEach writeLinks vectors.toList)
      (readLinks (vectors.map fun _ record => record.unlinked) _) _ :=
    inverts_links fun item member => layered item.1 item.2 (held item member)
  have order : (vectors.map fun _ record => record.unlinked).toList =
      vectors.toList.map fun entry => (entry.1, entry.2.unlinked) := ExtTreeMap.toList_map
  rw [foldl_linked, ← order] at links
  have whole : Inverts (4 + (4 + (1 + (1 + (4 + (4 + 4)))) + (4 + (vectors.toList.length + (1 + vectors.toList.length)))))
      (writeVectorCollection serde (name, ⟨params, vectors, entry⟩)) (readVectorCollection serde)
      (name, ⟨params, vectors, entry⟩) :=
    (inverts_text name).both ((inverts_params params).both ((inverts_count vectors.toList.length _).both
      (ensure _ (by omega) (records.both ((inverts_entry entry).both links.map)))))
  exact whole.weaken (by omega)

end Vectors

/-- A collection whose graph passed the full check passes the reader's, and its records have a
neighbor list for each layer. -/
theorem validateGraphFull_ok
    (valid : engine.validateGraphFull name collection = .ok ()) :
    engine.validateGraph name collection = .ok () ∧ collection.Layered := by
  obtain ⟨_, graph, -⟩ := bind_ok valid
  refine ⟨graph, ?_⟩
  intro id record held
  have member := ExtTreeMap.mem_toList_iff_getElem?_eq_some.mpr held
  obtain ⟨_, -, shape⟩ := bind_ok graph
  split at shape
  · rename_i empty
    rw [ExtTreeMap.isEmpty_iff.mp empty, ExtTreeMap.getElem?_empty] at held
    cases held
  split at shape
  · cases shape
  split at shape
  · cases shape
  split at shape
  · cases shape
  split at shape
  · cases shape
  obtain ⟨_, records, -⟩ := bind_ok shape
  have passed := forM_ok.mp records (id, record) member
  obtain ⟨_, -, afterId⟩ := bind_ok passed
  obtain ⟨_, -, afterStored⟩ := bind_ok afterId
  split at afterStored
  · cases afterStored
  split at afterStored
  · cases afterStored
  · rename_i count
    exact Decidable.not_not.mp count

theorem inverts_collections {serde : SerdeJson} {collections : Vectors}
    {entries : List (String × VectorCollection)}
    (survive : ∀ entry ∈ entries, entry.2.Survives serde)
    (valid : ∀ entry ∈ entries, engine.validateGraphFull entry.1 entry.2 = .ok ())
    (distinct : entries.Pairwise fun a b => a.1 ≠ b.1) (absent : ∀ entry ∈ entries, collections[entry.1]? = none) :
    Inverts entries.length (writeEach (writeVectorCollection serde) entries)
      (readCollections engine serde collections entries.length)
      (entries.foldl (fun built entry => built.insert entry.1 entry.2) collections) := by
  induction entries generalizing collections with
  | nil => exact of_reads (Reads.pure collections)
  | cons entry rest ih =>
    obtain ⟨apart, others⟩ := pairwise_cons.mp distinct
    obtain ⟨graph, layers⟩ := validateGraphFull_ok (valid entry mem_cons_self)
    have first : Inverts 4 (writeVectorCollection serde (entry.1, entry.2)) _ _ :=
      inverts_vectorCollection (survive entry mem_cons_self) layers
    have later := ih (fun other member => survive other (mem_cons_of_mem _ member))
      (fun other member => valid other (mem_cons_of_mem _ member)) others (absent_insert apart absent)
    obtain ⟨name, collection⟩ := entry
    have fresh : collections.contains name = false := contains_false (absent _ mem_cons_self)
    have guarded : Inverts rest.length (writeEach (writeVectorCollection serde) rest)
        (if collections.contains name then refuse (corrupt s!"snapshot repeats vector collection `{name}`")
          else do
            check (engine.validateGraph name collection)
            readCollections engine serde (collections.insert name collection) rest.length)
        (rest.foldl (fun built entry => built.insert entry.1 entry.2) (collections.insert name collection)) := by
      rw [fresh]
      exact checked graph later
    have whole : Inverts (4 + rest.length)
        (both (writeVectorCollection serde (name, collection)) (writeEach (writeVectorCollection serde) rest))
        (readCollections engine serde collections (rest.length + 1))
        (rest.foldl (fun built entry => built.insert entry.1 entry.2) (collections.insert name collection)) :=
      first.both guarded
    exact whole.weaken (by rw [length_cons]; omega)

/-- A state that can be written and read back: the parser restores every value it holds, and its
tables passed their checks. -/
structure DocState.Durable (engine : Engine) (serde : SerdeJson) (state : DocState) : Prop where
  docs : ∀ collection id doc, state.docs.get collection id = some doc → serde.Survives doc
  tables : ∀ (name : String) (table : ColumnTable), state.tables[name]? = some table → engine.SoundTable name table
  vectors : ∀ (name : String) (collection : VectorCollection), state.vectors[name]? = some collection →
    collection.Survives serde
  seq : state.lastSeq < u64Max

section Snapshot

variable {engine : Engine} {serde : SerdeJson} {state : DocState}

theorem inverts_docsSection (durable : state.Durable engine serde) :
    Inverts state.docs.iter.length (writeEach (writeDoc serde) state.docs.iter)
      (readDocs serde Docs.empty state.docs.iter.length) state.docs := by
  have survive : ∀ entry ∈ state.docs.iter, serde.Survives entry.2.2 := fun entry member =>
    durable.docs entry.1 entry.2.1 entry.2.2 ((mem_iter _ _ _ _).mp member)
  have read := inverts_docs survive (iter_distinct state.docs) (fun entry _ => (rfl : Docs.empty.get _ _ = none))
  rwa [insertDocs_iter] at read

theorem inverts_tablesSection (durable : state.Durable engine serde) (required : Bool)
    (filled : required = true → state.tables.isEmpty = false) :
    Inverts 4 (writeTables state.tables) (readColumnTables engine required) state.tables := by
  have sound : ∀ entry ∈ state.tables.toList, engine.SoundTable entry.1 entry.2 := fun entry member =>
    durable.tables entry.1 entry.2 (ExtTreeMap.mem_toList_iff_getElem?_eq_some.mp member)
  have read := inverts_tables sound (toList_distinct state.tables)
    (fun entry _ => (ExtTreeMap.getElem?_empty : (∅ : Tables)[entry.1]? = none))
  rw [foldl_insert_toList] at read
  have body := ensure (corrupt "snapshot table count exceeds the blob") (k := state.tables.toList.length)
    (Nat.le_refl _) read
  have accepted : (required && state.tables.toList.length == 0) = false := by
    rcases required with _ | _
    · rfl
    have some_ := filled rfl
    cases entries : state.tables.toList with
    | cons entry rest => rfl
    | nil =>
      rw [ExtTreeMap.isEmpty_iff.mpr (ExtTreeMap.toList_eq_nil_iff.mp entries)] at some_
      cases some_
  refine ((inverts_count state.tables.toList.length _).both (m := state.tables.toList.length) ?_).weaken (by omega)
  rw [accepted]
  exact body

theorem inverts_vectorsSection (durable : state.Durable engine serde) (filled : state.vectors.isEmpty = false)
    (valid : ∀ entry ∈ state.vectors.toList, engine.validateGraphFull entry.1 entry.2 = .ok ()) :
    Inverts 4 (writeVectors serde state.vectors) (readVectorCollections engine serde) state.vectors := by
  have survive : ∀ entry ∈ state.vectors.toList, entry.2.Survives serde := fun entry member =>
    durable.vectors entry.1 entry.2 (ExtTreeMap.mem_toList_iff_getElem?_eq_some.mp member)
  have read := inverts_collections survive valid (toList_distinct state.vectors)
    (fun entry _ => (ExtTreeMap.getElem?_empty : (∅ : Vectors)[entry.1]? = none))
  rw [foldl_insert_toList] at read
  have body := ensure (corrupt "snapshot vector count exceeds the blob") (k := state.vectors.toList.length)
    (Nat.le_refl _) read
  have counted : state.vectors.toList.length ≠ 0 := by
    intro none
    rw [ExtTreeMap.isEmpty_iff.mpr (ExtTreeMap.toList_eq_nil_iff.mp (List.eq_nil_of_length_eq_zero none))] at filled
    cases filled
  refine ((inverts_count state.vectors.toList.length _).both (m := state.vectors.toList.length) ?_).weaken (by omega)
  rw [if_neg counted]
  exact body

variable {version : Nat} {blob : List UInt8}

theorem decodeSnapshot_snapshotOf {seq size : Nat} {sections : Written} {snapshot : Snapshot}
    (inverts : Inverts size (both (.ok snapMagic) (both (.ok (toLe 4 version)) (both (writeU64 seq) sections)))
      (readSnapshot engine serde) snapshot)
    (long : 24 ≤ size) (wrote : snapshotOf version seq sections = .ok blob) :
    decodeSnapshot engine serde blob = .ok snapshot ∧ blob ≠ [] := by
  obtain ⟨body, encoded, same⟩ := bind_ok wrote
  cases same
  obtain ⟨reads, enough⟩ := inverts body encoded
  have length : (body ++ crcBytes body).length = body.length + 4 := by
    rw [length_append, crcBytes_length]
  have front : (body ++ crcBytes body).take ((body ++ crcBytes body).length - 4) = body := by
    rw [length]
    exact take_left' rfl
  have back : (body ++ crcBytes body).drop ((body ++ crcBytes body).length - 4) = crcBytes body := by
    rw [length]
    exact drop_left' rfl
  have stored : ¬ (crc32 body).toNat ≠ fromLe (crcBytes body) := by
    rw [fromLe_crcBytes]
    exact fun differ => differ rfl
  refine ⟨?_, ?_⟩
  · rw [decodeSnapshot, if_neg (by omega)]
    simp only [front, back]
    rw [if_neg stored, if_neg (by omega), readAll_reads reads]
  · intro empty
    rw [empty] at length
    simp at length

theorem inverts_magic : Inverts 8 (.ok snapMagic) (take 8) snapMagic := of_reads (reads_take snapMagic)

theorem inverts_version (small : version < 2 ^ 32) : Inverts 4 (.ok (toLe 4 version)) readU32 version := by
  have inverts := of_reads (reads_u32 small)
  rwa [toLe_length] at inverts

theorem inverts_header (durable : state.Durable engine serde) {size : Nat} {rest : Written}
    (known : version = 1 ∨ version = 2 ∨ version = 3)
    (sections : Inverts size rest (do
      let tables ← (if version = 2 ∨ version = 3 then readColumnTables engine (version == 2) else pure ∅)
      let vectors ← (if version = 3 then readVectorCollections engine serde else pure ∅)
      pure (Snapshot.mk state.lastSeq state.docs tables vectors))
      ⟨state.lastSeq, state.docs, state.tables, state.vectors⟩) :
    Inverts 24 (both (.ok snapMagic) (both (.ok (toLe 4 version)) (both (writeU64 state.lastSeq)
      (both (writeDocs serde state.docs) rest)))) (readSnapshot engine serde)
      ⟨state.lastSeq, state.docs, state.tables, state.vectors⟩ := by
  have docs := inverts_docsSection durable
  have small : version < 2 ^ 32 := by omega
  rw [writeDocs, both_assoc]
  refine weaken (inverts_magic.both (m := 4 + (8 + (4 + (state.docs.iter.length + size)))) ?_) (by omega)
  refine (inverts_version small).both (m := 8 + (4 + (state.docs.iter.length + size))) ?_
  rw [if_neg (by omega)]
  exact (inverts_u64 durable.seq).both ((inverts_count state.docs.iter.length _).both
    (ensure _ (by omega) (docs.both sections)))

theorem decodeSnapshot_encodeStateSnapshot (durable : state.Durable engine serde)
    (wrote : encodeStateSnapshot serde engine state = .ok blob) :
    decodeSnapshot engine serde blob = .ok ⟨state.lastSeq, state.docs, state.tables, state.vectors⟩ ∧ blob ≠ [] := by
  unfold encodeStateSnapshot at wrote
  split at wrote
  · rename_i some_
    have filled : state.vectors.isEmpty = false := eq_false_of_ne_true some_
    rw [encodeSnapshotV3, filled] at wrote
    obtain ⟨_, valid, encoded⟩ := bind_ok wrote
    have vectors := inverts_vectorsSection durable filled (forM_ok.mp valid)
    have tables := inverts_tablesSection durable false fun none => nomatch none
    exact decodeSnapshot_snapshotOf (inverts_header durable (.inr (.inr rfl)) (tables.both vectors.map))
      (Nat.le_refl _) encoded
  · rename_i noVectors
    have vectors : state.vectors = ∅ := ExtTreeMap.isEmpty_iff.mp (Decidable.not_not.mp noVectors)
    split at wrote
    · rename_i noTables
      have tables : state.tables = ∅ := ExtTreeMap.isEmpty_iff.mp noTables
      have nothing : Inverts 0 (.ok []) (pure (Snapshot.mk state.lastSeq state.docs ∅ ∅) : Cur Snapshot)
          ⟨state.lastSeq, state.docs, state.tables, state.vectors⟩ := by
        rw [tables, vectors]
        exact of_reads (Reads.pure _)
      have header := inverts_header durable (.inl rfl) nothing
      have same : both (writeDocs serde state.docs) (.ok []) = writeDocs serde state.docs := by
        cases writeDocs serde state.docs with
        | error err => rfl
        | ok bytes => exact congrArg Except.ok (append_nil bytes)
      rw [same] at header
      exact decodeSnapshot_snapshotOf header (Nat.le_refl _) wrote
    · rename_i someTables
      have tables := inverts_tablesSection durable true fun _ => eq_false_of_ne_true someTables
      have sections : Inverts 4 (writeTables state.tables)
          (readColumnTables engine true >>= fun tables => pure (Snapshot.mk state.lastSeq state.docs tables ∅))
          ⟨state.lastSeq, state.docs, state.tables, state.vectors⟩ := by
        rw [vectors]
        exact tables.map
      exact decodeSnapshot_snapshotOf (inverts_header durable (.inr (.inl rfl)) sections) (Nat.le_refl _) wrote

end Snapshot

end FerroLoop.Store

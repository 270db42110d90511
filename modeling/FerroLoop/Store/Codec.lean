import FerroLoop.Lib.Checked
import FerroLoop.Store.Layout

namespace FerroLoop.Store

open Bytes Checked List
open Text (textBytes)

variable {α β : Type}

/-- Whatever is written has at least `size` bytes, and the reader consumes exactly it and gives
the value. -/
def Inverts (size : Nat) (written : Written) (p : Cur α) (a : α) : Prop :=
  ∀ bytes, written = .ok bytes → Reads p bytes a ∧ size ≤ bytes.length

variable {bytes : List UInt8}

theorem both_ok {first second : Written} (wrote : both first second = .ok bytes) :
    ∃ front back, first = .ok front ∧ second = .ok back ∧ bytes = front ++ back := by
  obtain ⟨front, frontOk, rest⟩ := bind_ok wrote
  obtain ⟨back, backOk, same⟩ := bind_ok rest
  cases same
  exact ⟨front, back, frontOk, backOk, rfl⟩

theorem both_assoc (first second third : Written) : both (both first second) third = both first (both second third) := by
  rcases first with err | front
  · rfl
  rcases second with err | middle
  · rfl
  cases third with
  | error err => rfl
  | ok back => exact congrArg Except.ok (append_assoc front middle back)

variable {n : Nat}

namespace Inverts

variable {a : α} {p : Cur α} {written : Written} {f : α → Cur β} {b : β}

theorem of_reads (reads : Reads p bytes a) :
    Inverts bytes.length (.ok bytes) p a := by
  intro wrote same
  cases same
  exact ⟨reads, Nat.le_refl _⟩

theorem weaken {size smaller : Nat} (inverts : Inverts size written p a)
    (le : smaller ≤ size) : Inverts smaller written p a := by
  intro bytes wrote
  obtain ⟨reads, long⟩ := inverts bytes wrote
  exact ⟨reads, Nat.le_trans le long⟩

theorem both {m : Nat} {first second : Written}
    (head : Inverts n first p a) (tail : Inverts m second (f a) b) :
    Inverts (n + m) (both first second) (p >>= f) b := by
  intro bytes wrote
  obtain ⟨front, back, frontOk, backOk, rfl⟩ := both_ok wrote
  obtain ⟨readsFront, frontLong⟩ := head front frontOk
  obtain ⟨readsBack, backLong⟩ := tail back backOk
  refine ⟨readsFront.bind readsBack, ?_⟩
  rw [length_append]
  omega

theorem andThen
    (head : Inverts n written p a) (tail : Reads (f a) [] b) : Inverts n written (p >>= f) b := by
  intro bytes wrote
  obtain ⟨reads, long⟩ := head bytes wrote
  have both := reads.bind tail
  rw [append_nil] at both
  exact ⟨both, long⟩

theorem map {f : α → β} (head : Inverts n written p a) :
    Inverts n written (p >>= fun a => Pure.pure (f a)) (f a) := head.andThen (Reads.pure (f a))

theorem checked {x : Except StoreError α}
    (passed : x = .ok a) (tail : Inverts n written (f a) b) : Inverts n written (check x >>= f) b := by
  intro bytes wrote
  obtain ⟨reads, long⟩ := tail bytes wrote
  refine ⟨?_, long⟩
  subst passed
  exact reads

theorem ensure {k : Nat} (failure : StoreError) (fits : k ≤ n)
    (tail : Inverts n written p a) : Inverts n written (Bytes.ensure k failure >>= fun _ => p) a := by
  intro bytes wrote
  obtain ⟨reads, long⟩ := tail bytes wrote
  exact ⟨reads.ensure_then (Nat.le_trans fits long), long⟩

theorem each {write : β → Written} {read : Cur α} (value : β → α) {size : Nat} (items : List β)
    (every : ∀ item ∈ items, Inverts size (write item) read (value item)) :
    Inverts (size * items.length) (writeEach write items) (times items.length read) (items.map value) := by
  induction items with
  | nil => exact of_reads (Reads.pure [])
  | cons item rest ih =>
    have first := every item mem_cons_self
    have others := ih fun other member => every other (mem_cons_of_mem _ member)
    have size : size * (item :: rest).length = size + size * rest.length := by
      rw [length_cons, Nat.mul_succ]
      omega
    rw [size]
    exact first.both others.map

end Inverts

def Refuses (written : Written) (p : Cur α) : Prop :=
  ∀ bytes, written = .ok bytes → ∀ rest, ∃ err, p.run (bytes ++ rest) = .error err

namespace Refuses

variable {p : Cur α}

theorem second {first second : Written} {f : α → Cur β} {a : α} (head : Inverts n first p a)
    (tail : Refuses second (f a)) : Refuses (both first second) (p >>= f) := by
  intro bytes wrote rest
  obtain ⟨front, back, frontOk, backOk, rfl⟩ := both_ok wrote
  obtain ⟨err, fails⟩ := tail back backOk rest
  have read := (head front frontOk).1 (back ++ rest)
  refine ⟨err, ?_⟩
  rw [append_assoc]
  simp only [StateT.run_bind, read]
  exact fails

variable {written : Written}

theorem bind {f : α → Cur β} (head : Refuses written p) :
    Refuses written (p >>= f) := by
  intro bytes wrote rest
  obtain ⟨err, fails⟩ := head bytes wrote rest
  refine ⟨err, ?_⟩
  simp only [StateT.run_bind, fails]
  rfl

theorem first {first second : Written} (head : Refuses first p) : Refuses (both first second) p := by
  intro bytes wrote rest
  obtain ⟨front, back, frontOk, -, rfl⟩ := both_ok wrote
  obtain ⟨err, fails⟩ := head front frontOk (back ++ rest)
  refine ⟨err, ?_⟩
  rw [append_assoc]
  exact fails

theorem ensure {k : Nat} {failure : StoreError} (tail : Refuses written p) :
    Refuses written (Bytes.ensure k failure >>= fun _ => p) := by
  intro bytes wrote rest
  obtain ⟨err, fails⟩ := tail bytes wrote rest
  by_cases short : (bytes ++ rest).length < k
  · have guard : (Bytes.ensure k failure).run (bytes ++ rest) = .error failure := if_pos short
    refine ⟨failure, ?_⟩
    simp only [StateT.run_bind, guard]
    rfl
  · have guard : (Bytes.ensure k failure).run (bytes ++ rest) = .ok ((), bytes ++ rest) := if_neg short
    refine ⟨err, ?_⟩
    simp only [StateT.run_bind, guard]
    exact fails

end Refuses

theorem reads_take (bytes : List UInt8) : Reads (take bytes.length) bytes bytes := by
  intro rest
  have enough : ¬ (bytes ++ rest).length < bytes.length := by
    rw [length_append]
    omega
  show (if (bytes ++ rest).length < bytes.length then _ else _) = _
  rw [if_neg enough, take_left', drop_left']
  · rfl
  · rfl

theorem reads_u8 (byte : UInt8) : Reads readU8 [byte] byte := (reads_take [byte]).map

variable {n : Nat}

theorem reads_u32 (fits : n < 2 ^ 32) : Reads readU32 (toLe 4 n) n := by
  have taken := reads_take (toLe 4 n)
  have mapped := taken.map (f := fromLe)
  rw [fromLe_toLe (by omega)] at mapped
  exact mapped

theorem reads_u64 (fits : n < u64Max) : Reads readU64 (toLe 8 n) n := by
  have taken := reads_take (toLe 8 n)
  have mapped := taken.map (f := fromLe)
  rw [fromLe_toLe (by rw [u64Max] at fits; omega)] at mapped
  exact mapped

theorem inverts_u8 (byte : UInt8) : Inverts 1 (writeU8 byte) readU8 byte := Inverts.of_reads (reads_u8 byte)

theorem inverts_u32 (n : UInt32) : Inverts 4 (writeU32 n) readU32 n.toNat := by
  have inverts := Inverts.of_reads (reads_u32 n.toNat_lt)
  exact inverts

theorem inverts_u64 (fits : n < u64Max) : Inverts 8 (writeU64 n) readU64 n := by
  have inverts := Inverts.of_reads (reads_u64 fits)
  exact inverts

theorem inverts_count (count : Nat) (failure : String) : Inverts 4 (writeCount count failure) readU32 count := by
  intro bytes wrote
  unfold writeCount at wrote
  split at wrote
  · rename_i fits
    cases wrote
    exact ⟨reads_u32 fits, Nat.le_of_eq (toLe_length 4 count).symm⟩
  · cases wrote

theorem inverts_lp (bytes : List UInt8) : Inverts 4 (writeLp bytes) readLp bytes := by
  have taken := (Inverts.of_reads (reads_take bytes)).ensure (corrupt "length prefix exceeds the record")
    (Nat.le_refl _)
  exact ((inverts_count bytes.length _).both taken).weaken (Nat.le_add_right 4 _)

theorem fromUTF8?_textBytes (text : String) : String.fromUTF8? ⟨(textBytes text).toArray⟩ = some text := by
  have same : (⟨(textBytes text).toArray⟩ : ByteArray) = text.toByteArray := by
    unfold textBytes
    rw [Array.toArray_toList]
  rw [same, String.fromUTF8?, dif_pos text.isValidUTF8]
  rfl

theorem inverts_text (text : String) : Inverts 4 (writeText text) readText text := by
  refine (inverts_lp (textBytes text)).andThen ?_
  rw [fromUTF8?_textBytes]
  exact Reads.pure text

theorem typeFromTag_typeTag (ty : ColumnType) : typeFromTag (typeTag ty) = .ok ty := by
  cases ty <;> rfl

theorem storageFromTag_storageTag (storage : VectorStorage) : storageFromTag (storageTag storage) = .ok storage := by
  cases storage <;> rfl

theorem metricFromTag_metricTag (metric : VectorMetric) : metricFromTag (metricTag metric) = .ok metric := by
  cases metric <;> rfl

theorem inverts_column (column : ColumnDef) : Inverts (4 + 1) (writeColumn column) readColumn column := by
  refine (inverts_text column.name).both ((inverts_u8 _).andThen ?_)
  rw [typeFromTag_typeTag]
  exact Reads.pure column

theorem inverts_columns (columns : List ColumnDef) (failure : String) :
    Inverts 4 (writeColumns columns) (readColumns failure) columns := by
  have each := Inverts.each (fun column => column) columns fun column _ => inverts_column column
  rw [map_id'] at each
  exact ((inverts_count columns.length _).both (each.ensure _ (by omega))).weaken (by omega)

theorem inverts_params (params : VectorParams) :
    Inverts (4 + (1 + (1 + (4 + (4 + 4))))) (writeParams params) readParams params := by
  obtain ⟨dim, storage, metric, m, efConstruction, efSearch⟩ := params
  have last := (inverts_u32 efSearch).map (f := fun last => (⟨UInt32.ofNat dim.toNat, storage, metric,
    UInt32.ofNat m.toNat, UInt32.ofNat efConstruction.toNat, UInt32.ofNat last⟩ : VectorParams))
  simp only [UInt32.ofNat_toNat] at last
  refine (inverts_u32 dim).both ((inverts_u8 _).both ?_)
  refine Inverts.checked (storageFromTag_storageTag storage) ((inverts_u8 _).both ?_)
  refine Inverts.checked (metricFromTag_metricTag metric) ((inverts_u32 m).both ((inverts_u32 efConstruction).both ?_))
  simp only [UInt32.ofNat_toNat]
  exact last

section Json

variable {serde : SerdeJson}

def SerdeJson.Survives (serde : SerdeJson) (value : Value) : Prop := serde.fromSlice (serde.toVec value) = some value

variable {value : Value}

theorem inverts_json (survives : serde.Survives value) (failure : String) :
    Inverts 4 (writeJson serde value) (readJson serde failure) value := by
  refine (inverts_lp (serde.toVec value)).andThen ?_
  rw [survives]
  exact Reads.pure value

theorem inverts_metadata {metadata : Option Value} (survive : ∀ value ∈ metadata.toList, serde.Survives value) :
    Inverts 1 (writeMetadata serde metadata) (readMetadata serde) metadata := by
  cases metadata with
  | none => exact (inverts_u8 0).andThen (Reads.pure none)
  | some value =>
    have survives : serde.Survives value := survive value (by simp)
    exact ((inverts_u8 1).both (inverts_json survives _).map).weaken (by omega)

theorem inverts_op {op : Op} (survive : ∀ value ∈ op.values, serde.Survives value) :
    Inverts 1 (encodeOp serde op) (readOp serde) op := by
  cases op with
  | put collection id doc =>
    have survives : serde.Survives doc := survive doc (by simp [Op.values])
    exact ((inverts_u8 1).both ((inverts_text collection).both ((inverts_text id).both
      (inverts_json survives _).map))).weaken (by omega)
  | delete collection id =>
    exact ((inverts_u8 2).both ((inverts_text collection).both (inverts_text id).map)).weaken (by omega)
  | createColumnTable name columns =>
    exact ((inverts_u8 3).both ((inverts_text name).both (inverts_columns columns _).map)).weaken (by omega)
  | appendColumnGroup name bytes =>
    exact ((inverts_u8 4).both ((inverts_text name).both (inverts_lp bytes).map)).weaken (by omega)
  | createVectorCollection name params =>
    exact ((inverts_u8 5).both ((inverts_text name).both (inverts_params params).map)).weaken (by omega)
  | upsertVector collection id bytes metadata =>
    exact ((inverts_u8 6).both ((inverts_text collection).both ((inverts_text id).both ((inverts_lp bytes).both
      (inverts_metadata survive).map)))).weaken (by omega)
  | deleteVector collection id =>
    exact ((inverts_u8 7).both ((inverts_text collection).both (inverts_text id).map)).weaken (by omega)

theorem refuses_json (lost : serde.fromSlice (serde.toVec value) = none) (failure : String) :
    Refuses (writeJson serde value) (readJson serde failure) := by
  intro bytes wrote rest
  have read := (inverts_lp (serde.toVec value) bytes wrote).1 rest
  refine ⟨corrupt failure, ?_⟩
  simp only [readJson, StateT.run_bind, read, ok_bind, lost]
  rfl

variable {seq : Nat} {ops : List Op} {payload frame : List UInt8} {collection : String}

theorem decodePayload_put_lost {id : String} {doc : Value}
    (small : seq < u64Max) (lost : serde.fromSlice (serde.toVec doc) = none)
    (wrote : encodePayload serde seq (.put collection id doc :: ops) = .ok payload) :
    ∃ err, decodePayload serde payload = .error err := by
  have put : Refuses (encodeOp serde (.put collection id doc)) (readOp serde) :=
    Refuses.second (inverts_u8 1) (Refuses.second (inverts_text collection) (Refuses.second (inverts_text id)
      (refuses_json lost "document is not json").bind))
  have all : Refuses (encodePayload serde seq (.put collection id doc :: ops)) (readPayload serde) :=
    Refuses.second (inverts_u64 small) (Refuses.second (inverts_count _ _) put.bind.first.bind.ensure)
  obtain ⟨err, fails⟩ := all payload wrote []
  rw [append_nil] at fails
  exact ⟨err, by rw [decodePayload, readAll, fails]⟩

theorem inverts_payload (small : seq < u64Max)
    (survive : ∀ op ∈ ops, ∀ value ∈ op.values, serde.Survives value) :
    Inverts 12 (encodePayload serde seq ops) (readPayload serde) (seq, ops) := by
  have each := Inverts.each (fun op => op) ops fun op member => inverts_op (survive op member)
  rw [map_id'] at each
  have body := (each.map (f := fun ops => (seq, ops))).ensure (k := ops.length)
    (corrupt "op count exceeds the wal payload") (by omega)
  exact ((inverts_u64 small).both ((inverts_count ops.length _).both body)).weaken (by omega)

theorem readAll_reads {p : Cur α} {a : α} (reads : Reads p bytes a) : readAll p bytes = .ok a := by
  rw [readAll, reads.run_all]

theorem decodePayload_encodePayload (small : seq < u64Max)
    (survive : ∀ op ∈ ops, ∀ value ∈ op.values, serde.Survives value)
    (wrote : encodePayload serde seq ops = .ok payload) : decodePayload serde payload = .ok (seq, ops) :=
  readAll_reads (inverts_payload small survive payload wrote).1

theorem encodeFrame_ok (wrote : encodeFrame serde seq ops = .ok frame) :
    ∃ payload, encodePayload serde seq ops = .ok payload ∧ payload.length < u32Max ∧
      frame = toLe 4 payload.length ++ (crcBytes payload ++ payload) := by
  obtain ⟨payload, payloadOk, framed⟩ := bind_ok wrote
  obtain ⟨front, back, frontOk, backOk, rfl⟩ := both_ok framed
  cases backOk
  unfold writeCount at frontOk
  split at frontOk
  · cases frontOk
    exact ⟨payload, payloadOk, ‹_›, rfl⟩
  · cases frontOk

theorem crcBytes_length (data : List UInt8) : (crcBytes data).length = 4 := toLe_length 4 _

theorem fromLe_crcBytes (data : List UInt8) : fromLe (crcBytes data) = (crc32 data).toNat :=
  fromLe_toLe (crc32 data).toNat_lt

theorem decodeWalPrefix_payload (small : payload.length < u32Max) (rest : List UInt8) :
    decodeWalPrefix serde (toLe 4 payload.length ++ (crcBytes payload ++ payload) ++ rest) = (do
      let frame ← decodePayload serde payload
      let (frames, consumed) ← decodeWalPrefix serde rest
      .ok (frame :: frames, 8 + payload.length + consumed)) := by
  have lengthField : (toLe 4 payload.length).length = 4 := toLe_length 4 _
  have crcField := crcBytes_length payload
  have len : fromLe ((toLe 4 payload.length ++ (crcBytes payload ++ payload) ++ rest).take 4) = payload.length := by
    rw [append_assoc, take_left' lengthField, fromLe_toLe small]
  have tail : (toLe 4 payload.length ++ (crcBytes payload ++ payload) ++ rest).drop 4 =
      crcBytes payload ++ (payload ++ rest) := by
    rw [append_assoc, drop_left' lengthField, append_assoc]
  have stored : fromLe (((toLe 4 payload.length ++ (crcBytes payload ++ payload) ++ rest).drop 4).take 4) =
      (crc32 payload).toNat := by
    rw [tail, take_left' crcField, fromLe_crcBytes]
  have body : (toLe 4 payload.length ++ (crcBytes payload ++ payload) ++ rest).drop 8 = payload ++ rest := by
    rw [← drop_drop (i := 4) (j := 4), tail, drop_left' crcField]
  have long : ¬ (toLe 4 payload.length ++ (crcBytes payload ++ payload) ++ rest).length < 8 := by
    simp only [length_append, toLe_length, crcField]
    omega
  have whole : ¬ (payload ++ rest).length < payload.length := by
    rw [length_append]
    omega
  rw [decodeWalPrefix, if_neg long]
  simp only [len, stored, body]
  rw [if_neg whole, take_left', if_neg (fun differ => differ rfl), drop_left']
  · rfl
  · rfl

theorem decodeWalPrefix_put_lost {id : String} {doc : Value}
    (small : seq < u64Max) (lost : serde.fromSlice (serde.toVec doc) = none)
    (wrote : encodeFrame serde seq (.put collection id doc :: ops) = .ok frame) (rest : List UInt8) :
    ∃ err, decodeWalPrefix serde (frame ++ rest) = .error err := by
  obtain ⟨payload, payloadOk, fits, rfl⟩ := encodeFrame_ok wrote
  obtain ⟨err, fails⟩ := decodePayload_put_lost small lost payloadOk
  rw [decodeWalPrefix_payload fits, fails]
  exact ⟨err, rfl⟩

theorem decodeWalPrefix_nil : decodeWalPrefix serde [] = .ok ([], 0) := by
  rw [decodeWalPrefix]
  rfl

theorem decodeWalPrefix_frame (small : seq < u64Max)
    (survive : ∀ op ∈ ops, ∀ value ∈ op.values, serde.Survives value)
    (wrote : encodeFrame serde seq ops = .ok frame) (rest : List UInt8) :
    decodeWalPrefix serde (frame ++ rest) = (do
      let (frames, consumed) ← decodeWalPrefix serde rest
      .ok ((seq, ops) :: frames, frame.length + consumed)) := by
  obtain ⟨payload, payloadOk, fits, rfl⟩ := encodeFrame_ok wrote
  rw [decodeWalPrefix_payload fits, decodePayload_encodePayload small survive payloadOk, ok_bind]
  have length : (toLe 4 payload.length ++ (crcBytes payload ++ payload)).length = 8 + payload.length := by
    simp only [length_append, toLe_length, crcBytes_length]
    omega
  rw [length]

end Json

end FerroLoop.Store

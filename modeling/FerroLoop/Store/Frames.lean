import FerroLoop.Store.Codec
import FerroLoop.Store.Sample

namespace FerroLoop.Store

open Bytes Checked List Sample

/-- What is documented of the parser, with the converse for floats: one that it does not restore
comes back as another value. -/
structure SerdeJson.Exact (serde : SerdeJson) : Prop extends serde.Documented where
  changes : ∀ value, value.nesting ≤ depthLimit → (∃ bits ∈ value.floats, ¬ serde.restores bits) →
    serde.fromSlice (serde.toVec value) ≠ some value

theorem SerdeJson.Exact.survives_iff {serde : SerdeJson} (exactly : serde.Exact) (value : Value) :
    serde.Survives value ↔ serde.Readable value := by
  constructor
  · intro survives
    have shallow : value.nesting ≤ depthLimit := by
      apply Nat.le_of_not_lt
      intro deep
      have refused := exactly.too_deep value deep
      rw [survives] at refused
      cases refused
    refine ⟨shallow, ?_⟩
    intro bits member
    apply Classical.byContradiction
    intro lost
    exact exactly.changes value shallow ⟨bits, member, lost⟩ survives
  · exact exactly.reads_back value

variable {α β : Type}

/-- What was written is refused, or it is read as something that is the value written only if the
condition holds. -/
def Reparses (size : Nat) (written : Written) (p : Cur α) (value : α) (condition : Prop) : Prop :=
  Refuses written p ∨ ∃ other, Inverts size written p other ∧ (other = value → condition)

namespace Reparses

variable {n m : Nat} {first second written : Written} {p : Cur α} {value : α} {condition : Prop}

theorem of_inverts (inverts : Inverts n written p value) (holds : condition) :
    Reparses n written p value condition :=
  .inr ⟨value, inverts, fun _ => holds⟩

theorem weaken (reparses : Reparses n written p value condition) (le : m ≤ n) :
    Reparses m written p value condition := by
  rcases reparses with refuses | ⟨other, inverts, same⟩
  · exact .inl refuses
  · exact .inr ⟨other, inverts.weaken le, same⟩

theorem after {f : α → Cur β} {b : β} (head : Inverts n first p value) (tail : Reparses m second (f value) b condition) :
    Reparses (n + m) (Store.both first second) (p >>= f) b condition := by
  rcases tail with refuses | ⟨other, inverts, same⟩
  · exact .inl (Refuses.second head refuses)
  · exact .inr ⟨other, head.both inverts, same⟩

theorem map {f : α → β} (reparses : Reparses n written p value condition)
    (distinct : ∀ other, f other = f value → other = value) :
    Reparses n written (p >>= fun a => pure (f a)) (f value) condition := by
  rcases reparses with refuses | ⟨other, inverts, same⟩
  · exact .inl refuses.bind
  · exact .inr ⟨f other, inverts.map, fun equal => same (distinct other equal)⟩

theorem ensure {k : Nat} (failure : StoreError) (fits : k ≤ n) (reparses : Reparses n written p value condition) :
    Reparses n written (Bytes.ensure k failure >>= fun _ => p) value condition := by
  rcases reparses with refuses | ⟨other, inverts, same⟩
  · exact .inl refuses.ensure
  · exact .inr ⟨other, inverts.ensure failure fits, same⟩

theorem each {write : β → Written} {read : Cur β} {holds : β → Prop} {size : Nat} (items : List β)
    (every : ∀ item, Reparses size (write item) read item (holds item)) :
    Reparses (size * items.length) (writeEach write items) (times items.length read) items (∀ item ∈ items, holds item) := by
  induction items with
  | nil =>
    refine of_inverts (Inverts.of_reads (Reads.pure [])) ?_
    intro item member
    cases member
  | cons item rest ih =>
    have count : size * (item :: rest).length = size + size * rest.length := by
      rw [length_cons, Nat.mul_succ]
      omega
    rw [count]
    rcases every item with refuses | ⟨other, inverts, same⟩
    · exact .inl refuses.bind.first
    rcases ih with refuses | ⟨others, invertsRest, sameRest⟩
    · exact .inl (Refuses.second inverts refuses.bind)
    refine .inr ⟨other :: others, inverts.both invertsRest.map, ?_⟩
    intro equal held member
    obtain ⟨firstSame, restSame⟩ := List.cons.inj equal
    rcases mem_cons.mp member with rfl | later
    · exact same firstSame
    · exact sameRest restSame held later

end Reparses

section Json

variable {serde : SerdeJson}

theorem reparses_json (value : Value) (failure : String) :
    Reparses 4 (writeJson serde value) (readJson serde failure) value (serde.Survives value) := by
  rcases parsed : serde.fromSlice (serde.toVec value) with _ | other
  · exact .inl (refuses_json parsed failure)
  refine .inr ⟨other, (inverts_lp (serde.toVec value)).andThen ?_, ?_⟩
  · rw [parsed]
    exact Reads.pure other
  · rintro rfl
    exact parsed

theorem reparses_metadata (metadata : Option Value) :
    Reparses 1 (writeMetadata serde metadata) (readMetadata serde) metadata
      (∀ value ∈ metadata.toList, serde.Survives value) := by
  cases metadata with
  | none =>
    refine Reparses.of_inverts (inverts_metadata ?_) ?_
    · intro value member
      cases member
    · intro value member
      cases member
  | some value =>
    have whole : Reparses (1 + 4) (writeMetadata serde (some value)) (readMetadata serde) (some value)
        (serde.Survives value) :=
      Reparses.after (inverts_u8 1) ((reparses_json value _).map fun _ equal => Option.some.inj equal)
    rcases whole with refuses | ⟨other, inverts, same⟩
    · exact .inl refuses
    refine .inr ⟨other, inverts.weaken (by omega), ?_⟩
    intro equal held member
    cases Option.mem_toList.mp member
    exact same equal

theorem reparses_op (op : Op) :
    Reparses 1 (encodeOp serde op) (readOp serde) op (∀ value ∈ op.values, serde.Survives value) := by
  have plain : op.values = [] → Reparses 1 (encodeOp serde op) (readOp serde) op
      (∀ value ∈ op.values, serde.Survives value) := by
    intro none
    refine Reparses.of_inverts (inverts_op ?_) ?_
    · rw [none]
      intro value member
      cases member
    · rw [none]
      intro value member
      cases member
  cases op with
  | put collection id doc =>
    have read : Reparses 4 (writeJson serde doc) (readJson serde "document is not json") doc (serde.Survives doc) :=
      reparses_json doc _
    have body := read.map (f := fun doc => Op.put collection id doc) fun other equal => (Op.put.inj equal).2.2
    have whole : Reparses (1 + (4 + (4 + 4))) (encodeOp serde (.put collection id doc)) (readOp serde)
        (.put collection id doc) (serde.Survives doc) :=
      Reparses.after (inverts_u8 1) (Reparses.after (inverts_text collection) (Reparses.after (inverts_text id) body))
    rcases whole with refuses | ⟨other, inverts, same⟩
    · exact .inl refuses
    refine .inr ⟨other, inverts.weaken (by omega), ?_⟩
    intro equal held member
    rw [Op.values, mem_singleton] at member
    subst member
    exact same equal
  | upsertVector collection id bytes metadata =>
    have read : Reparses 1 (writeMetadata serde metadata) (readMetadata serde) metadata
        (∀ value ∈ metadata.toList, serde.Survives value) := reparses_metadata metadata
    have body := read.map (f := fun metadata => Op.upsertVector collection id bytes metadata) fun other equal =>
      (Op.upsertVector.inj equal).2.2.2
    exact (Reparses.after (inverts_u8 6) (Reparses.after (inverts_text collection)
      (Reparses.after (inverts_text id) (Reparses.after (inverts_lp bytes) body)))).weaken (by omega)
  | delete collection id | createColumnTable name columns | appendColumnGroup name bytes
  | createVectorCollection name params | deleteVector collection id => exact plain rfl

theorem reparses_payload {seq : Nat} (small : seq < u64Max) (ops : List Op) :
    Reparses 12 (encodePayload serde seq ops) (readPayload serde) (seq, ops)
      (∀ op ∈ ops, ∀ value ∈ op.values, serde.Survives value) := by
  have all : Reparses (1 * ops.length) (writeEach (encodeOp serde) ops) (times ops.length (readOp serde)) ops
      (∀ op ∈ ops, ∀ value ∈ op.values, serde.Survives value) := Reparses.each ops reparses_op
  have body := all.map (f := fun ops => (seq, ops)) fun other equal => (Prod.mk.inj equal).2
  have guarded := body.ensure (k := ops.length) (corrupt "op count exceeds the wal payload") (by omega)
  exact (Reparses.after (inverts_u64 small) (Reparses.after (inverts_count ops.length _) guarded)).weaken (by omega)

theorem decodePayload_survives {seq : Nat} {ops : List Op} {payload : List UInt8} (small : seq < u64Max)
    (wrote : encodePayload serde seq ops = .ok payload) (decoded : decodePayload serde payload = .ok (seq, ops)) :
    ∀ op ∈ ops, ∀ value ∈ op.values, serde.Survives value := by
  have reparses : Reparses 12 (encodePayload serde seq ops) (readPayload serde) (seq, ops) _ := reparses_payload small ops
  rcases reparses with refuses | ⟨other, inverts, same⟩
  · obtain ⟨err, fails⟩ := refuses payload wrote []
    rw [append_nil] at fails
    rw [decodePayload, readAll, fails] at decoded
    cases decoded
  · have read : decodePayload serde payload = .ok other := readAll_reads (inverts payload wrote).1
    rw [read] at decoded
    exact same (Except.ok.inj decoded)

/-- A frame that was encoded is decoded to its sequence and operations if and only if none of its
values is nested past the parser's limit or holds a float the parser changes. -/
theorem decode_encodeFrame_iff (exactly : serde.Exact) {seq : Nat} (small : seq < u64Max) {ops : List Op}
    {frame : List UInt8} (wrote : encodeFrame serde seq ops = .ok frame) :
    decodeWalPrefix serde frame = .ok ([(seq, ops)], frame.length) ↔
      ∀ op ∈ ops, ∀ value ∈ op.values, serde.Readable value := by
  constructor
  · intro decoded op inOps value held
    obtain ⟨payload, payloadOk, fits, rfl⟩ := encodeFrame_ok wrote
    have walk : decodeWalPrefix serde _ = _ := decodeWalPrefix_payload fits []
    rw [append_nil, decoded] at walk
    obtain ⟨read, readOk, rest⟩ := bind_ok walk.symm
    rw [decodeWalPrefix_nil, ok_bind] at rest
    have first : read = (seq, ops) := (List.cons.inj (Prod.mk.inj (Except.ok.inj rest)).1).1
    rw [first] at readOk
    exact (exactly.survives_iff value).mp (decodePayload_survives small payloadOk readOk op inOps value held)
  · intro readable
    have walk := decodeWalPrefix_frame small (fun op inOps value held =>
      exactly.reads_back value (readable op inOps value held)) wrote []
    rw [append_nil, decodeWalPrefix_nil] at walk
    exact walk

end Json

theorem Sample.serde_exact : serde.Exact where
  toDocumented := serde_documented
  changes := by
    rintro value - ⟨bits, -, lost⟩
    exact absurd trivial lost

theorem decode_encodeFrame_iff_sample : ∃ frame, encodeFrame serde 1 [put 127] = .ok frame ∧
    decodeWalPrefix serde frame = .ok ([(1, [put 127])], frame.length) := by
  obtain ⟨frame, wrote⟩ := put_encodes (show 127 ≤ 1000 by decide) 1
  refine ⟨frame, wrote, (decode_encodeFrame_iff serde_exact (by decide) wrote).mpr ?_⟩
  intro op inOps value held
  cases mem_singleton.mp inOps
  rw [mem_singleton.mp held]
  exact nested_readable (by decide)

/-- A document nested 128 deep is encoded, and its frame does not decode. -/
theorem encodeFrame_deep_refused : ∃ frame, encodeFrame serde 1 [put 128] = .ok frame ∧
    ∃ err, decodeWalPrefix serde frame = .error err := by
  obtain ⟨frame, wrote⟩ := put_encodes (show 128 ≤ 1000 by decide) 1
  have deep : serde.fromSlice (serde.toVec (nested 128)) = none := by
    apply serde_documented.too_deep
    rw [nested_nesting]
    decide
  obtain ⟨err, fails⟩ := decodeWalPrefix_put_lost (by decide) deep wrote []
  rw [append_nil] at fails
  exact ⟨frame, wrote, err, fails⟩

end FerroLoop.Store

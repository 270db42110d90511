import FerroLoop.Store.Frames

namespace FerroLoop.Store

open Bytes Checked List Sample

/-- A sequence and its operations, with the bytes `encodeFrame` wrote for them. -/
structure FrameBytes (serde : SerdeJson) where
  seq : Nat
  ops : List Op
  bytes : List UInt8
  small : seq < u64Max
  wrote : encodeFrame serde seq ops = .ok bytes

section Cuts

variable {serde : SerdeJson}

namespace FrameBytes

def frame (written : FrameBytes serde) : Frame := (written.seq, written.ops)

def values (written : FrameBytes serde) : List Value := written.ops.flatMap Op.values

end FrameBytes

section

variable (written : List (FrameBytes serde))

def walBytes : List UInt8 := written.flatMap FrameBytes.bytes

def wholeBefore : List (FrameBytes serde) → Nat → List (FrameBytes serde)
  | [], _ => []
  | first :: rest, cut =>
    if first.bytes.length ≤ cut then first :: wholeBefore rest (cut - first.bytes.length) else []

def DecodesCuts : Prop :=
  ∀ cut, decodeWalPrefix serde ((walBytes written).take cut) =
    .ok ((wholeBefore written cut).map FrameBytes.frame, (walBytes (wholeBefore written cut)).length)

/-- However the WAL is cut, decoding behind any number of its whole frames gives what decoding from
the start gives behind them. -/
def DecodesFromBoundaries : Prop :=
  ∀ cut count, count ≤ (wholeBefore written cut).length → ∃ frames consumed,
    decodeWalPrefix serde ((walBytes written).take cut) = .ok (frames, consumed) ∧
    decodeWalPrefix serde (((walBytes written).take cut).drop (walBytes (written.take count)).length) =
      .ok (frames.drop count, consumed - (walBytes (written.take count)).length)

end

theorem decodeWalPrefix_torn (written : FrameBytes serde) {cut : Nat} (short : cut < written.bytes.length) :
    decodeWalPrefix serde (written.bytes.take cut) = .ok ([], 0) := by
  obtain ⟨payload, -, fits, same⟩ := encodeFrame_ok written.wrote
  have lengthField : (toLe 4 payload.length).length = 4 := toLe_length 4 _
  have size : written.bytes.length = 8 + payload.length := by
    rw [same]
    simp only [length_append, toLe_length, crcBytes_length]
    omega
  have cutSize : (written.bytes.take cut).length = cut := by
    rw [length_take]
    omega
  by_cases header : cut < 8
  · rw [decodeWalPrefix, if_pos (by omega)]
  have len : fromLe ((written.bytes.take cut).take 4) = payload.length := by
    rw [take_take, Nat.min_eq_left (by omega), same, take_left' lengthField, fromLe_toLe fits]
  have missing : ((written.bytes.take cut).drop 8).length < payload.length := by
    rw [length_drop, cutSize]
    omega
  rw [decodeWalPrefix, if_neg (by omega)]
  simp only [len]
  rw [if_pos missing]

theorem walBytes_cons (first : FrameBytes serde) (rest : List (FrameBytes serde)) :
    walBytes (first :: rest) = first.bytes ++ walBytes rest := flatMap_cons ..

variable (written : List (FrameBytes serde))

theorem decodesCuts_of_survive
    (survive : ∀ item ∈ written, ∀ value ∈ item.values, serde.Survives value) : DecodesCuts written := by
  induction written with
  | nil =>
    intro cut
    rw [walBytes, flatMap_nil, take_nil, decodeWalPrefix_nil]
    rfl
  | cons first rest ih =>
    have others : DecodesCuts rest := ih fun item member => survive item (mem_cons_of_mem _ member)
    intro cut
    rw [walBytes_cons]
    by_cases whole : first.bytes.length ≤ cut
    · have front : (first.bytes ++ walBytes rest).take cut =
          first.bytes ++ (walBytes rest).take (cut - first.bytes.length) := by
        rw [take_append, take_of_length_le whole]
      have held : ∀ op ∈ first.ops, ∀ value ∈ op.values, serde.Survives value := by
        intro op inOps value inOp
        exact survive first mem_cons_self value (mem_flatMap.mpr ⟨op, inOps, inOp⟩)
      rw [front, decodeWalPrefix_frame first.small held first.wrote, others, ok_bind, wholeBefore, if_pos whole,
        walBytes_cons, length_append]
      rfl
    · have torn : (first.bytes ++ walBytes rest).take cut = first.bytes.take cut :=
        take_append_of_le_length (by omega)
      rw [torn, decodeWalPrefix_torn first (by omega), wholeBefore, if_neg whole]
      rfl

theorem drop_walBytes {written : List (FrameBytes serde)} {cut count : Nat}
    (inside : count ≤ (wholeBefore written cut).length) :
    ((walBytes written).take cut).drop (walBytes (written.take count)).length =
        (walBytes (written.drop count)).take (cut - (walBytes (written.take count)).length) ∧
      wholeBefore (written.drop count) (cut - (walBytes (written.take count)).length) =
        (wholeBefore written cut).drop count ∧
      (walBytes (wholeBefore written cut)).length = (walBytes (written.take count)).length +
        (walBytes ((wholeBefore written cut).drop count)).length := by
  induction count generalizing written cut with
  | zero =>
    refine ⟨rfl, rfl, ?_⟩
    rw [take_zero, drop_zero, walBytes, walBytes, flatMap_nil, length_nil, Nat.zero_add]
  | succ count ih =>
    rcases written with _ | ⟨first, rest⟩
    · cases inside
    rw [wholeBefore] at inside ⊢
    split at inside
    · rename_i whole
      obtain ⟨bytes, frames, size⟩ := ih (Nat.le_of_succ_le_succ inside)
      rw [if_pos whole, take_succ_cons, drop_succ_cons, drop_succ_cons]
      simp only [walBytes_cons, length_append]
      refine ⟨?_, ?_, ?_⟩
      · rw [take_append, take_of_length_le whole, drop_append, Nat.add_sub_cancel_left,
          drop_of_length_le (Nat.le_add_right _ _), nil_append, bytes, Nat.sub_sub]
      · rw [← frames, Nat.sub_sub]
      · omega
    · cases inside

theorem decodesFromBoundaries_of_survive
    (survive : ∀ item ∈ written, ∀ value ∈ item.values, serde.Survives value) : DecodesFromBoundaries written := by
  intro cut count inside
  obtain ⟨bytes, frames, size⟩ := drop_walBytes inside
  have later := decodesCuts_of_survive (written.drop count) fun item member =>
    survive item (mem_of_mem_drop member)
  refine ⟨_, _, decodesCuts_of_survive written survive cut, ?_⟩
  rw [bytes, later, frames, size, map_drop, Nat.add_sub_cancel_left]

theorem survive_of_decodes {written : List (FrameBytes serde)} {consumed : Nat}
    (decoded : decodeWalPrefix serde (walBytes written) = .ok (written.map FrameBytes.frame, consumed)) :
    ∀ item ∈ written, ∀ value ∈ item.values, serde.Survives value := by
  induction written generalizing consumed with
  | nil =>
    intro item member
    cases member
  | cons first rest ih =>
    obtain ⟨payload, payloadOk, fits, same⟩ := encodeFrame_ok first.wrote
    rw [walBytes_cons, same, decodeWalPrefix_payload fits] at decoded
    obtain ⟨read, readOk, more⟩ := bind_ok decoded
    obtain ⟨⟨frames, length⟩, laterOk, all⟩ := bind_ok more
    obtain ⟨head, tail⟩ := cons.inj (Prod.mk.inj (Except.ok.inj all)).1
    rw [head] at readOk
    rw [tail] at laterOk
    intro item member value held
    rcases mem_cons.mp member with rfl | later
    · obtain ⟨op, inOps, inOp⟩ := mem_flatMap.mp held
      exact decodePayload_survives item.small payloadOk readOk op inOps value inOp
    · exact ih laterOk item later value held

theorem wholeBefore_all : wholeBefore written (walBytes written).length = written := by
  induction written with
  | nil => rfl
  | cons first rest ih =>
    rw [walBytes_cons, length_append, wholeBefore, if_pos (Nat.le_add_right _ _), Nat.add_sub_cancel_left, ih]

theorem survive_of_decodesCuts {written : List (FrameBytes serde)} (cuts : DecodesCuts written) :
    ∀ item ∈ written, ∀ value ∈ item.values, serde.Survives value := by
  have whole := cuts (walBytes written).length
  rw [take_length, wholeBefore_all] at whole
  exact survive_of_decodes whole

/-- Every cut decodes to the frames before it, and decoding goes on from every boundary, if and only
if no value written is nested past the parser's limit or holds a float the parser changes. -/
theorem decodes_cuts_iff_readable (exactly : serde.Exact) (written : List (FrameBytes serde)) :
    DecodesCuts written ∧ DecodesFromBoundaries written ↔
      ∀ item ∈ written, ∀ value ∈ item.values, serde.Readable value := by
  constructor
  · rintro ⟨cuts, -⟩ item member value held
    exact (exactly.survives_iff value).mp (survive_of_decodesCuts cuts item member value held)
  · intro readable
    have survive : ∀ item ∈ written, ∀ value ∈ item.values, serde.Survives value := by
      intro item member value held
      exact (exactly.survives_iff value).mpr (readable item member value held)
    exact ⟨decodesCuts_of_survive written survive, decodesFromBoundaries_of_survive written survive⟩

end Cuts

namespace Sample

theorem noteFrame_small : 127 ≤ 1000 := by decide

/-- One document, `null` inside 127 arrays, in the frame with this sequence. -/
noncomputable def noteFrame (seq : Nat) (small : seq < u64Max) : FrameBytes serde where
  seq := seq
  ops := [put 127]
  bytes := (put_encodes noteFrame_small seq).choose
  small := small
  wrote := (put_encodes noteFrame_small seq).choose_spec

theorem noteFrame_values {seq : Nat} {small : seq < u64Max} {value : Value} (held : value ∈ (noteFrame seq small).values) :
    value = nested 127 := by
  obtain ⟨op, inOps, inOp⟩ := mem_flatMap.mp held
  cases mem_singleton.mp inOps
  exact mem_singleton.mp inOp

/-- The `f64` that is printed `0.10010000000000001`, and the one printed `0.1001`. -/
def price : Value := ⟨.number (.float 0x3fb9a027525460ab), by rw [Tree.Canonical, Number.Canonical]; decide⟩

def roundedPrice : Value := ⟨.number (.float 0x3fb9a027525460aa), by rw [Tree.Canonical, Number.Canonical]; decide⟩

def priceText : List UInt8 := ascii ['0', '.', '1', '0', '0', '1', '0', '0', '0', '0', '0', '0', '0', '0', '0', '0', '0', '0', '1']

open Classical in
/-- The conversions with the default float parser at one number: its seventeen digits do not fit in
the 53 bits of the significand, which is rounded before it is scaled. -/
noncomputable def bestEffort : SerdeJson where
  toVec value := if value = price then priceText else serde.toVec value
  fromSlice bytes := if bytes = priceText then some roundedPrice else serde.fromSlice bytes
  restores bits := bits ≠ 0x3fb9a027525460ab

theorem price_lost : ¬ bestEffort.Survives price := by
  intro survives
  have text : bestEffort.toVec price = priceText := if_pos rfl
  have read : bestEffort.fromSlice priceText = some roundedPrice := by
    simp only [bestEffort, if_true]
  rw [SerdeJson.Survives, text, read] at survives
  have same : roundedPrice.tree = price.tree := congrArg Value.tree (Option.some.inj survives)
  exact absurd (Number.float.inj (Tree.number.inj same)) (by decide)

def priced : List Op := [.put "notes" "a" price]

theorem priced_encodes : ∃ bytes, encodeFrame bestEffort 1 priced = .ok bytes := by
  have text : bestEffort.toVec price = priceText := if_pos rfl
  have short : (bestEffort.toVec price).length ≤ 10000 := by
    rw [text]
    decide
  exact note_encodes short 1

end Sample

/-- Two frames, cut inside the second: the first is read back. -/
theorem decodes_cuts_sample :
    DecodesCuts [noteFrame 1 (by decide), noteFrame 2 (by decide)] ∧
    DecodesFromBoundaries [noteFrame 1 (by decide), noteFrame 2 (by decide)] := by
  have only : ∀ item ∈ [noteFrame 1 (by decide), noteFrame 2 (by decide)], ∀ value ∈ item.values,
      value = nested 127 := by
    intro item member value held
    rcases mem_cons.mp member with rfl | member
    · exact noteFrame_values held
    · cases mem_singleton.mp member
      exact noteFrame_values held
  refine (decodes_cuts_iff_readable serde_exact _).mpr ?_
  intro item member value held
  rw [only item member value held]
  exact nested_readable (by decide)

/-- A frame that holds the number `0.10010000000000001` is read back with `0.1001` in its place. -/
theorem priced_not_decoded : ∃ written : FrameBytes bestEffort, written.seq = 1 ∧ written.ops = priced ∧
    (∀ value ∈ written.values, value.nesting = 0) ∧ ¬ DecodesCuts [written] := by
  obtain ⟨bytes, wrote⟩ := priced_encodes
  refine ⟨⟨1, priced, bytes, by decide, wrote⟩, rfl, rfl, ?_, ?_⟩
  · intro value held
    obtain ⟨op, inOps, inOp⟩ := mem_flatMap.mp held
    cases mem_singleton.mp inOps
    cases mem_singleton.mp inOp
    rfl
  · intro cuts
    refine price_lost (survive_of_decodesCuts cuts _ (mem_singleton.mpr rfl) price ?_)
    exact mem_flatMap.mpr ⟨_, mem_singleton.mpr rfl, mem_singleton.mpr rfl⟩

end FerroLoop.Store

import FerroLoop.Store.TornTail
import FerroLoop.Store.Truncated

namespace FerroLoop.Store

open Bytes Checked List Stable Torn

/-! ### A payload that is not cut where it ends -/

section Stable

variable {α : Type}

theorem stable_take (n : Nat) : Stable (take n) := by
  intro bytes a left ran more
  have taken : (take n).run bytes =
      if bytes.length < n then .error (corrupt "truncated record") else .ok (bytes.take n, bytes.drop n) := rfl
  rw [taken] at ran
  split at ran
  · cases ran
  cases ran
  have enough : ¬ (bytes ++ more).length < n := by rw [length_append]; omega
  have longer : (take n).run (bytes ++ more) = .ok ((bytes ++ more).take n, (bytes ++ more).drop n) := if_neg enough
  rw [longer, take_append_of_le_length (by omega), drop_append_of_le_length (by omega)]

theorem stable_refuse (err : StoreError) : Stable (refuse err : Cur α) := by
  intro bytes a left ran
  cases ran

theorem stable_check (x : Except StoreError α) : Stable (check x) := by
  intro bytes a left ran more
  cases x with
  | error err => cases ran
  | ok b =>
    cases ran
    rfl

theorem stable_u8 : Stable readU8 := (stable_take 1).bind fun _ => pure _

theorem stable_u32 : Stable readU32 := (stable_take 4).bind fun _ => pure _

theorem stable_u64 : Stable readU64 := (stable_take 8).bind fun _ => pure _

theorem stable_lp : Stable readLp :=
  stable_u32.bind fun n => (Stable.ensure n _).bind fun _ => stable_take n

theorem stable_text : Stable readText := by
  refine stable_lp.bind fun bytes => ?_
  split
  · exact pure _
  · exact stable_refuse _

theorem stable_column : Stable readColumn :=
  stable_text.bind fun _ => stable_u8.bind fun _ => (stable_check _).bind fun _ => pure _

theorem stable_columns (failure : String) : Stable (readColumns failure) :=
  stable_u32.bind fun count => (Stable.ensure count _).bind fun _ => stable_column.times count

theorem stable_params : Stable readParams :=
  stable_u32.bind fun _ => stable_u8.bind fun _ => (stable_check _).bind fun _ => stable_u8.bind fun _ =>
    (stable_check _).bind fun _ => stable_u32.bind fun _ => stable_u32.bind fun _ => stable_u32.bind fun _ =>
      pure _

variable (serde : SerdeJson)

theorem stable_json (failure : String) : Stable (readJson serde failure) := by
  refine stable_lp.bind fun raw => ?_
  split
  · exact pure _
  · exact stable_refuse _

theorem stable_metadata : Stable (readMetadata serde) := by
  refine stable_u8.bind fun flag => ?_
  split
  · exact pure _
  · split
    · exact (stable_json serde _).bind fun _ => pure _
    · exact stable_refuse _

theorem stable_opBody (tag : UInt8) : Stable (readOpBody serde tag) := by
  unfold readOpBody
  split
  · exact stable_text.bind fun _ => stable_text.bind fun _ => (stable_json serde _).bind fun _ => pure _
  split
  · exact stable_text.bind fun _ => stable_text.bind fun _ => pure _
  split
  · exact stable_text.bind fun _ => (stable_columns _).bind fun _ => pure _
  split
  · exact stable_text.bind fun _ => stable_lp.bind fun _ => pure _
  split
  · exact stable_text.bind fun _ => stable_params.bind fun _ => pure _
  split
  · exact stable_text.bind fun _ => stable_text.bind fun _ => stable_lp.bind fun _ =>
      (stable_metadata serde).bind fun _ => pure _
  split
  · exact stable_text.bind fun _ => stable_text.bind fun _ => pure _
  · exact stable_refuse _

theorem stable_payload : Stable (readPayload serde) :=
  stable_u64.bind fun _ => stable_u32.bind fun count => (Stable.ensure count _).bind fun _ =>
    (times (stable_u8.bind (stable_opBody serde)) count).bind fun _ => pure _

end Stable

section Payload

variable {serde : SerdeJson} {seq : Nat} {ops : List Op} {payload : List UInt8}

section

variable (small : seq < u64Max) (wrote : encodePayload serde seq ops = .ok payload)

include small wrote

theorem readPayload_written :
    (∀ rest, ∃ err, (readPayload serde).run (payload ++ rest) = .error err) ∨ ∃ frame, Reads (readPayload serde) payload frame := by
  have reparses : Reparses 12 (encodePayload serde seq ops) (readPayload serde) (seq, ops) _ := reparses_payload small ops
  rcases reparses with refuses | ⟨other, inverts, -⟩
  · exact .inl (refuses payload wrote)
  · exact .inr ⟨other, (inverts payload wrote).1⟩

theorem decodePayload_longer
    {more : List UInt8} (some_ : more ≠ []) : ∃ err, decodePayload serde (payload ++ more) = .error err := by
  rw [decodePayload, readAll]
  rcases readPayload_written small wrote with refused | ⟨frame, reads⟩
  · obtain ⟨err, fails⟩ := refused more
    rw [fails]
    exact ⟨err, rfl⟩
  rw [reads more]
  cases more with
  | nil => exact absurd rfl some_
  | cons byte others => exact ⟨_, rfl⟩

theorem decodePayload_shorter {cut : Nat}
    (short : cut < payload.length) : ∃ err, decodePayload serde (payload.take cut) = .error err := by
  rw [decodePayload, readAll]
  rcases ran : (readPayload serde).run (payload.take cut) with err | found
  · exact ⟨err, rfl⟩
  obtain ⟨frame, left⟩ := found
  cases left with
  | cons byte others => exact ⟨_, rfl⟩
  | nil =>
    -- the cut payload would be a whole one, and the payload itself would leave its last bytes
    have longer := stable_payload serde _ frame [] ran (payload.drop cut)
    rw [take_append_drop, nil_append] at longer
    exfalso
    rcases readPayload_written small wrote with refused | ⟨other, reads⟩
    · obtain ⟨err, fails⟩ := refused []
      rw [append_nil, longer] at fails
      cases fails
    have whole := reads.run_all
    rw [longer] at whole
    have nothing := congrArg List.length (Prod.mk.inj (Except.ok.inj whole)).2
    rw [length_drop, length_nil] at nothing
    omega

end

end Payload

inductive HeaderField where
  | length
  | checksum
  deriving DecidableEq

structure Damage where
  field : HeaderField
  value : UInt32

def Damage.overwrite (damage : Damage) (frame : List UInt8) : List UInt8 :=
  match damage.field with
  | .length => toLe 4 damage.value.toNat ++ frame.drop 4
  | .checksum => frame.take 4 ++ (toLe 4 damage.value.toNat ++ frame.drop 8)

section Damaged

variable {serde : SerdeJson}

def FrameBytes.payload (written : FrameBytes serde) : List UInt8 := written.bytes.drop 8

section

variable (before : List (FrameBytes serde)) (target : FrameBytes serde) (after : List (FrameBytes serde))
  (damage : Damage)

def damagedWal : List UInt8 :=
  walBytes before ++ (damage.overwrite target.bytes ++ walBytes after)

def NothingDropped : Prop :=
  ∀ frames consumed, decodeWalPrefix serde (damagedWal before target after damage) = .ok (frames, consumed) →
    (before ++ target :: after).length ≤ frames.length

end

/-- A new length ends inside the WAL, and the bytes it covers have the stored checksum or a complete
frame fits behind them. A new checksum is always noticed. -/
def Damage.Noticed (damage : Damage) (target : FrameBytes serde) (after : List (FrameBytes serde)) : Prop :=
  match damage.field with
  | .checksum => True
  | .length =>
    damage.value.toNat ≤ (target.payload ++ walBytes after).length ∧
      (crc32 ((target.payload ++ walBytes after).take damage.value.toNat) = crc32 target.payload ∨
        frameFits ((target.payload ++ walBytes after).drop damage.value.toNat) = true)

namespace FrameBytes

variable (written : FrameBytes serde)

theorem payload_eq : ∃ payload, encodePayload serde written.seq written.ops = .ok payload ∧ payload.length < u32Max ∧
    written.bytes = toLe 4 payload.length ++ (crcBytes payload ++ payload) ∧ written.payload = payload := by
  obtain ⟨payload, payloadOk, fits, same⟩ := encodeFrame_ok written.wrote
  refine ⟨payload, payloadOk, fits, same, ?_⟩
  rw [FrameBytes.payload, same, ← append_assoc]
  exact drop_left' (by rw [length_append, toLe_length, crcBytes_length])

theorem payload_wrote : encodePayload serde written.seq written.ops = .ok written.payload := by
  obtain ⟨payload, payloadOk, -, -, same⟩ := written.payload_eq
  rw [same]
  exact payloadOk

theorem payload_small : written.payload.length < u32Max := by
  obtain ⟨payload, -, fits, -, same⟩ := written.payload_eq
  rw [same]
  exact fits

theorem bytes_eq : written.bytes = toLe 4 written.payload.length ++ (crcBytes written.payload ++ written.payload) := by
  obtain ⟨payload, -, -, bytes, same⟩ := written.payload_eq
  rw [same]
  exact bytes

theorem bytes_length : written.bytes.length = 8 + written.payload.length := by
  rw [written.bytes_eq]
  simp only [length_append, toLe_length, crcBytes_length]
  omega

end FrameBytes

theorem walHead_header {len stored : Nat} (lenFits : len < u32Max) (storedFits : stored < u32Max) (body : List UInt8) :
    walHead (toLe 4 len ++ (toLe 4 stored ++ body)) =
      if body.length < len then .torn
      else if (crc32 (body.take len)).toNat ≠ stored then
        if body.drop len = [] ∨ frameFits (body.drop len) = false then .torn else .damaged
      else .whole (body.take len) (body.drop len) := by
  have lenField : fromLe ((toLe 4 len ++ (toLe 4 stored ++ body)).take 4) = len := by
    rw [take_left' (toLe_length 4 len), fromLe_toLe lenFits]
  have tail : (toLe 4 len ++ (toLe 4 stored ++ body)).drop 4 = toLe 4 stored ++ body := drop_left' (toLe_length 4 len)
  have crcField : fromLe (((toLe 4 len ++ (toLe 4 stored ++ body)).drop 4).take 4) = stored := by
    rw [tail, take_left' (toLe_length 4 stored), fromLe_toLe storedFits]
  have rest : (toLe 4 len ++ (toLe 4 stored ++ body)).drop 8 = body := by
    rw [← drop_drop (i := 4) (j := 4), tail, drop_left' (toLe_length 4 stored)]
  have long : ¬ (toLe 4 len ++ (toLe 4 stored ++ body)).length < 8 := by
    simp only [length_append, toLe_length]
    omega
  rw [walHead, if_neg long]
  rw [lenField, crcField, rest]

theorem frameFits_bytes (written : FrameBytes serde) (rest : List UInt8) : frameFits (written.bytes ++ rest) = true := by
  have lenField : fromLe ((written.bytes ++ rest).take 4) = written.payload.length := by
    rw [written.bytes_eq, append_assoc, take_left' (toLe_length 4 _), fromLe_toLe written.payload_small]
  have size := written.bytes_length
  rw [frameFits, lenField, length_append, Bool.and_eq_true, decide_eq_true_eq, decide_eq_true_eq]
  omega

/-! ### Decoding behind the first frames -/

theorem decodeWalPrefix_first (first : FrameBytes serde) (rest : List UInt8) :
    decodeWalPrefix serde (first.bytes ++ rest) = (do
      let frame ← decodePayload serde first.payload
      let (frames, consumed) ← decodeWalPrefix serde rest
      .ok (frame :: frames, 8 + first.payload.length + consumed)) := by
  rw [first.bytes_eq]
  exact decodeWalPrefix_payload first.payload_small rest

variable {before : List (FrameBytes serde)} {damage : Damage} {rest : List UInt8} {frames : List Frame} {consumed : Nat}

theorem decodeWalPrefix_behind
    (decode : ∀ item ∈ before, ∀ err, decodePayload serde item.payload ≠ .error err)
    (decoded : decodeWalPrefix serde rest = .ok (frames, consumed)) :
    ∃ heads total, heads.length = before.length ∧ decodeWalPrefix serde (walBytes before ++ rest) = .ok (heads ++ frames, total) := by
  induction before with
  | nil => exact ⟨[], consumed, rfl, decoded⟩
  | cons first others ih =>
    obtain ⟨heads, total, count, whole⟩ := ih fun item member => decode item (mem_cons_of_mem _ member)
    rw [walBytes_cons, append_assoc, decodeWalPrefix_first, whole]
    cases head : decodePayload serde first.payload with
    | error err => exact absurd head (decode first mem_cons_self err)
    | ok frame => exact ⟨frame :: heads, _, congrArg Nat.succ count, rfl⟩

theorem behind_of_decodes {all : List Frame} {total : Nat}
    (decoded : decodeWalPrefix serde (walBytes before ++ rest) = .ok (all, total)) :
    (∀ item ∈ before, ∀ err, decodePayload serde item.payload ≠ .error err) ∧
      ∃ frames consumed, decodeWalPrefix serde rest = .ok (frames, consumed) ∧ all.length = before.length + frames.length := by
  induction before generalizing all total with
  | nil =>
    refine ⟨?_, all, total, decoded, (Nat.zero_add _).symm⟩
    intro item member
    cases member
  | cons first others ih =>
    rw [walBytes_cons, append_assoc, decodeWalPrefix_first] at decoded
    obtain ⟨frame, headOk, more⟩ := bind_ok decoded
    obtain ⟨⟨later, size⟩, laterOk, same⟩ := bind_ok more
    obtain ⟨decode, frames, consumed, restOk, count⟩ := ih laterOk
    have all_eq : frame :: later = all := (Prod.mk.inj (Except.ok.inj same)).1
    refine ⟨?_, frames, consumed, restOk, ?_⟩
    · intro item member err
      rcases mem_cons.mp member with rfl | inOthers
      · rw [headOk]
        intro wrong
        cases wrong
      · exact decode item inOthers err
    · rw [← all_eq, length_cons, length_cons, count]
      omega

theorem decoded_count {written : List (FrameBytes serde)}
    (decoded : decodeWalPrefix serde (walBytes written) = .ok (frames, consumed)) : frames.length = written.length := by
  rw [← append_nil (walBytes written)] at decoded
  obtain ⟨-, none, size, nothing, count⟩ := behind_of_decodes decoded
  rw [decodeWalPrefix_nil] at nothing
  cases nothing
  exact count

variable {target : FrameBytes serde} {after : List (FrameBytes serde)} {value : UInt32}

theorem overwrite_length : (Damage.mk .length value).overwrite target.bytes ++ walBytes after =
    toLe 4 value.toNat ++ (toLe 4 (crc32 target.payload).toNat ++ (target.payload ++ walBytes after)) := by
  have kept : target.bytes.drop 4 = crcBytes target.payload ++ target.payload := by
    rw [target.bytes_eq]
    exact drop_left' (toLe_length 4 _)
  rw [Damage.overwrite]
  rw [kept, append_assoc, append_assoc]
  rfl

theorem overwrite_checksum : (Damage.mk .checksum value).overwrite target.bytes ++ walBytes after =
    toLe 4 target.payload.length ++ (toLe 4 value.toNat ++ (target.payload ++ walBytes after)) := by
  have kept : target.bytes.take 4 = toLe 4 target.payload.length := by
    rw [target.bytes_eq]
    exact take_left' (toLe_length 4 _)
  have body : target.bytes.drop 8 = target.payload := rfl
  rw [Damage.overwrite]
  rw [kept, body, append_assoc, append_assoc]

/-- The new length reaches past the end, or covers bytes of another checksum with no frame behind
them: the rest of the WAL is taken for a torn tail. -/
theorem decode_length_dropped (unnoticed : ¬ (Damage.mk .length value).Noticed target after) :
    decodeWalPrefix serde ((Damage.mk .length value).overwrite target.bytes ++ walBytes after) = .ok ([], 0) := by
  have torn : walHead ((Damage.mk .length value).overwrite target.bytes ++ walBytes after) = .torn := by
    rw [overwrite_length, walHead_header value.toNat_lt (crc32 target.payload).toNat_lt]
    by_cases beyond : (target.payload ++ walBytes after).length < value.toNat
    · rw [if_pos beyond]
    have missed : ¬ (crc32 ((target.payload ++ walBytes after).take value.toNat) = crc32 target.payload ∨
        frameFits ((target.payload ++ walBytes after).drop value.toNat) = true) :=
      fun held => unnoticed ⟨Nat.le_of_not_lt beyond, held⟩
    rw [not_or, Bool.not_eq_true] at missed
    rw [if_neg beyond, if_pos (fun same => missed.1 (UInt32.toNat_inj.mp same)), if_pos (.inr missed.2)]
  rw [decodeWalPrefix_head, torn]

theorem decode_length_noticed (noticed : (Damage.mk .length value).Noticed target after) :
    (Damage.mk .length value).overwrite target.bytes = target.bytes ∨
      ∃ err, decodeWalPrefix serde ((Damage.mk .length value).overwrite target.bytes ++ walBytes after) = .error err := by
  obtain ⟨inside, held⟩ := noticed
  dsimp only at inside held
  have head := walHead_header value.toNat_lt (crc32 target.payload).toNat_lt (target.payload ++ walBytes after)
  rw [← overwrite_length, if_neg (Nat.not_lt.mpr inside)] at head
  rw [decodeWalPrefix_head, head]
  by_cases same : crc32 ((target.payload ++ walBytes after).take value.toNat) = crc32 target.payload
  · rw [if_neg (fun differ => differ (congrArg UInt32.toNat same))]
    dsimp only
    -- the checksum matches, by chance unless the length is the old one: the payload then ends elsewhere
    rcases Nat.lt_trichotomy value.toNat target.payload.length with shorter | equal | longer
    · obtain ⟨err, fails⟩ := decodePayload_shorter target.small target.payload_wrote shorter
      rw [take_append_of_le_length (by omega), fails]
      exact .inr ⟨err, rfl⟩
    · refine .inl ?_
      have kept : target.bytes.drop 4 = crcBytes target.payload ++ target.payload := by
        rw [target.bytes_eq]
        exact drop_left' (toLe_length 4 _)
      rw [Damage.overwrite]
      dsimp only
      rw [kept, equal, ← target.bytes_eq]
    · have more : (walBytes after).take (value.toNat - target.payload.length) ≠ [] := by
        intro none
        have size := congrArg List.length none
        rw [length_take, length_nil] at size
        rw [length_append] at inside
        omega
      obtain ⟨err, fails⟩ := decodePayload_longer target.small target.payload_wrote more
      rw [take_append, take_of_length_le (by omega), fails]
      exact .inr ⟨err, rfl⟩
  · have fits := held.resolve_left same
    have behind : ¬ ((target.payload ++ walBytes after).drop value.toNat = [] ∨
        frameFits ((target.payload ++ walBytes after).drop value.toNat) = false) := by
      rintro (none | unfit)
      · rw [none] at fits
        cases fits
      · rw [unfit] at fits
        cases fits
    rw [if_pos (fun equal => same (UInt32.toNat_inj.mp equal)), if_neg behind]
    exact .inr ⟨_, rfl⟩

theorem decode_checksum_noticed (later : after ≠ []) :
    (Damage.mk .checksum value).overwrite target.bytes = target.bytes ∨
      ∃ err, decodeWalPrefix serde ((Damage.mk .checksum value).overwrite target.bytes ++ walBytes after) = .error err := by
  by_cases same : (crc32 target.payload).toNat = value.toNat
  · refine .inl ?_
    have whole := @overwrite_checksum serde target [] value
    have none : walBytes ([] : List (FrameBytes serde)) = [] := rfl
    rw [none, append_nil, append_nil, ← same] at whole
    rw [whole]
    exact target.bytes_eq.symm
  · refine .inr ?_
    obtain ⟨next, others, rfl⟩ := exists_cons_of_ne_nil later
    have head := walHead_header target.payload_small value.toNat_lt (target.payload ++ walBytes (next :: others))
    have long : ¬ (target.payload ++ walBytes (next :: others)).length < target.payload.length := by
      rw [length_append]
      omega
    have fits : frameFits (walBytes (next :: others)) = true := by
      exact frameFits_bytes next _
    have behind : ¬ (walBytes (next :: others) = [] ∨ frameFits (walBytes (next :: others)) = false) := by
      rintro (none | unfit)
      · rw [none] at fits
        cases fits
      · rw [unfit] at fits
        cases fits
    rw [← overwrite_checksum, if_neg long, take_left' rfl, drop_left' rfl, if_pos same, if_neg behind] at head
    rw [decodeWalPrefix_head, head]
    exact ⟨_, rfl⟩

theorem decode_noticed (noticed : damage.Noticed target after) (later : after ≠ []) :
    damage.overwrite target.bytes = target.bytes ∨
      ∃ err, decodeWalPrefix serde (damage.overwrite target.bytes ++ walBytes after) = .error err := by
  obtain ⟨field, value⟩ := damage
  cases field with
  | length => exact decode_length_noticed noticed
  | checksum => exact decode_checksum_noticed later

theorem decode_dropped (unnoticed : ¬ damage.Noticed target after) :
    decodeWalPrefix serde (damage.overwrite target.bytes ++ walBytes after) = .ok ([], 0) := by
  obtain ⟨field, value⟩ := damage
  cases field with
  | length => exact decode_length_dropped unnoticed
  | checksum => exact absurd trivial unnoticed

theorem not_nothingDropped
    (decode : ∀ item ∈ before, ∀ err, decodePayload serde item.payload ≠ .error err)
    (unnoticed : ¬ damage.Noticed target after) : ¬ NothingDropped before target after damage := by
  intro kept
  obtain ⟨heads, total, count, decoded⟩ := decodeWalPrefix_behind decode (decode_dropped unnoticed)
  have fewer := kept _ _ decoded
  rw [append_nil, count, length_append, length_cons] at fewer
  omega

/-- One field of the header of a frame that others follow is overwritten: no frame is dropped
silently if and only if an earlier frame is refused anyway or the damage is noticed. -/
theorem nothingDropped_iff (before : List (FrameBytes serde)) (target : FrameBytes serde)
    {after : List (FrameBytes serde)} (later : after ≠ []) (damage : Damage) :
    NothingDropped before target after damage ↔
      (∃ item ∈ before, ∃ err, decodePayload serde item.payload = .error err) ∨ damage.Noticed target after := by
  constructor
  · intro kept
    apply Classical.byContradiction
    intro neither
    rw [not_or] at neither
    refine not_nothingDropped ?_ neither.2 kept
    intro item member err fails
    exact neither.1 ⟨item, member, err, fails⟩
  · rintro (⟨item, member, err, fails⟩ | noticed) frames consumed decoded
    · exact absurd fails ((behind_of_decodes decoded).1 item member err)
    · rcases decode_noticed noticed later with same | ⟨err, fails⟩
      · have whole : damagedWal before target after damage = walBytes (before ++ target :: after) := by
          rw [damagedWal, same, walBytes, walBytes, walBytes, flatMap_append, flatMap_cons]
        rw [whole] at decoded
        exact Nat.le_of_eq (decoded_count decoded).symm
      · obtain ⟨-, others, size, restOk, -⟩ := behind_of_decodes decoded
        rw [fails] at restOk
        cases restOk

end Damaged

namespace Torn

noncomputable def secondFrame : List UInt8 := (encodeFrame Sample.serde 2 ops).toOption.getD []

/-- Two commits that delete a document. -/
noncomputable def first : FrameBytes Sample.serde := ⟨1, ops, frame, by decide, frame_encodes⟩

noncomputable def second : FrameBytes Sample.serde :=
  ⟨2, ops, secondFrame, by decide, ok_of_toOption (by decide +kernel)⟩

end Torn

/-- A checksum overwritten in front of a whole frame. -/
theorem checksum_damage_reported : NothingDropped [] first [second] ⟨.checksum, 0⟩ :=
  (nothingDropped_iff [] first (cons_ne_nil _ _) ⟨.checksum, 0⟩).mpr (.inr trivial)

/-- The length of the first frame becomes the largest `u32`: both frames are gone, and no error. -/
theorem length_damage_dropped : decodeWalPrefix Sample.serde (damagedWal [] first [second] ⟨.length, 0xffffffff⟩) =
      .ok ([], 0) ∧
    ¬ NothingDropped [] first [second] ⟨.length, 0xffffffff⟩ := by
  have size : (first.payload ++ walBytes [second]).length = 62 := by decide +kernel
  have unnoticed : ¬ (Damage.mk .length 0xffffffff).Noticed first [second] := by
    rintro ⟨inside, -⟩
    rw [size] at inside
    exact absurd inside (by decide)
  refine ⟨decode_dropped unnoticed, not_nothingDropped ?_ unnoticed⟩
  intro item member
  cases member

end FerroLoop.Store

import FerroLoop.Store.Checksum
import FerroLoop.Store.Damage

/-!
What the checksums of a store file notice. A bit of `crc32` can be taken back, so two byte strings that differ inside
four bytes only never have the same checksum.
-/

namespace FerroLoop.Store

open Bytes List Torn

theorem crcBit_injective {x y : UInt32} (same : crcBit x = crcBit y) : x = y := by
  have zero : crcBit (x ^^^ y) = 0 := by
    rw [crcBit_xor, same, UInt32.xor_self]
  apply UInt32.xor_eq_zero_iff.mp
  apply UInt32.toNat_inj.mp
  generalize x ^^^ y = z at zero
  have bound := z.toNat_lt
  rw [crcBit_eq, UInt32.xor_eq_zero_iff] at zero
  have shifted : z.toNat / 2 = (z >>> 1).toNat := by
    rw [UInt32.toNat_shiftRight]
    exact (Nat.shiftRight_eq_div_pow _ 1).symm
  rw [zero] at shifted
  -- The polynomial has the top bit, which a shift leaves clear.
  split at shifted
  · change _ = 0xEDB88320 at shifted
    omega
  · change _ = 0 at shifted
    change _ = 0
    omega

theorem crcBits_injective {count : Nat} {x y : UInt32} (same : crcBits count x = crcBits count y) : x = y := by
  unfold crcBits at same
  induction count with
  | zero => exact same
  | succ count ih => exact ih (crcBit_injective same)

theorem crcFeedBitwise_injective {a b : UInt32} {data : List UInt8} (same : crcFeedBitwise a data = crcFeedBitwise b data) :
    a = b := by
  induction data generalizing a b with
  | nil => exact same
  | cons byte rest ih => exact (UInt32.xor_left_inj _).mp (crcBits_injective (ih same))

theorem fromLe_injective {a b : List UInt8} (size : a.length = b.length) (same : fromLe a = fromLe b) : a = b := by
  induction a generalizing b with
  | nil => exact (eq_nil_of_length_eq_zero size.symm).symm
  | cons x a ih =>
    cases b with
    | nil => cases size
    | cons y b =>
      have first := x.toNat_lt
      have second := y.toNat_lt
      simp only [fromLe] at same
      rw [ih (Nat.succ.inj size) (by omega), UInt8.toNat_inj.mp (by omega : x.toNat = y.toNat)]

/-- Byte strings that differ only in a block of at most four bytes have different checksums. -/
theorem crc32_block {front a b back : List UInt8} (size : a.length = b.length) (short : a.length ≤ 4)
    (same : crc32 (front ++ (a ++ back)) = crc32 (front ++ (b ++ back))) : a = b := by
  have bound : ∀ {bytes : List UInt8}, bytes.length ≤ 4 → fromLe bytes < 2 ^ 32 := by
    intro bytes few
    have power : 256 ^ bytes.length ≤ 256 ^ 4 := Nat.pow_le_pow_right (by decide) few
    exact Nat.lt_of_lt_of_le (fromLe_lt bytes) power
  unfold crc32 at same
  have fed := UInt32.not_inj.mp same
  rw [crcFeed_eq, crcFeed_eq] at fed
  simp only [crcFeedBitwise_append] at fed
  have block := crcFeedBitwise_injective fed
  generalize crcFeedBitwise 0xFFFFFFFF front = crc at block
  rw [crcFeedBitwise_word crc short, crcFeedBitwise_word crc (size ▸ short), size] at block
  have word := congrArg UInt32.toNat ((UInt32.xor_right_inj _).mp (crcBits_injective block))
  rw [UInt32.toNat_ofNat_of_lt' (bound short), UInt32.toNat_ofNat_of_lt' (bound (size ▸ short))] at word
  exact fromLe_injective size word

/-! ### Slots -/

variable {buf : List UInt8} {sb : Superblock} {offset n : Nat}

theorem drop_field {width : Nat} (long : offset + width ≤ buf.length) :
    buf.drop offset = toLe width (fromLe ((buf.drop offset).take width)) ++ buf.drop (offset + width) := by
  have size : ((buf.drop offset).take width).length = width := by
    rw [length_take, length_drop]
    omega
  have bytes : toLe width (fromLe ((buf.drop offset).take width)) = (buf.drop offset).take width := by
    apply fromLe_injective ((toLe_length _ _).trans size.symm)
    have small := fromLe_lt ((buf.drop offset).take width)
    rw [size] at small
    exact fromLe_toLe small
  rw [bytes, ← drop_drop, take_append_drop]

theorem u32At_drop (read : u32At buf offset = some n) : buf.drop offset = toLe 4 n ++ buf.drop (offset + 4) := by
  unfold u32At at read
  split at read
  · cases read
    exact drop_field ‹_›
  · cases read

theorem u64At_drop (read : u64At buf offset = some n) : buf.drop offset = toLe 8 n ++ buf.drop (offset + 8) := by
  unfold u64At at read
  split at read
  · cases read
    exact drop_field ‹_›
  · cases read

theorem parseFields_bytes (parsed : parseFields buf = .valid sb) :
    buf.drop 12 = toLe 8 sb.epoch ++ buf.drop 20 ∧
      buf.drop 24 = toLe 8 sb.snapshotOffset ++ (toLe 8 sb.snapshotLength ++ (toLe 8 sb.walOffset ++ (toLe 8 sb.walLength ++
        (toLe 8 sb.snapshotSeq ++ buf.drop 64)))) := by
  unfold parseFields at parsed
  split at parsed
  · rename_i epoch snapshotOffset snapshotLength walOffset walLength snapshotSeq
    split at parsed
    · cases parsed
    cases parsed
    rw [u64At_drop snapshotOffset, u64At_drop snapshotLength, u64At_drop walOffset, u64At_drop walLength,
      u64At_drop snapshotSeq]
    exact ⟨u64At_drop epoch, rfl⟩
  · cases parsed

theorem parseKnown_valid {version engine incompat reservedFrom : Nat}
    (parsed : parseKnown buf version engine incompat reservedFrom = .valid sb) :
    engine = engineSnapshotWal ∧ incompat = 0 ∧ buf.drop reservedFrom = replicate (buf.length - reservedFrom) 0 ∧
      parseFields buf = .valid sb := by
  unfold parseKnown at parsed
  split at parsed
  · cases parsed
  rename_i known
  split at parsed
  · cases parsed
  rename_i blank
  obtain ⟨engineKnown, compatible⟩ := not_or.mp known
  refine ⟨Decidable.not_not.mp engineKnown, Decidable.not_not.mp compatible, ?_, parsed⟩
  rw [← length_drop, eq_replicate_iff]
  refine ⟨rfl, fun byte listed => ?_⟩
  simp only [any_eq_true, decide_eq_true_eq, not_exists, not_and, Decidable.not_not] at blank
  exact blank byte listed

theorem encodeSuperblockAs_first (sb : Superblock) : encodeSuperblockAs sb formatV1 engineSnapshotWal 0 =
    slotWith sb formatV1 engineSnapshotWal 0 (crcBytes (slotWith sb formatV1 engineSnapshotWal 0 [0, 0, 0, 0])) := by
  unfold encodeSuperblockAs
  simp only [ite_self]
  rfl

/-- A slot is read as a superblock only where it is one as the store writes it, in this format or the first one. -/
theorem slot_canonical (parsed : parseSuperblock buf = .valid sb) :
    sb.Fits ∧ (buf = encodeSuperblockAs sb formatV1 engineSnapshotWal 0 ∨ buf = encodeSuperblock sb) := by
  refine ⟨parseSuperblock_fits parsed, ?_⟩
  unfold parseSuperblock at parsed
  split at parsed
  · cases parsed
  rename_i shape
  rw [not_or, Decidable.not_not, Decidable.not_not] at shape
  obtain ⟨size, magic⟩ := shape
  split at parsed
  case h_2 => cases parsed
  rename_i version stored versionRead storedRead
  split at parsed
  · cases parsed
  rename_i right
  have shaped : parseFields buf = .valid sb →
      buf.drop 64 = toLe 4 engineSnapshotWal ++ (toLe 8 0 ++ replicate (slotLen - 76) 0) →
      buf = slotWith sb version engineSnapshotWal 0 (crcBytes (slotWith sb version engineSnapshotWal 0 [0, 0, 0, 0])) := by
    intro fields reserved
    obtain ⟨epoch, tail⟩ := parseFields_bytes fields
    rw [reserved] at tail
    have front : buf.take 20 = slotHead sb version := by
      have whole := take_append_drop 8 buf
      rw [magic, u32At_drop versionRead, epoch, ← append_assoc (toLe 4 version), ← append_assoc superMagic] at whole
      rw [← whole]
      exact take_left' (slotHead_length sb version)
    have zeroed : slotWith sb version engineSnapshotWal 0 [0, 0, 0, 0] = buf.take 20 ++ [0, 0, 0, 0] ++ buf.drop 24 := by
      rw [slotWith_eq, front, tail, append_assoc]
      rfl
    rw [zeroed, crcBytes, Decidable.not_not.mp right, slotWith_eq, ← front]
    change _ = buf.take 20 ++ (toLe 4 stored ++ (_ ++ _))
    rw [← tail, ← u32At_drop storedRead, take_append_drop]
  split at parsed
  · rename_i first
    obtain ⟨-, -, blank, fields⟩ := parseKnown_valid parsed
    subst first
    refine .inl ((shaped fields ?_).trans (encodeSuperblockAs_first sb).symm)
    rw [blank, size, show slotLen - 64 = 4 + (8 + (slotLen - 76)) from rfl, ← replicate_append_replicate,
      ← replicate_append_replicate]
    rfl
  split at parsed
  · rename_i second
    split at parsed
    case h_2 => cases parsed
    rename_i engine incompat engineRead incompatRead
    obtain ⟨rfl, rfl, blank, fields⟩ := parseKnown_valid parsed
    subst second
    refine .inr ((shaped fields ?_).trans (encodeSuperblock_eq sb).symm)
    rw [u32At_drop engineRead, u64At_drop incompatRead, blank, size]
  split at parsed <;> cases parsed

theorem slot_canonical_sample : block.Fits ∧
    (encodeSuperblock block = encodeSuperblockAs block formatV1 engineSnapshotWal 0 ∨
      encodeSuperblock block = encodeSuperblock block) :=
  slot_canonical (parseSuperblock_encode ⟨by decide, by decide, by decide, by decide⟩)

/-! ### Frames -/

section Noticed

variable {front a b back : List UInt8} (size : b.length = a.length) (short : a.length ≤ 4) (changed : b ≠ a)

variable {serde : SerdeJson}

theorem decodeWalPrefix_dropped {rest : List UInt8} (torn : decodeWalPrefix serde rest = .ok ([], 0))
    (before : List (FrameBytes serde)) :
    decodeWalPrefix serde (walBytes before ++ rest) = decodeWalPrefix serde (walBytes before) := by
  induction before with
  | nil => exact torn.trans decodeWalPrefix_nil.symm
  | cons first others ih => rw [walBytes_cons, append_assoc, decodeWalPrefix_first, decodeWalPrefix_first, ih]

include size short changed

/-- Damage to at most four bytes of a frame's payload: the frame and what follows it are never read, as corruption where
another frame follows and as a torn tail where none does. -/
theorem payload_damage_noticed (before : List (FrameBytes serde)) (target : FrameBytes serde)
    (after : List (FrameBytes serde)) (payload : target.payload = front ++ (a ++ back)) :
    let damaged := walBytes before ++ (target.bytes.take 8 ++ (front ++ (b ++ back) ++ walBytes after))
    (after ≠ [] → ∀ decoded, decodeWalPrefix serde damaged ≠ .ok decoded) ∧
      (after = [] → decodeWalPrefix serde damaged = decodeWalPrefix serde (walBytes before)) := by
  have header : target.bytes.take 8 = toLe 4 target.payload.length ++ toLe 4 (crc32 target.payload).toNat := by
    rw [target.bytes_eq, ← append_assoc]
    exact take_left' (by rw [length_append, toLe_length, crcBytes_length])
  have long : (front ++ (b ++ back)).length = target.payload.length := by simp only [payload, length_append, size]
  have head := walHead_header target.payload_small (crc32 target.payload).toNat_lt (front ++ (b ++ back) ++ walBytes after)
  have differ : (crc32 (front ++ (b ++ back))).toNat ≠ (crc32 target.payload).toNat := by
    intro same
    rw [payload] at same
    exact changed (crc32_block size (size ▸ short) (UInt32.toNat_inj.mp same))
  rw [if_neg (by rw [length_append]; omega), take_left' long, drop_left' long, if_pos differ] at head
  dsimp only
  rw [header, append_assoc]
  constructor
  · rintro later ⟨frames, consumed⟩ decoded
    obtain ⟨next, others, rfl⟩ := exists_cons_of_ne_nil later
    obtain ⟨-, _, _, restOk, -⟩ := behind_of_decodes decoded
    have fits : frameFits (walBytes (next :: others)) = true := frameFits_bytes next _
    have behind : ¬(walBytes (next :: others) = [] ∨ frameFits (walBytes (next :: others)) = false) := by
      rintro (none | unfit)
      · rw [none] at fits
        cases fits
      · rw [unfit] at fits
        cases fits
    rw [if_neg behind] at head
    rw [decodeWalPrefix_head, head] at restOk
    cases restOk
  · rintro rfl
    apply decodeWalPrefix_dropped
    rw [if_pos (.inl rfl)] at head
    rw [decodeWalPrefix_head, head]

end Noticed

namespace Sample

theorem bumped_ne {buf : List UInt8} (some_ : buf ≠ []) : buf.map (· + 1) ≠ buf := by
  obtain ⟨byte, rest, rfl⟩ := exists_cons_of_ne_nil some_
  intro same
  have first := (cons.inj same).1
  simp at first

end Sample

theorem payload_damage_noticed_sample : decodeWalPrefix Sample.serde (walBytes [first] ++ (second.bytes.take 8 ++
    ([] ++ ((second.payload.take 1).map (· + 1) ++ second.payload.drop 1) ++ @walBytes Sample.serde []))) =
      decodeWalPrefix Sample.serde (walBytes [first]) :=
  (payload_damage_noticed (length_map _) (Nat.le_trans (length_take_le _ _) (by decide)) (Sample.bumped_ne (by decide +kernel))
    [first] second [] (take_append_drop 1 _).symm).2 rfl

end FerroLoop.Store

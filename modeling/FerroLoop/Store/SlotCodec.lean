import FerroLoop.Store.Codec

namespace FerroLoop.Store

open Bytes List

structure Superblock.Fits (sb : Superblock) : Prop where
  epoch : 0 < sb.epoch ∧ sb.epoch < u64Max
  snapshot : headerBytes ≤ sb.snapshotOffset ∧ sb.snapshotOffset + sb.snapshotLength < u64Max
  wal : headerBytes ≤ sb.walOffset ∧ sb.walOffset + sb.walLength < u64Max
  seq : sb.snapshotSeq < u64Max

variable {offset n : Nat} {sb : Superblock} {buf : List UInt8} {front back : List UInt8}

theorem u32At_append (at_ : front.length = offset) (fits : n < 2 ^ 32) :
    u32At (front ++ (toLe 4 n ++ back)) offset = some n := by
  have long : offset + 4 ≤ (front ++ (toLe 4 n ++ back)).length := by
    simp only [length_append, toLe_length]
    omega
  rw [u32At, if_pos long, drop_left' at_, take_left' (toLe_length 4 n), fromLe_toLe (by omega)]

theorem u64At_append (at_ : front.length = offset) (fits : n < u64Max) :
    u64At (front ++ (toLe 8 n ++ back)) offset = some n := by
  have long : offset + 8 ≤ (front ++ (toLe 8 n ++ back)).length := by
    simp only [length_append, toLe_length]
    omega
  rw [u64At, if_pos long, drop_left' at_, take_left' (toLe_length 8 n),
    fromLe_toLe (by rw [u64Max] at fits; omega)]

theorem superMagic_length : superMagic.length = 8 := rfl

section Slot

variable (sb : Superblock) (version engine incompat : Nat) (crc : List UInt8)

def slotHead : List UInt8 := superMagic ++ (toLe 4 version ++ toLe 8 sb.epoch)

def slotTail : List UInt8 :=
  toLe 8 sb.snapshotOffset ++ (toLe 8 sb.snapshotLength ++ (toLe 8 sb.walOffset ++ (toLe 8 sb.walLength ++
    (toLe 8 sb.snapshotSeq ++ (toLe 4 engine ++ (toLe 8 incompat ++ List.replicate (slotLen - 76) 0))))))

theorem slotWith_eq : slotWith sb version engine incompat crc =
    slotHead sb version ++ (crc ++ slotTail sb engine incompat) := by
  simp only [slotWith, slotHead, slotTail, append_assoc]

theorem slotHead_length : (slotHead sb version).length = 20 := by
  simp only [slotHead, length_append, toLe_length, superMagic_length]

theorem slotTail_length : (slotTail sb engine incompat).length = slotLen - 24 := by
  simp only [slotTail, length_append, toLe_length, length_replicate, slotLen]

theorem slotWith_length (four : crc.length = 4) : (slotWith sb version engine incompat crc).length = slotLen := by
  rw [slotWith_eq, length_append, length_append, slotHead_length, slotTail_length, four]
  rfl

theorem slotWith_drop (four : crc.length = 4) {from_ : Nat} (after : 76 ≤ from_) (inside : from_ ≤ slotLen) :
    (slotWith sb version engine incompat crc).drop from_ = List.replicate (slotLen - from_) 0 := by
  have split : slotWith sb version engine incompat crc =
      (slotHead sb version ++ (crc ++ (toLe 8 sb.snapshotOffset ++ (toLe 8 sb.snapshotLength ++ (toLe 8 sb.walOffset ++
        (toLe 8 sb.walLength ++ (toLe 8 sb.snapshotSeq ++ (toLe 4 engine ++ toLe 8 incompat)))))))) ++
        List.replicate (slotLen - 76) 0 := by
    simp only [slotWith, slotHead, append_assoc]
  have length : (slotHead sb version ++ (crc ++ (toLe 8 sb.snapshotOffset ++ (toLe 8 sb.snapshotLength ++
      (toLe 8 sb.walOffset ++ (toLe 8 sb.walLength ++ (toLe 8 sb.snapshotSeq ++
        (toLe 4 engine ++ toLe 8 incompat)))))))).length = 76 := by
    simp only [length_append, toLe_length, slotHead_length, four]
  rw [split, drop_append, length, drop_of_length_le (by omega), nil_append, drop_replicate]
  congr 1
  omega

end Slot

theorem encodeSuperblock_eq (sb : Superblock) : encodeSuperblock sb =
    slotWith sb formatV2 engineSnapshotWal 0 (crcBytes (slotWith sb formatV2 engineSnapshotWal 0 [0, 0, 0, 0])) := rfl

theorem encodeSuperblock_length (sb : Superblock) : (encodeSuperblock sb).length = slotLen :=
  slotWith_length _ _ _ _ _ (crcBytes_length _)

theorem encodeSuperblock_drop (sb : Superblock) {from_ : Nat} (after : 76 ≤ from_) (inside : from_ ≤ slotLen) :
    (encodeSuperblock sb).drop from_ = List.replicate (slotLen - from_) 0 :=
  slotWith_drop _ _ _ _ _ (crcBytes_length _) after inside

theorem parseFields_slotWith (fits : sb.Fits) {version engine incompat : Nat} {crc : List UInt8}
    (four : crc.length = 4) : parseFields (slotWith sb version engine incompat crc) = .valid sb := by
  have epoch : u64At (slotWith sb version engine incompat crc) 12 = some sb.epoch := by
    have shape : slotWith sb version engine incompat crc =
        (superMagic ++ toLe 4 version) ++ (toLe 8 sb.epoch ++ (crc ++ slotTail sb engine incompat)) := by
      simp only [slotWith_eq, slotHead, append_assoc]
    rw [shape]
    refine u64At_append ?_ fits.epoch.2
    simp only [length_append, toLe_length, superMagic_length]
  have before : (slotHead sb version ++ crc).length = 24 := by
    rw [length_append, slotHead_length, four]
  have snapshotOffset : u64At (slotWith sb version engine incompat crc) 24 = some sb.snapshotOffset := by
    rw [slotWith_eq, ← append_assoc]
    refine u64At_append before ?_
    have := fits.snapshot.2
    omega
  have snapshotLength : u64At (slotWith sb version engine incompat crc) 32 = some sb.snapshotLength := by
    rw [slotWith_eq, ← append_assoc, slotTail, ← append_assoc]
    refine u64At_append ?_ ?_
    · rw [length_append, before, toLe_length]
    · have := fits.snapshot.2
      omega
  have walOffset : u64At (slotWith sb version engine incompat crc) 40 = some sb.walOffset := by
    rw [slotWith_eq, ← append_assoc, slotTail, ← append_assoc, ← append_assoc]
    refine u64At_append ?_ ?_
    · rw [length_append, length_append, before, toLe_length, toLe_length]
    · have := fits.wal.2
      omega
  have walLength : u64At (slotWith sb version engine incompat crc) 48 = some sb.walLength := by
    rw [slotWith_eq, ← append_assoc, slotTail, ← append_assoc, ← append_assoc, ← append_assoc]
    refine u64At_append ?_ ?_
    · rw [length_append, length_append, length_append, before, toLe_length, toLe_length, toLe_length]
    · have := fits.wal.2
      omega
  have snapshotSeq : u64At (slotWith sb version engine incompat crc) 56 = some sb.snapshotSeq := by
    rw [slotWith_eq, ← append_assoc, slotTail, ← append_assoc, ← append_assoc, ← append_assoc,
      ← append_assoc]
    refine u64At_append ?_ fits.seq
    rw [length_append, length_append, length_append, length_append, before, toLe_length, toLe_length,
      toLe_length, toLe_length]
  have snapshotEnd : checkedAdd sb.snapshotOffset sb.snapshotLength = some (sb.snapshotOffset + sb.snapshotLength) :=
    if_pos fits.snapshot.2
  have walEnd : checkedAdd sb.walOffset sb.walLength = some (sb.walOffset + sb.walLength) := if_pos fits.wal.2
  have passes : ¬ (sb.epoch = 0 ∨ sb.snapshotOffset < headerBytes ∨ sb.walOffset < headerBytes ∨
      (checkedAdd sb.snapshotOffset sb.snapshotLength).isNone ∨ (checkedAdd sb.walOffset sb.walLength).isNone) := by
    have := fits.epoch.1
    have := fits.snapshot.1
    have := fits.wal.1
    rw [snapshotEnd, walEnd]
    simp only [Option.isNone_some, Bool.false_eq_true, or_false]
    omega
  unfold parseFields
  rw [epoch, snapshotOffset, snapshotLength, walOffset, walLength, snapshotSeq]
  simp only [passes, ↓reduceIte]

theorem parseSuperblock_encode (fits : sb.Fits) : parseSuperblock (encodeSuperblock sb) = .valid sb := by
  have magic : (encodeSuperblock sb).take 8 = superMagic := by
    exact take_left' superMagic_length
  have version : u32At (encodeSuperblock sb) 8 = some formatV2 := by
    have shape : ∀ crc, slotWith sb formatV2 engineSnapshotWal 0 crc =
        superMagic ++ (toLe 4 formatV2 ++ (toLe 8 sb.epoch ++ (crc ++ slotTail sb engineSnapshotWal 0))) := by
      intro crc
      simp only [slotWith_eq, slotHead, append_assoc]
    rw [encodeSuperblock_eq, shape]
    exact u32At_append superMagic_length (by decide)
  have stored : u32At (encodeSuperblock sb) 20 =
      some (crc32 (slotWith sb formatV2 engineSnapshotWal 0 [0, 0, 0, 0])).toNat := by
    rw [encodeSuperblock_eq, slotWith_eq sb formatV2 engineSnapshotWal 0 (crcBytes _)]
    exact u32At_append (slotHead_length _ _) (UInt32.toNat_lt _)
  -- Without its checksum the slot is the one the checksum was taken of.
  have zeroed : (encodeSuperblock sb).take 20 ++ [0, 0, 0, 0] ++ (encodeSuperblock sb).drop 24 =
      slotWith sb formatV2 engineSnapshotWal 0 [0, 0, 0, 0] := by
    have head : ∀ crc, (slotWith sb formatV2 engineSnapshotWal 0 crc).take 20 = slotHead sb formatV2 := by
      intro crc
      rw [slotWith_eq]
      exact take_left' (slotHead_length _ _)
    have tail : (encodeSuperblock sb).drop 24 = slotTail sb engineSnapshotWal 0 := by
      rw [encodeSuperblock_eq, slotWith_eq sb formatV2 engineSnapshotWal 0 (crcBytes _), ← append_assoc]
      apply drop_left'
      rw [length_append, slotHead_length, crcBytes_length]
    rw [tail, encodeSuperblock_eq, head, slotWith_eq, append_assoc]
  have engine : u32At (encodeSuperblock sb) 64 = some engineSnapshotWal := by
    have shape : ∀ crc, slotWith sb formatV2 engineSnapshotWal 0 crc =
        (slotHead sb formatV2 ++ (crc ++ (toLe 8 sb.snapshotOffset ++ (toLe 8 sb.snapshotLength ++ (toLe 8 sb.walOffset ++
          (toLe 8 sb.walLength ++ toLe 8 sb.snapshotSeq)))))) ++
          (toLe 4 engineSnapshotWal ++ (toLe 8 0 ++ List.replicate (slotLen - 76) 0)) := by
      intro crc
      simp only [slotWith_eq, slotTail, append_assoc]
    rw [encodeSuperblock_eq, shape]
    refine u32At_append ?_ (by decide)
    simp only [length_append, toLe_length, slotHead_length, crcBytes_length]
  have incompat : u64At (encodeSuperblock sb) 68 = some 0 := by
    have shape : ∀ crc, slotWith sb formatV2 engineSnapshotWal 0 crc =
        (slotHead sb formatV2 ++ (crc ++ (toLe 8 sb.snapshotOffset ++ (toLe 8 sb.snapshotLength ++ (toLe 8 sb.walOffset ++
          (toLe 8 sb.walLength ++ (toLe 8 sb.snapshotSeq ++ toLe 4 engineSnapshotWal))))))) ++
          (toLe 8 0 ++ List.replicate (slotLen - 76) 0) := by
      intro crc
      simp only [slotWith_eq, slotTail, append_assoc]
    rw [encodeSuperblock_eq, shape]
    refine u64At_append ?_ (by decide)
    simp only [length_append, toLe_length, slotHead_length, crcBytes_length]
  have reserved : ((encodeSuperblock sb).drop 76).any (fun byte => byte ≠ 0) = false := by
    rw [encodeSuperblock_drop sb (Nat.le_refl _) (by decide), any_replicate]
    rfl
  have fields : parseFields (encodeSuperblock sb) = .valid sb := by
    exact parseFields_slotWith fits (crcBytes_length _)
  have known : parseKnown (encodeSuperblock sb) formatV2 engineSnapshotWal 0 76 = .valid sb := by
    have current : ¬ (engineSnapshotWal ≠ engineSnapshotWal ∨ (0 : Nat) ≠ 0) := by decide
    rw [parseKnown, if_neg current, reserved, if_neg Bool.false_ne_true, fields]
  have whole : ¬ ((encodeSuperblock sb).length ≠ slotLen ∨ (encodeSuperblock sb).take 8 ≠ superMagic) := by
    rintro (short | other)
    · exact short (encodeSuperblock_length sb)
    · exact other magic
  have second : formatV2 ≠ formatV1 := by decide
  rw [parseSuperblock, if_neg whole, version, stored]
  simp only [zeroed, ne_eq, not_true_eq_false, ↓reduceIte, second, engine, incompat, known]

def blankSlot : List UInt8 := List.replicate slotLen 0

theorem parseSuperblock_blank : parseSuperblock blankSlot = .invalid := by
  have other : blankSlot.take 8 ≠ superMagic := by decide
  rw [parseSuperblock, if_pos (.inr other)]

theorem u64At_lt (read : u64At buf offset = some n) : n < u64Max := by
  unfold u64At at read
  split at read
  · cases read
    have small := fromLe_lt ((buf.drop offset).take 8)
    have short : ((buf.drop offset).take 8).length ≤ 8 := length_take_le _ _
    have most : 256 ^ ((buf.drop offset).take 8).length ≤ 256 ^ 8 := Nat.pow_le_pow_right (by decide) short
    exact Nat.lt_of_lt_of_le small most
  · cases read

theorem parseFields_fits (parsed : parseFields buf = .valid sb) : sb.Fits := by
  unfold parseFields at parsed
  split at parsed
  · rename_i epoch snapshotOffset snapshotLength walOffset walLength snapshotSeq epochRead _ _ _ _ seqRead
    split at parsed
    · cases parsed
    rename_i sound
    cases parsed
    have added : ∀ {a b : Nat}, ¬(checkedAdd a b).isNone → a + b < u64Max := by
      intro a b some_
      unfold checkedAdd at some_
      split at some_
      · assumption
      · exact absurd rfl some_
    simp only [not_or] at sound
    obtain ⟨positive, snapshotAbove, walAbove, snapshotEnd, walEnd⟩ := sound
    exact ⟨⟨Nat.pos_of_ne_zero positive, u64At_lt epochRead⟩, ⟨Nat.le_of_not_lt snapshotAbove, added snapshotEnd⟩,
      ⟨Nat.le_of_not_lt walAbove, added walEnd⟩, u64At_lt seqRead⟩
  · cases parsed

theorem parseSuperblock_fits (parsed : parseSuperblock buf = .valid sb) : sb.Fits := by
  have known : ∀ {version engine incompat from_ : Nat}, parseKnown buf version engine incompat from_ = .valid sb → sb.Fits := by
    intro version engine incompat from_ valid
    unfold parseKnown at valid
    split at valid
    · cases valid
    · split at valid
      · cases valid
      · exact parseFields_fits valid
  unfold parseSuperblock at parsed
  split at parsed
  · cases parsed
  split at parsed
  · split at parsed
    · cases parsed
    split at parsed
    · exact known parsed
    split at parsed
    · split at parsed
      · exact known parsed
      · cases parsed
    · split at parsed <;> cases parsed
  · cases parsed

end FerroLoop.Store

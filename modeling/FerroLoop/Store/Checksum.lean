import FerroLoop.Store.Layout

/-!
`crc32` takes eight bytes a step through generated tables; `crc32_bitwise` takes a bit a step. A step of a bit is linear
over exclusive or, so bits may be fed after bytes were joined.
-/

namespace FerroLoop.Store

open Bytes

def crcBits (count : Nat) (crc : UInt32) : UInt32 := Nat.repeat crcBit count crc

section

variable (crc : UInt32)

def crcFeedBitwise (data : List UInt8) : UInt32 :=
  data.foldl (fun crc byte => crcBits 8 (crc ^^^ byte.toUInt32)) crc

def crc32Bitwise (data : List UInt8) : UInt32 := ~~~ (crcFeedBitwise 0xFFFFFFFF data)

theorem crcBit_eq (x : UInt32) : crcBit x = (x >>> 1) ^^^ if x.toNat % 2 = 1 then 0xEDB88320 else 0 := by
  have low : x &&& 1 = 1 ↔ x.toNat % 2 = 1 := by
    rw [← UInt32.toNat_inj, UInt32.toNat_and, UInt32.toNat_one, Nat.and_one_is_mod]
  unfold crcBit
  simp only [low]
  split <;> simp

theorem crcBit_xor (x y : UInt32) : crcBit (x ^^^ y) = crcBit x ^^^ crcBit y := by
  have shifted : (x ^^^ y) >>> 1 = (x >>> 1) ^^^ (y >>> 1) := by
    apply UInt32.toNat_inj.mp
    simp [Nat.shiftRight_xor_distrib]
  rw [crcBit_eq, crcBit_eq x, crcBit_eq y, shifted]
  simp only [UInt32.toNat_xor, Nat.xor_mod_two_eq_one]
  generalize x >>> 1 = a
  generalize y >>> 1 = b
  generalize (0xEDB88320 : UInt32) = poly
  by_cases odd : x.toNat % 2 = 1 <;> by_cases odd' : y.toNat % 2 = 1 <;> simp only [odd, odd', if_true, if_false, not_true,
    iff_true, iff_false, not_false_eq_true]
  · have twice : poly ^^^ poly = 0 := UInt32.xor_self
    rw [show a ^^^ poly ^^^ (b ^^^ poly) = a ^^^ b ^^^ (poly ^^^ poly) by ac_rfl, twice]
  · ac_rfl
  · ac_rfl
  · simp only [UInt32.xor_zero]

theorem crcBits_xor (count : Nat) (x y : UInt32) : crcBits count (x ^^^ y) = crcBits count x ^^^ crcBits count y := by
  unfold crcBits
  induction count with
  | zero => rfl
  | succ count ih => rw [Nat.repeat, ih, crcBit_xor]; rfl

theorem crcBits_add (first second : Nat) (x : UInt32) : crcBits (first + second) x = crcBits second (crcBits first x) := by
  unfold crcBits
  induction second with
  | zero => rfl
  | succ second ih => rw [← Nat.add_assoc, Nat.repeat, ih]; rfl

/-- Zero bits only shift. -/
theorem crcBits_even {count : Nat} {x : UInt32} (even : x.toNat % 2 ^ count = 0) :
    (crcBits count x).toNat = x.toNat / 2 ^ count := by
  unfold crcBits
  induction count with
  | zero => simp [Nat.repeat]
  | succ count ih =>
    have half : x.toNat % 2 ^ count = 0 := by
      rw [Nat.pow_succ, Nat.mod_mul] at even
      omega
    have last : x.toNat / 2 ^ count % 2 = 0 := by
      rw [Nat.pow_succ, Nat.mod_mul] at even
      rcases Nat.mul_eq_zero.mp (Nat.eq_zero_of_add_eq_zero even).2 with none | zero
      · omega
      · exact zero
    rw [Nat.repeat, crcBit_eq, ih half, last, if_neg Nat.zero_ne_one, UInt32.xor_zero, UInt32.toNat_shiftRight, ih half,
      Nat.pow_succ, ← Nat.div_div_eq_div_mul]
    rfl

/-- A byte below the rest of a number. -/
theorem low_xor_high {a : Nat} (small : a < 256) (m : Nat) : a + 256 * m = a ^^^ (256 * m) := by
  apply Nat.eq_of_testBit_eq
  intro i
  rw [Nat.add_comm, show 256 = 2 ^ 8 from rfl, Nat.testBit_two_pow_mul_add m small, Nat.testBit_xor, Nat.testBit_two_pow_mul]
  split
  · rename_i below
    rw [decide_eq_false (by omega), Bool.false_and, Bool.xor_false]
  · rename_i above
    have far : a < 2 ^ i := Nat.lt_of_lt_of_le small (Nat.pow_le_pow_right (by decide : 0 < 2) (Nat.le_of_not_lt above))
    rw [decide_eq_true (by omega), Bool.true_and, Nat.testBit_lt_two_pow far, Bool.false_xor]

/-- A byte and the rest of a word. -/
theorem word_split {a m : Nat} (small : a < 256) (rest : m < 2 ^ 24) :
    UInt32.ofNat (a + 256 * m) = UInt32.ofNat a ^^^ UInt32.ofNat (256 * m) := by
  apply UInt32.toNat_inj.mp
  have size : UInt32.size = 2 ^ 32 := rfl
  rw [UInt32.toNat_xor, UInt32.toNat_ofNat_of_lt' (by omega), UInt32.toNat_ofNat_of_lt' (by omega),
    UInt32.toNat_ofNat_of_lt' (by omega)]
  exact low_xor_high small m

theorem crcBits_shifted {m : Nat} (rest : m < 2 ^ 24) : crcBits 8 (UInt32.ofNat (256 * m)) = UInt32.ofNat m := by
  apply UInt32.toNat_inj.mp
  have size : UInt32.size = 2 ^ 32 := rfl
  have word : (UInt32.ofNat (256 * m)).toNat = 256 * m := UInt32.toNat_ofNat_of_lt' (by omega)
  rw [crcBits_even (by rw [word]; omega), word, UInt32.toNat_ofNat_of_lt' (by omega)]
  omega

/-- Eight bits: the byte through the table, the rest shifted. -/
theorem crcBits_split (count : Nat) (x : UInt32) :
    crcBits (8 + count) x = crcBits count (x >>> 8) ^^^ crcBits (8 + count) (x &&& 0xff) := by
  have small : x.toNat / 256 < 2 ^ 24 := by
    have bound := x.toNat_lt
    omega
  have low : x &&& 0xff = UInt32.ofNat (x.toNat % 256) := by
    apply UInt32.toNat_inj.mp
    rw [UInt32.toNat_and, UInt32.toNat_ofNat_of_lt' (Nat.lt_of_le_of_lt (Nat.mod_le _ _) x.toNat_lt)]
    exact Nat.and_two_pow_sub_one_eq_mod x.toNat 8
  have high : x >>> 8 = UInt32.ofNat (x.toNat / 256) := by
    apply UInt32.toNat_inj.mp
    rw [UInt32.toNat_shiftRight, UInt32.toNat_ofNat_of_lt' (Nat.lt_of_le_of_lt (Nat.div_le_self _ _) x.toNat_lt)]
    exact Nat.shiftRight_eq_div_pow x.toNat 8
  have joined := word_split (Nat.mod_lt x.toNat (by decide : 256 > 0)) small
  rw [Nat.mod_add_div, UInt32.ofNat_toNat] at joined
  rw [low, high, ← crcBits_shifted small, ← crcBits_add, ← crcBits_xor, UInt32.xor_comm, ← joined]

theorem crcTable_eq (k : Nat) (byte : UInt32) : crcTable k byte = crcBits (8 + 8 * k) byte := by
  induction k with
  | zero =>
    rw [crcTable]
    rfl
  | succ k ih =>
    have next := crcBits_split 0 (crcBits (8 + 8 * k) byte)
    rw [Nat.mul_succ, ← Nat.add_assoc, crcBits_add, show crcBits 8 = crcBits (8 + 0) from rfl, next, crcTable, ih, crcTable]
    rfl

/-- Bytes may be joined into a word before their bits are fed. -/
theorem crcFeedBitwise_word {data : List UInt8} (short : data.length ≤ 4) :
    crcFeedBitwise crc data = crcBits (8 * data.length) (crc ^^^ UInt32.ofNat (fromLe data)) := by
  induction data generalizing crc with
  | nil => exact UInt32.xor_zero.symm
  | cons b rest ih =>
    rw [List.length_cons] at short ⊢
    have bound : fromLe rest < 2 ^ 24 := by
      have size := fromLe_lt rest
      have power : 256 ^ rest.length ≤ 256 ^ 3 := Nat.pow_le_pow_right (by decide) (by omega)
      omega
    have byte : UInt32.ofNat b.toNat = b.toUInt32 := by simp
    have word := word_split b.toNat_lt bound
    rw [byte] at word
    calc
      _ = crcFeedBitwise (crcBits 8 (crc ^^^ b.toUInt32)) rest := rfl
      _ = crcBits (8 * rest.length) (crcBits 8 (crc ^^^ b.toUInt32) ^^^ crcBits 8 (UInt32.ofNat (256 * fromLe rest))) := by
        rw [ih _ (by omega), crcBits_shifted bound]
      _ = _ := by rw [← crcBits_xor, ← crcBits_add, UInt32.xor_assoc, ← word, fromLe, Nat.mul_succ, Nat.add_comm 8]

theorem crcFeedBitwise_append (first second : List UInt8) :
    crcFeedBitwise crc (first ++ second) = crcFeedBitwise (crcFeedBitwise crc first) second :=
  List.foldl_append

/-- A word goes through four tables, a byte each. -/
theorem crcBits_word (k : Nat) (x : UInt32) : crcBits (8 + 8 * (k + 3)) x =
    crcTable (k + 3) (x &&& 0xff) ^^^ crcTable (k + 2) ((x >>> 8) &&& 0xff) ^^^ crcTable (k + 1) ((x >>> 16) &&& 0xff) ^^^
      crcTable k (x >>> 24) := by
  have second : x >>> 8 >>> 8 = x >>> 16 := by
    apply UInt32.toNat_inj.mp
    simp [← Nat.shiftRight_add]
  have third : x >>> 16 >>> 8 = x >>> 24 := by
    apply UInt32.toNat_inj.mp
    simp [← Nat.shiftRight_add]
  have byte : ∀ (n : Nat) (y : UInt32), crcBits (8 + 8 * (n + 1)) y = crcBits (8 + 8 * n) (y >>> 8) ^^^ crcTable (n + 1) (y &&& 0xff) := by
    intro n y
    rw [crcTable_eq, show 8 * (n + 1) = 8 + 8 * n by omega]
    exact crcBits_split _ _
  rw [byte, byte, second, byte, third, ← crcTable_eq]
  ac_rfl

theorem crcFeedBitwise_four (b0 b1 b2 b3 : UInt8) :
    crcFeedBitwise crc [b0, b1, b2, b3] = crcBits 32 (crc ^^^ UInt32.ofNat (fromLe [b0, b1, b2, b3])) :=
  crcFeedBitwise_word crc (Nat.le_refl 4)

/-- A byte of the remainder. -/
theorem crcBits_byte (byte : UInt8) :
    crcBits 8 (crc ^^^ byte.toUInt32) = (crc >>> 8) ^^^ crcTable 0 ((crc ^^^ byte.toUInt32) &&& 0xff) := by
  have dropped : (crc ^^^ byte.toUInt32) >>> 8 = crc >>> 8 := by
    apply UInt32.toNat_inj.mp
    have small : byte.toNat >>> 8 = 0 := Nat.shiftRight_eq_zero _ _ byte.toNat_lt
    simp [Nat.shiftRight_xor_distrib, small]
  have split := crcBits_split 0 (crc ^^^ byte.toUInt32)
  rw [dropped] at split
  rw [crcTable_eq]
  exact split

theorem crcFeed_eq (data : List UInt8) : crcFeed crc data = crcFeedBitwise crc data := by
  fun_induction crcFeed crc data with
  | case1 crc b0 b1 b2 b3 b4 b5 b6 b7 rest lo hi ih =>
    have words : crcFeedBitwise crc ([b0, b1, b2, b3] ++ [b4, b5, b6, b7]) = crcBits (32 + 32) lo ^^^ crcBits 32 hi := by
      rw [crcFeedBitwise_append, crcFeedBitwise_four, crcFeedBitwise_four, crcBits_xor, crcBits_add]
    rw [crcBits_word 4 lo, crcBits_word 0 hi] at words
    have whole := crcFeedBitwise_append crc ([b0, b1, b2, b3] ++ [b4, b5, b6, b7]) rest
    rw [words] at whole
    refine (ih.trans ?_).trans whole.symm
    simp only [Nat.reduceAdd, UInt32.xor_assoc]
  | case2 crc tail short =>
    unfold crcFeedBitwise
    simp only [crcBits_byte]

end

theorem crc32_eq_bitwise (data : List UInt8) : crc32 data = crc32Bitwise data := by
  unfold crc32 crc32Bitwise
  rw [crcFeed_eq]

end FerroLoop.Store

import Mathlib.Algebra.Ring.Nat

/-!
Machine words with Rust's saturating operations, read as natural numbers. Plain `+` on a word
wraps, as it does in a build without overflow checks.
-/

namespace FerroLoop.Word

def maxU64 : UInt64 := 0xFFFFFFFFFFFFFFFF

def satAdd (a b : UInt64) : UInt64 := if a.toNat + b.toNat < 2 ^ 64 then a + b else maxU64

def satSub (a b : UInt64) : UInt64 := if b ≤ a then a - b else 0

def satSub32 (a b : UInt32) : UInt32 := if b ≤ a then a - b else 0

theorem toNat_satAdd (a b : UInt64) : (satAdd a b).toNat = min (a.toNat + b.toNat) (2 ^ 64 - 1) := by
  unfold satAdd
  split
  · rw [UInt64.toNat_add]
    omega
  · have top : maxU64.toNat = 2 ^ 64 - 1 := rfl
    omega

theorem toNat_satSub (a b : UInt64) : (satSub a b).toNat = a.toNat - b.toNat := by
  unfold satSub
  split
  · rename_i within
    exact UInt64.toNat_sub_of_le _ _ within
  rename_i beyond
  rw [UInt64.le_iff_toNat_le] at beyond
  show 0 = _
  omega

theorem toNat_satSub32 (a b : UInt32) : (satSub32 a b).toNat = a.toNat - b.toNat := by
  unfold satSub32
  split
  · rename_i within
    exact UInt32.toNat_sub_of_le _ _ within
  rename_i beyond
  rw [UInt32.le_iff_toNat_le] at beyond
  show 0 = _
  omega

theorem toNat_add_of_lt {a b : UInt64} (fits : a.toNat + b.toNat < 2 ^ 64) : (a + b).toNat = a.toNat + b.toNat := by
  rw [UInt64.toNat_add]
  omega

theorem toNat_add32_of_lt {a b : UInt32} (fits : a.toNat + b.toNat < 2 ^ 32) : (a + b).toNat = a.toNat + b.toNat := by
  rw [UInt32.toNat_add]
  omega

end FerroLoop.Word

import Mathlib.Data.List.Basic
import Mathlib.Algebra.Ring.Nat

/-!
Decimal digits of a fixed width, as `{:04}` writes them: they spell the number they were written for, and their
lexical order is the order of the numbers.
-/

namespace FerroLoop.Decimals

open List

/-- The decimal digits of a number, with zeros in front up to a width. -/
def padded (width n : Nat) : List Char :=
  List.replicate (width - (Nat.toDigits 10 n).length) '0' ++ Nat.toDigits 10 n

/-- The number that decimal digits spell. -/
def value (digits : List Char) : Nat := Nat.ofDigitChars 10 digits 0

variable {width n : Nat}

theorem toDigits_length (some : 0 < width) (small : n < 10 ^ width) : (Nat.toDigits 10 n).length ≤ width :=
  (Nat.length_toDigits_le_iff (by decide) some).mpr small

theorem padded_length (some : 0 < width) (small : n < 10 ^ width) : (padded width n).length = width := by
  have fits := toDigits_length some small
  rw [padded, length_append, length_replicate]
  omega

theorem isDigit_of_mem_padded {c : Char} (member : c ∈ padded width n) : c.isDigit = true := by
  rcases mem_append.mp member with zero | digit
  · rw [eq_of_mem_replicate zero]
    decide
  · exact Nat.isDigit_of_mem_toDigits (by decide) (by decide) digit

theorem value_replicate_zero (count : Nat) (rest : List Char) :
    Nat.ofDigitChars 10 (List.replicate count '0' ++ rest) 0 = Nat.ofDigitChars 10 rest 0 := by
  induction count with
  | zero => rfl
  | succ count ih =>
    exact ih

theorem value_padded (width n : Nat) : value (padded width n) = n := by
  rw [value, padded, value_replicate_zero]
  exact Nat.ofDigitChars_ten_toDigits

/-- Of two texts that start with equally long parts, one stands before the other by these parts or by what follows. -/
theorem append_lt_append {α : Type} [LT α] {first second : List α} (length : first.length = second.length)
    {rest rest' : List α} (before : first ++ rest < second ++ rest') :
    first < second ∨ (first = second ∧ rest < rest') := by
  induction first generalizing second with
  | nil =>
    cases second with
    | nil => exact .inr ⟨rfl, before⟩
    | cons b _ => cases length
  | cons a first ih =>
    rcases second with _ | ⟨b, second⟩
    · cases length
    rcases cons_lt_cons_iff.mp before with less | ⟨same, further⟩
    · exact .inl (cons_lt_cons_iff.mpr (.inl less))
    · rcases ih (Nat.succ.inj length) further with less | ⟨equal, later⟩
      · exact .inl (cons_lt_cons_iff.mpr (.inr ⟨same, less⟩))
      · exact .inr ⟨by rw [same, equal], later⟩

theorem padded_succ (some : 0 < width) (n : Nat) :
    padded (width + 1) n = padded width (n / 10) ++ [Nat.digitChar (n % 10)] := by
  unfold padded
  by_cases single : n < 10
  · have tens : n / 10 = 0 := Nat.div_eq_of_lt single
    rw [tens, Nat.mod_eq_of_lt single, Nat.toDigits_of_lt_base single, Nat.toDigits_zero]
    show List.replicate width '0' ++ _ = List.replicate (width - 1) '0' ++ ['0'] ++ _
    rw [← replicate_succ', Nat.sub_add_cancel some]
  · have split := @Nat.toDigits_of_base_le 10 n (by decide) (Nat.le_of_not_lt single)
    rw [split, length_append, length_singleton, Nat.add_sub_add_right, append_assoc]

theorem digitChar_lt {a b : Nat} (small : a < 10) (small' : b < 10) (before : Nat.digitChar a < Nat.digitChar b) : a < b := by
  have table : ∀ x < 10, ∀ y < 10, Nat.digitChar x < Nat.digitChar y → x < y := by decide
  exact table a small b small' before

theorem padded_lt {m : Nat} (some : 0 < width) (small : m < 10 ^ width) (small' : n < 10 ^ width)
    (before : padded width m < padded width n) : m < n := by
  induction some generalizing m n with
  | refl =>
    have single : m < 10 := by omega
    have single' : n < 10 := by omega
    unfold padded at before
    rw [Nat.toDigits_of_lt_base single, Nat.toDigits_of_lt_base single'] at before
    rcases cons_lt_cons_iff.mp before with less | ⟨_, none⟩
    · exact digitChar_lt single single' less
    · cases none
  | @step width wide ih =>
    have bound : m / 10 < 10 ^ width := by omega
    have bound' : n / 10 < 10 ^ width := by omega
    rw [padded_succ wide, padded_succ wide] at before
    have length : (padded width (m / 10)).length = (padded width (n / 10)).length := by
      rw [padded_length wide bound, padded_length wide bound']
    rcases append_lt_append length before with less | ⟨same, last⟩
    · have := ih bound bound' less
      omega
    have tens : m / 10 = n / 10 := by
      have values := congrArg value same
      rwa [value_padded, value_padded] at values
    rcases cons_lt_cons_iff.mp last with less | ⟨_, none⟩
    · have := digitChar_lt (Nat.mod_lt m (by decide)) (Nat.mod_lt n (by decide)) less
      omega
    · cases none

/-- A field of a larger number, or of the same number with what follows not earlier, does not stand earlier. -/
theorem not_padded_lt {m : Nat} (some : 0 < width) (small : m < 10 ^ width) (small' : n < 10 ^ width) (least : m ≤ n)
    {rest rest' : List Char} (further : m = n → ¬rest' < rest) : ¬padded width n ++ rest' < padded width m ++ rest := by
  intro before
  have length : (padded width n).length = (padded width m).length := by
    rw [padded_length some small, padded_length some small']
  rcases append_lt_append length before with less | ⟨same, later⟩
  · have := padded_lt some small' small less
    omega
  · have values := congrArg value same
    rw [value_padded, value_padded] at values
    exact further values.symm later

end FerroLoop.Decimals

import Mathlib.Data.List.Basic

/-!
Base64 in the standard and in the URL-safe alphabet, with padding (RFC 4648). What is encoded in an alphabet is decoded
from it, and the digits before the padding number four thirds of the bytes, rounded up.
-/

namespace FerroLoop.Base64

open List

/-- The characters for the values 0 to 61, which the two alphabets share. -/
def commonDigit (n : Nat) : Char :=
  if n < 26 then Char.ofNat ('A'.toNat + n)
  else if n < 52 then Char.ofNat ('a'.toNat + (n - 26))
  else Char.ofNat ('0'.toNat + (n - 52))

def standard (n : Nat) : Char := if n = 62 then '+' else if n = 63 then '/' else commonDigit n

def urlSafe (n : Nat) : Char := if n = 62 then '-' else if n = 63 then '_' else commonDigit n

section Encode

variable (digit : Nat → Char)

/-- Three bytes are four digits; at the end, one or two bytes are padded. -/
def encode : List UInt8 → List Char
  | a :: b :: c :: rest =>
    digit (a.toNat / 4) :: digit (a.toNat % 4 * 16 + b.toNat / 16) :: digit (b.toNat % 16 * 4 + c.toNat / 64) ::
      digit (c.toNat % 64) :: encode rest
  | [a, b] => [digit (a.toNat / 4), digit (a.toNat % 4 * 16 + b.toNat / 16), digit (b.toNat % 16 * 4), '=']
  | [a] => [digit (a.toNat / 4), digit (a.toNat % 4 * 16), '=', '=']
  | [] => []

/-- The value a character stands for. -/
def indexOf (c : Char) : Option Nat := (List.range 64).find? fun n => digit n == c

/-- The bytes of four digits that are not the last. -/
def decodeFour (a b c d : Char) : Option (List UInt8) := do
  let p ← indexOf digit a
  let q ← indexOf digit b
  let r ← indexOf digit c
  let s ← indexOf digit d
  return [UInt8.ofNat (p * 4 + q / 16), UInt8.ofNat (q % 16 * 16 + r / 4), UInt8.ofNat (r % 4 * 64 + s)]

/-- The bytes of the last digits where they are padded. Bits that no byte takes are to be zero. -/
def decodePadded (a b c : Char) : Option (List UInt8) := do
  let p ← indexOf digit a
  let q ← indexOf digit b
  if c = '=' then
    if q % 16 = 0 then some [UInt8.ofNat (p * 4 + q / 16)] else none
  else
    let r ← indexOf digit c
    if r % 4 = 0 then some [UInt8.ofNat (p * 4 + q / 16), UInt8.ofNat (q % 16 * 16 + r / 4)] else none

def decode : List Char → Option (List UInt8)
  | [] => some []
  | a :: b :: c :: d :: rest =>
    if d = '=' then (if rest = [] then decodePadded digit a b c else none)
    else do
      let front ← decodeFour digit a b c d
      let back ← decode rest
      return front ++ back
  | _ => none

end Encode

/-- An alphabet: the digits are told apart, and none of them is the padding. -/
structure Alphabet (digit : Nat → Char) : Prop where
  index : ∀ n < 64, indexOf digit (digit n) = some n
  padding : ∀ n < 64, digit n ≠ '='

theorem standard_alphabet : Alphabet standard where
  index := by decide +kernel
  padding := by decide +kernel

theorem urlSafe_alphabet : Alphabet urlSafe where
  index := by decide +kernel
  padding := by decide +kernel

theorem byte_join {n : Nat} (byte : UInt8) (same : n = byte.toNat) : UInt8.ofNat n = byte := by
  rw [same, UInt8.ofNat_toNat]

variable {digit : Nat → Char}

theorem decode_encode (alphabet : Alphabet digit) (bytes : List UInt8) : decode digit (encode digit bytes) = some bytes := by
  induction bytes using encode.induct with
  | case1 a b c rest ih =>
    have first := a.toNat_lt
    have second := b.toNat_lt
    have third := c.toNat_lt
    rw [encode, decode, if_neg (alphabet.padding _ (by omega)), ih]
    unfold decodeFour
    rw [alphabet.index _ (by omega), alphabet.index _ (by omega), alphabet.index _ (by omega), alphabet.index _ (by omega)]
    show some [UInt8.ofNat _, UInt8.ofNat _, UInt8.ofNat _] >>= _ = _
    rw [byte_join a (by omega), byte_join b (by omega), byte_join c (by omega)]
    rfl
  | case2 a b =>
    have first := a.toNat_lt
    have second := b.toNat_lt
    rw [encode, decode, if_pos rfl, if_pos rfl]
    unfold decodePadded
    rw [alphabet.index _ (by omega), alphabet.index _ (by omega)]
    show (if digit (b.toNat % 16 * 4) = '=' then _ else _) = _
    rw [if_neg (alphabet.padding _ (by omega)), alphabet.index _ (by omega)]
    show (if b.toNat % 16 * 4 % 4 = 0 then some [UInt8.ofNat _, UInt8.ofNat _] else none) = _
    rw [if_pos (by omega), byte_join a (by omega), byte_join b (by omega)]
  | case3 a =>
    have first := a.toNat_lt
    rw [encode, decode, if_pos rfl, if_pos rfl]
    unfold decodePadded
    rw [alphabet.index _ (by omega), alphabet.index _ (by omega)]
    show (if a.toNat % 4 * 16 % 16 = 0 then some [UInt8.ofNat _] else none) = _
    rw [if_pos (by omega), byte_join a (by omega)]
  | case4 => rfl

/-- A text in Base64 is digits, four thirds of the bytes in number and rounded up, and then padding. -/
theorem encode_digits (bytes : List UInt8) :
    ∃ digits padding, encode digit bytes = digits ++ padding ∧ digits.length = (bytes.length * 4 + 2) / 3 ∧
      (∀ c ∈ digits, ∃ n < 64, c = digit n) ∧ ∀ c ∈ padding, c = '=' := by
  induction bytes using encode.induct with
  | case1 a b c rest ih =>
    obtain ⟨digits, padding, same, size, low, pads⟩ := ih
    have first := a.toNat_lt
    have second := b.toNat_lt
    have third := c.toNat_lt
    refine ⟨digit (a.toNat / 4) :: digit (a.toNat % 4 * 16 + b.toNat / 16) :: digit (b.toNat % 16 * 4 + c.toNat / 64) ::
      digit (c.toNat % 64) :: digits, padding, by rw [encode, same]; rfl, ?_, ?_, pads⟩
    · simp only [length_cons, size]
      omega
    intro found member
    simp only [mem_cons] at member
    rcases member with same | same | same | same | later
    rotate_right
    · exact low found later
    all_goals exact ⟨_, by omega, same⟩
  | case2 a b =>
    have first := a.toNat_lt
    have second := b.toNat_lt
    refine ⟨[_, _, _], ['='], by rw [encode]; exact rfl, by simp, ?_, by simp⟩
    intro found member
    simp only [mem_cons, not_mem_nil, or_false] at member
    rcases member with same | same | same <;> exact ⟨_, by omega, same⟩
  | case3 a =>
    have first := a.toNat_lt
    refine ⟨[_, _], ['=', '='], by rw [encode]; exact rfl, by simp, ?_, by simp⟩
    intro found member
    simp only [mem_cons, not_mem_nil, or_false] at member
    rcases member with same | same <;> exact ⟨_, by omega, same⟩
  | case4 => exact ⟨[], [], rfl, rfl, by simp, by simp⟩

theorem encode_padded (alphabet : Alphabet digit) (bytes : List UInt8) :
    ∃ digits padding, encode digit bytes = digits ++ padding ∧ digits.length = (bytes.length * 4 + 2) / 3 ∧ '=' ∉ digits ∧
      ∀ c ∈ padding, c = '=' := by
  obtain ⟨digits, padding, same, size, low, pads⟩ := @encode_digits digit bytes
  refine ⟨digits, padding, same, size, ?_, pads⟩
  intro member
  obtain ⟨n, small, found⟩ := low _ member
  exact alphabet.padding n small found.symm

/-- Every character of a text in Base64 is a digit or the padding. -/
theorem mem_encode {bytes : List UInt8} {c : Char} (member : c ∈ encode digit bytes) :
    c = '=' ∨ ∃ n < 64, c = digit n := by
  obtain ⟨digits, padding, same, -, low, pads⟩ := @encode_digits digit bytes
  rw [same] at member
  rcases mem_append.mp member with listed | after
  · exact .inr (low c listed)
  · exact .inl (pads c after)

end FerroLoop.Base64

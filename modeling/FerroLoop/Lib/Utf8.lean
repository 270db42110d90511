import Mathlib.Data.List.Basic

/-!
UTF-8 as a sequence of characters: a byte that starts one and says how many more it has, and the bytes that continue it.
-/

namespace FerroLoop.Utf8

open List

/-- The byte continues a character. -/
def continues (b : UInt8) : Bool := 0x80 ≤ b && b < 0xC0

/-- How many bytes continue a character that starts with the byte. -/
def following (b : UInt8) : Nat := if b < 0x80 then 0 else if b < 0xE0 then 1 else if b < 0xF0 then 2 else 3

/-- A position where a character starts, or the end. -/
def isCharBoundary (bytes : List UInt8) (i : Nat) : Bool :=
  match bytes[i]? with
  | some b => i == 0 || !continues b
  | none => i == bytes.length

inductive Valid : List UInt8 → Prop
  | nil : Valid []
  | char {lead : UInt8} {rest text : List UInt8} (starts : continues lead = false) (size : rest.length = following lead)
      (more : ∀ b ∈ rest, continues b = true) (valid : Valid text) : Valid (lead :: (rest ++ text))

variable {n : Nat} {bytes : List UInt8}

theorem continues_of_bounds (low : 0x80 ≤ n) (high : n < 0xC0) : continues (UInt8.ofNat n) = true := by
  unfold continues
  rw [Bool.and_eq_true, decide_eq_true_eq, decide_eq_true_eq, UInt8.le_iff_toNat_le, UInt8.lt_iff_toNat_lt,
    UInt8.toNat_ofNat_of_lt' (by show n < 256; omega)]
  exact ⟨low, high⟩

theorem starts_of_bounds (bound : n < 256) (outside : n < 0x80 ∨ 0xC0 ≤ n) : continues (UInt8.ofNat n) = false := by
  unfold continues
  rw [Bool.and_eq_false_iff, decide_eq_false_iff_not, decide_eq_false_iff_not, UInt8.le_iff_toNat_le, UInt8.lt_iff_toNat_lt,
    UInt8.toNat_ofNat_of_lt' bound]
  show ¬0x80 ≤ n ∨ ¬n < 0xC0
  omega

theorem following_ofNat (bound : n < 256) :
    following (UInt8.ofNat n) = if n < 0x80 then 0 else if n < 0xE0 then 1 else if n < 0xF0 then 2 else 3 := by
  unfold following
  simp only [UInt8.lt_iff_toNat_lt, UInt8.toNat_ofNat_of_lt' bound]
  rfl

/-- The bytes of a character. -/
theorem Valid.encoded (c : Char) {text : List UInt8} (valid : Valid text) : Valid (String.utf8EncodeChar c ++ text) := by
  unfold String.utf8EncodeChar
  dsimp only
  split
  · exact @Valid.char _ [] _ (starts_of_bounds (by omega) (by omega)) (by rw [following_ofNat (by omega), if_pos (by omega)]; rfl) nofun valid
  split
  · refine @Valid.char _ [_] _ (starts_of_bounds (by omega) (by omega)) ?_ ?_ valid
    · rw [following_ofNat (by omega), if_neg (by omega), if_pos (by omega)]
      rfl
    · simp only [mem_singleton, forall_eq]
      exact continues_of_bounds (by omega) (by omega)
  · split
    · refine @Valid.char _ [_, _] _ (starts_of_bounds (by omega) (by omega)) ?_ ?_ valid
      · rw [following_ofNat (by omega), if_neg (by omega), if_neg (by omega), if_pos (by omega)]
        rfl
      · simp only [mem_cons, not_mem_nil, or_false, forall_eq_or_imp, forall_eq]
        exact ⟨continues_of_bounds (by omega) (by omega), continues_of_bounds (by omega) (by omega)⟩
    · refine @Valid.char _ [_, _, _] _ (starts_of_bounds (by omega) (by omega)) ?_ ?_ valid
      · rw [following_ofNat (by omega), if_neg (by omega), if_neg (by omega), if_neg (by omega)]
        rfl
      · simp only [mem_cons, not_mem_nil, or_false, forall_eq_or_imp, forall_eq]
        exact ⟨continues_of_bounds (by omega) (by omega), continues_of_bounds (by omega) (by omega),
          continues_of_bounds (by omega) (by omega)⟩

theorem Valid.flatMap (cs : List Char) : Valid (cs.flatMap String.utf8EncodeChar) := by
  induction cs with
  | nil => exact .nil
  | cons c cs ih => exact ih.encoded c

theorem valid_string (s : String) : Valid s.toByteArray.data.toList := by
  rw [← String.utf8Encode_toList]
  unfold List.utf8Encode
  rw [data_toByteArray]
  exact .flatMap s.toList

theorem Valid.ascii (low : ∀ b ∈ bytes, b < 0x80) : Valid bytes := by
  induction bytes with
  | nil => exact .nil
  | cons b bytes ih =>
    have here := low b mem_cons_self
    refine @Valid.char b [] bytes ?_ ?_ nofun (ih fun c member => low c (mem_cons_of_mem _ member))
    · unfold continues
      rw [Bool.and_eq_false_iff, decide_eq_false_iff_not]
      exact .inl (UInt8.not_le.mpr here)
    · unfold following
      rw [if_pos here]
      rfl

/-- A byte that continues a character stands behind the one that starts it, with no more between them than it takes. -/
theorem Valid.back (valid : Valid bytes) {i : Nat} {b : UInt8} (here : bytes[i]? = some b)
    (continuing : continues b = true) :
    ∃ l lead, l < i ∧ bytes[l]? = some lead ∧ continues lead = false ∧ i ≤ l + following lead ∧
      ∀ j, l < j → j ≤ i → ∃ c, bytes[j]? = some c ∧ continues c = true := by
  induction valid generalizing i with
  | nil => cases here
  | @char lead rest text starts size more valid ih =>
    cases i with
    | zero =>
      have same : lead = b := Option.some.inj here
      rw [same, continuing] at starts
      cases starts
    | succ i =>
      rw [getElem?_cons_succ] at here
      by_cases inside : i < rest.length
      · refine ⟨0, lead, by omega, rfl, starts, by omega, ?_⟩
        intro j positive upTo
        obtain ⟨k, rfl⟩ : ∃ k, j = k + 1 := ⟨j - 1, by omega⟩
        have short : k < rest.length := by omega
        refine ⟨rest[k], ?_, more _ (getElem_mem short)⟩
        rw [getElem?_cons_succ, getElem?_append_left short, getElem?_eq_getElem short]
      · rw [getElem?_append_right (by omega)] at here
        obtain ⟨l, first, before, found, opens, reach, between⟩ := ih here
        refine ⟨l + rest.length + 1, first, by omega, ?_, opens, by omega, ?_⟩
        · rw [getElem?_cons_succ, getElem?_append_right (by omega), Nat.add_sub_cancel]
          exact found
        intro j after upTo
        obtain ⟨c, at_, more⟩ := between (j - 1 - rest.length) (by omega) (by omega)
        refine ⟨c, ?_, more⟩
        rw [show j = (j - 1) + 1 by omega, getElem?_cons_succ, getElem?_append_right (by omega)]
        exact at_

/-- A byte that starts a character is followed by all that continue it. -/
theorem Valid.forth (valid : Valid bytes) {l : Nat} {lead : UInt8} (here : bytes[l]? = some lead)
    (starts : continues lead = false) : l + following lead < bytes.length := by
  induction valid generalizing l with
  | nil => cases here
  | @char first rest text opens size more valid ih =>
    cases l with
    | zero =>
      have same : first = lead := Option.some.inj here
      subst same
      rw [length_cons, length_append]
      omega
    | succ l =>
      rw [getElem?_cons_succ] at here
      by_cases inside : l < rest.length
      · rw [getElem?_append_left inside, getElem?_eq_getElem inside] at here
        have continuing := more _ (getElem_mem inside)
        rw [Option.some.inj here, starts] at continuing
        cases continuing
      · rw [getElem?_append_right (by omega)] at here
        have reach := ih here
        rw [length_cons, length_append]
        omega

theorem following_pos {b : UInt8} (more : 0 < following b) : 0x80 ≤ b := by
  unfold following at more
  split at more
  · omega
  · rename_i high
    exact UInt8.not_lt.mp high

end FerroLoop.Utf8

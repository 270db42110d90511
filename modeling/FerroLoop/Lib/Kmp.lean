import Mathlib.Data.List.Infix

/-!
The prefix-function matcher: how many symbols of a pattern the end of a text agrees with, kept up one symbol at a time
through a table of the pattern's own borders.
-/

namespace FerroLoop.Kmp

open List

variable {β : Type}

section Matcher

variable [DecidableEq β]

/-- While the next symbol of the pattern is another one, fall back to the next shorter border. -/
def fall (table : List Nat) (pattern : List β) (c : β) : Nat → Nat → Nat
  | 0, matched => matched
  | fuel + 1, matched =>
    if 0 < matched ∧ pattern[matched]? ≠ some c then fall table pattern c fuel (table.getD (matched - 1) 0)
    else matched

/-- How much of the pattern is matched after one more symbol. -/
def advance (table : List Nat) (pattern : List β) (c : β) (matched : Nat) : Nat :=
  let kept := fall table pattern c matched matched
  if pattern[kept]? = some c then kept + 1 else kept

/-- The table for the rest of the pattern, after its entries for what is before. -/
def prefixFrom (pattern : List β) : List Nat → Nat → List β → List Nat
  | table, _, [] => table
  | table, matched, c :: rest =>
    let next := advance table pattern c matched
    prefixFrom pattern (table ++ [next]) next rest

/-- For every prefix of the pattern the length of its longest proper border. -/
def prefixTable (pattern : List β) : List Nat :=
  match pattern with
  | [] => []
  | _ :: rest => prefixFrom pattern [0] 0 rest

end Matcher

/-- Among the lengths below a bound, the greatest for which the start of the pattern is the end of what was seen. -/
structure Best (pattern : List β) (bound : Nat) (seen : List β) (k : Nat) : Prop where
  within : k < bound
  fits : pattern.take k <:+ seen
  greatest : ∀ {j : Nat}, j < bound → pattern.take j <:+ seen → j ≤ k

/-- The entries of a table before a length are right. -/
def Right (pattern : List β) (table : List Nat) (n : Nat) : Prop :=
  ∀ i < n, Best pattern (i + 1) (pattern.take (i + 1)) (table.getD i 0)

variable {seen pattern : List β}

theorem take_suffix_take {j k : Nat} (le : j ≤ k) (short : pattern.take j <:+ seen)
    (long : pattern.take k <:+ seen) : pattern.take j <:+ pattern.take k := by
  refine suffix_of_suffix_length_le short long ?_
  simp only [length_take]
  omega

theorem take_succ_suffix {c : β} {j : Nat} (inside : j < pattern.length) :
    pattern.take (j + 1) <:+ seen ++ [c] ↔ pattern.take j <:+ seen ∧ pattern[j]? = some c := by
  rw [take_add_one, getElem?_eq_getElem inside]
  constructor
  · rintro ⟨front, whole⟩
    rw [Option.toList_some, ← append_assoc] at whole
    obtain ⟨init, last⟩ := append_inj' whole rfl
    exact ⟨⟨front, init⟩, congrArg some (List.cons.inj last).1⟩
  · rintro ⟨⟨front, whole⟩, last⟩
    refine ⟨front, ?_⟩
    rw [Option.toList_some, ← append_assoc, whole, Option.some.inj last]

theorem best_nil (nonempty : pattern ≠ []) : Best pattern pattern.length [] 0 := by
  refine ⟨length_pos_iff.mpr nonempty, nil_suffix, ?_⟩
  intro j less suffix
  have empty := suffix_nil.mp suffix
  have size := congrArg List.length empty
  rw [length_take, length_nil] at size
  omega

theorem Right.push {table : List Nat} {next : Nat} (right : Right pattern table table.length)
    (best : Best pattern (table.length + 1) (pattern.take (table.length + 1)) next) :
    Right pattern (table ++ [next]) (table ++ [next]).length := by
  intro i less
  rw [length_append, length_singleton] at less
  by_cases last : i = table.length
  · subst last
    rw [getD_eq_getElem?_getD, getElem?_append_right (Nat.le_refl _), Nat.sub_self]
    exact best
  · rw [getD_eq_getElem?_getD, getElem?_append_left (by omega), ← getD_eq_getElem?_getD]
    exact right i (by omega)

variable [DecidableEq β]

/-- Falling back stops at the longest border that the symbol extends, or at none. -/
theorem fall_spec {pattern seen : List β} {table : List Nat} {c : β} {k fuel : Nat} (right : Right pattern table (k - 1))
    (whole : k - 1 < pattern.length) (last : 0 < k → Best pattern k (pattern.take k) (table.getD (k - 1) 0))
    (enough : k ≤ fuel) (fits : pattern.take k <:+ seen) :
    fall table pattern c fuel k ≤ k ∧ pattern.take (fall table pattern c fuel k) <:+ seen ∧
      (fall table pattern c fuel k = 0 ∨ pattern[fall table pattern c fuel k]? = some c) ∧
      ∀ j ≤ k, pattern.take j <:+ seen → pattern[j]? = some c → j ≤ fall table pattern c fuel k := by
  induction fuel generalizing k with
  | zero =>
    have zero : k = 0 := by omega
    subst zero
    exact ⟨Nat.le_refl 0, fits, .inl rfl, fun j le _ _ => le⟩
  | succ fuel ih =>
    rw [fall]
    split
    · rename_i mismatch
      have border := last mismatch.1
      have lower := border.within
      have shorter : pattern.take (table.getD (k - 1) 0) <:+ seen := border.fits.trans fits
      have rightLower : Right pattern table (table.getD (k - 1) 0 - 1) := fun i less => right i (by omega)
      have lastLower : 0 < table.getD (k - 1) 0 →
          Best pattern (table.getD (k - 1) 0) (pattern.take (table.getD (k - 1) 0)) (table.getD (table.getD (k - 1) 0 - 1) 0) := by
        intro positive
        have entry := right (table.getD (k - 1) 0 - 1) (by omega)
        rw [Nat.sub_add_cancel positive] at entry
        exact entry
      obtain ⟨le, still, ends, most⟩ := ih rightLower (by omega) lastLower (by omega) shorter
      refine ⟨by omega, still, ends, ?_⟩
      intro j upTo suffix extends_
      have differs : j ≠ k := fun same => mismatch.2 (same ▸ extends_)
      exact most j (border.greatest (by omega) (take_suffix_take upTo suffix fits)) suffix extends_
    · rename_i stops
      refine ⟨Nat.le_refl k, fits, ?_, fun j le _ _ => le⟩
      by_cases zero : k = 0
      · exact .inl zero
      · refine .inr ?_
        by_contra other
        exact stops ⟨by omega, other⟩

/-- One step: the longest border below the bound becomes the longest border below the next bound. -/
theorem advance_best {pattern seen : List β} {table : List Nat} {c : β} {bound k : Nat} (right : Right pattern table (bound - 1))
    (inside : bound ≤ pattern.length) (best : Best pattern bound seen k) :
    Best pattern (bound + 1) (seen ++ [c]) (advance table pattern c k) := by
  have lower := best.within
  have last : 0 < k → Best pattern k (pattern.take k) (table.getD (k - 1) 0) := by
    intro positive
    have entry := right (k - 1) (by omega)
    rw [Nat.sub_add_cancel positive] at entry
    exact entry
  obtain ⟨le, fits, ends, most⟩ := @fall_spec _ _ pattern seen table c k k (fun i less => right i (by omega)) (by omega) last
    (Nat.le_refl k) best.fits
  unfold advance
  generalize fall table pattern c k k = kept at *
  dsimp only
  -- A border of the longer text is a border of the shorter one with the symbol behind it.
  have extending : ∀ {j : Nat}, j < bound + 1 → pattern.take j <:+ seen ++ [c] → j = 0 ∨
      (j - 1 ≤ kept ∧ pattern[j - 1]? = some c) := by
    intro j less suffix
    cases j with
    | zero => exact .inl rfl
    | succ i =>
      obtain ⟨before, here⟩ := (take_succ_suffix (by omega)).mp suffix
      exact .inr ⟨most i (best.greatest (by omega) before) before here, here⟩
  split
  · rename_i here
    refine ⟨by omega, (take_succ_suffix (by omega)).mpr ⟨fits, here⟩, ?_⟩
    intro j less suffix
    rcases extending less suffix with zero | ⟨upTo, -⟩
    · omega
    · omega
  · rename_i elsewhere
    have none : kept = 0 := ends.resolve_right elsewhere
    subst none
    refine ⟨by omega, nil_suffix, ?_⟩
    intro j less suffix
    rcases extending less suffix with zero | ⟨upTo, here⟩
    · omega
    · rw [Nat.le_zero.mp upTo] at here
      exact absurd here elsewhere

variable {matched : Nat}

theorem prefixFrom_right {rest : List β} {table : List Nat}
    (whole : pattern = pattern.take table.length ++ rest) (nonempty : 0 < table.length)
    (size : table.length + rest.length = pattern.length) (right : Right pattern table table.length)
    (best : Best pattern table.length (pattern.take table.length) matched) :
    Right pattern (prefixFrom pattern table matched rest) pattern.length := by
  induction rest generalizing table matched with
  | nil =>
    rw [← size]
    exact right
  | cons c rest ih =>
    have here : pattern.take (table.length + 1) = pattern.take table.length ++ [c] := by
      conv => lhs; rw [whole]
      rw [take_append, length_take, Nat.min_eq_left (by omega), take_take, Nat.min_eq_right (by omega),
        show table.length + 1 - table.length = 1 by omega]
      rfl
    rw [length_cons] at size
    have next : Best pattern (table.length + 1) (pattern.take (table.length + 1)) (advance table pattern c matched) := by
      rw [here]
      exact advance_best (fun i less => right i (by omega)) (by omega) best
    have longer : (table ++ [advance table pattern c matched]).length = table.length + 1 := by simp
    refine ih ?_ (by omega) (by omega) (right.push next) ?_
    · rw [longer, here, append_assoc]
      exact whole
    · rw [longer]
      exact next

theorem prefixTable_right (pattern : List β) : Right pattern (prefixTable pattern) pattern.length := by
  rcases pattern with _ | ⟨first, rest⟩
  · intro i less
    cases less
  refine prefixFrom_right rfl Nat.one_pos (by simp; omega) ?_ ?_
  · intro i less
    rw [length_singleton] at less
    have zero : i = 0 := by omega
    subst zero
    exact ⟨Nat.one_pos, nil_suffix, fun less _ => by omega⟩
  · exact ⟨Nat.one_pos, nil_suffix, fun less _ => by rw [length_singleton] at less; omega⟩

/-- After a symbol: whether the whole pattern is matched, and how much of it remains matched for what follows. -/
def feed (pattern : List β) (matched : Nat) (c : β) : Bool × Nat :=
  let next := advance (prefixTable pattern) pattern c matched
  if next = pattern.length then (true, (prefixTable pattern).getD (next - 1) 0) else (false, next)

/-- The matcher tells exactly when the text ends with the pattern, and stays in step with the text. -/
theorem feed_spec (nonempty : pattern ≠ []) (best : Best pattern pattern.length seen matched)
    (c : β) : ((feed pattern matched c).1 = true ↔ pattern <:+ seen ++ [c]) ∧
      Best pattern pattern.length (seen ++ [c]) (feed pattern matched c).2 := by
  have positive : 0 < pattern.length := length_pos_iff.mpr nonempty
  have right := prefixTable_right pattern
  have next := @advance_best _ _ pattern seen _ c _ _ (fun i less => right i (by omega)) (Nat.le_refl _) best
  unfold feed
  dsimp only
  generalize advance (prefixTable pattern) pattern c matched = reached at *
  split
  · rename_i complete
    subst complete
    have ended : pattern <:+ seen ++ [c] := by
      have fits := next.fits
      rw [take_length] at fits
      exact fits
    have border := right (pattern.length - 1) (by omega)
    rw [Nat.sub_add_cancel positive, take_length] at border
    refine ⟨⟨fun _ => ended, fun _ => rfl⟩, border.within, border.fits.trans ended, ?_⟩
    intro j less suffix
    refine border.greatest less (suffix_of_suffix_length_le suffix ended ?_)
    rw [length_take]
    omega
  · rename_i partly
    have below : reached < pattern.length := by
      have within := next.within
      omega
    refine ⟨⟨nofun, fun ended => ?_⟩, below, next.fits, fun less suffix => next.greatest (by omega) suffix⟩
    refine absurd (@Best.greatest _ _ _ _ _ next pattern.length (by omega) ?_) (by omega)
    rw [take_length]
    exact ended

end FerroLoop.Kmp

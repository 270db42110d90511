import FerroLoop.Lib.Text

/-!
The first occurrence of a word in a text, and that `splitAtFirst` finds it.
-/

namespace FerroLoop.Text

open List

/-- The word stands in the text after `before`, and nowhere earlier. -/
structure First (sep text before after : List Char) : Prop where
  whole : text = before ++ (sep ++ after)
  leftmost : ∀ {front back : List Char}, text = front ++ (sep ++ back) → before.length ≤ front.length

variable {text sep before after : List Char}

theorem splitAtFirst_eq_none : splitAtFirst sep text = none ↔ ¬sep <:+: text := by
  induction text with
  | nil =>
    rw [splitAtFirst, infix_nil]
    split
    · rename_i empty
      simp [empty]
    · rename_i nonempty
      simp [nonempty]
  | cons c rest ih =>
    rw [splitAtFirst, infix_cons_iff]
    split
    · rename_i starts
      simp [ isPrefixOf_iff_prefix.mp starts]
    rename_i elsewhere
    have notHere : ¬sep <+: c :: rest := fun starts => elsewhere ( isPrefixOf_iff_prefix.mpr starts)
    rw [Option.map_eq_none_iff, ih]
    simp [notHere]

theorem First.cons {sep text before after : List Char} {c : Char} (found : First sep text before after)
    (elsewhere : ¬sep <+: c :: text) : First sep (c :: text) (c :: before) after := by
  refine ⟨by rw [found.whole]; rfl, ?_⟩
  intro front back split
  cases front with
  | nil =>
    refine absurd ?_ elsewhere
    rw [split]
    exact ⟨back, rfl⟩
  | cons d front =>
    obtain ⟨-, later⟩ := List.cons.inj split
    have bound := found.leftmost later
    simp only [length_cons]
    omega

theorem splitAtFirst_first (found : splitAtFirst sep text = some (before, after)) :
    First sep text before after := by
  induction text generalizing before with
  | nil =>
    rw [splitAtFirst] at found
    split at found
    · rename_i empty
      obtain ⟨rfl, rfl⟩ := Prod.mk.inj (Option.some.inj found)
      subst empty
      exact ⟨rfl, fun _ => Nat.zero_le _⟩
    · cases found
  | cons c rest ih =>
    rw [splitAtFirst] at found
    split at found
    · rename_i starts
      obtain ⟨rfl, rfl⟩ := Prod.mk.inj (Option.some.inj found)
      obtain ⟨more, whole⟩ := isPrefixOf_iff_prefix.mp starts
      refine ⟨?_, fun _ => Nat.zero_le _⟩
      rw [← whole, drop_left]
      rfl
    · rename_i elsewhere
      obtain ⟨⟨front, back⟩, later, same⟩ := Option.map_eq_some_iff.mp found
      obtain ⟨rfl, rfl⟩ := Prod.mk.inj same
      exact (ih later).cons fun starts => elsewhere ( isPrefixOf_iff_prefix.mpr starts)

theorem First.unique {before' after' : List Char} (one : First sep text before after)
    (other : First sep text before' after') : before = before' ∧ after = after' := by
  have lengths : before.length = before'.length := Nat.le_antisymm (one.leftmost other.whole) (other.leftmost one.whole)
  obtain ⟨same, rest⟩ := append_inj (one.whole.symm.trans other.whole) lengths
  exact ⟨same, append_cancel_left rest⟩

theorem splitAtFirst_eq_some :
    splitAtFirst sep text = some (before, after) ↔ First sep text before after := by
  refine ⟨splitAtFirst_first, fun found => ?_⟩
  rcases split : splitAtFirst sep text with _ | parts
  · refine absurd ⟨before, after, ?_⟩ (splitAtFirst_eq_none.mp split)
    rw [found.whole, append_assoc]
  obtain ⟨rfl, rfl⟩ := found.unique (splitAtFirst_first split)
  rfl

/-- What follows the first occurrence has no part in where it stands. -/
theorem First.swap (found : First sep text before after) (other : List Char) :
    First sep (before ++ (sep ++ other)) before other := by
  refine ⟨rfl, ?_⟩
  intro front back split
  by_contra earlier
  have fits : front ++ sep <+: before ++ sep := by
    have here : front ++ sep <+: before ++ (sep ++ other) := ⟨back, by rw [append_assoc]; exact split.symm⟩
    have there : before ++ sep <+: before ++ (sep ++ other) := ⟨other, append_assoc ..⟩
    refine prefix_of_prefix_length_le here there ?_
    simp only [length_append]
    omega
  obtain ⟨more, whole⟩ := fits
  refine earlier (@First.leftmost _ _ _ _ found front (more ++ after) ?_)
  rw [found.whole, ← append_assoc, ← whole, append_assoc, append_assoc]

theorem dropWhile_stop {α : Type} {p : α → Bool} {c : α} (stops : p c = false) (xs ys : List α) :
    (xs ++ c :: ys).dropWhile p = xs.dropWhile p ++ c :: ys := by
  induction xs with
  | nil => simp [stops]
  | cons x xs ih =>
    rw [cons_append, dropWhile_cons, dropWhile_cons, ih]
    split
    · rfl
    · rfl

theorem takeWhile_stop {α : Type} {p : α → Bool} {c : α} (stops : p c = false) (xs ys : List α) :
    (xs ++ c :: ys).takeWhile p = xs.takeWhile p := by
  induction xs with
  | nil => simp [stops]
  | cons x xs ih =>
    rw [cons_append, takeWhile_cons, takeWhile_cons, ih]

end FerroLoop.Text

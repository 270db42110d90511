import Mathlib.Data.List.Perm.Subperm
import Mathlib.Data.List.Nodup

/-!
Sorted lists: the first elements of a merge need only the first elements of a sorted part.
-/

namespace FerroLoop.Sorted

open List

variable {α : Type}

/-- Two members of a pairwise related list are related one way or the other. -/
theorem trichotomy {related : α → α → Prop} {all : List α} (pairwise : all.Pairwise related) {a b : α} (first : a ∈ all)
    (second : b ∈ all) : a = b ∨ related a b ∨ related b a := by
  have forth : all.Pairwise fun a b => a = b ∨ related a b ∨ related b a := pairwise.imp fun one => .inr (.inl one)
  have back : all.Pairwise (flip fun a b => a = b ∨ related a b ∨ related b a) := pairwise.imp fun one => .inr (.inr one)
  exact List.Pairwise.forall_of_forall_of_flip (fun _ _ => .inl rfl) forth back first second

/-- Dropping elements that have enough kept ones before them changes nothing among the first. -/
theorem take_filter {keep : α → Bool} {n : Nat} {all : List α}
    (late : ∀ front a back, all = front ++ a :: back → keep a = false → n ≤ (front.filter keep).length) :
    (all.filter keep).take n = all.take n := by
  induction all generalizing n with
  | nil => rfl
  | cons a rest ih =>
    cases n with
    | zero => rfl
    | succ n =>
      rcases kept : keep a with _ | _
      · have none := late [] a rest rfl kept
        exact absurd none (Nat.not_succ_le_zero n)
      rw [filter_cons_of_pos kept, take_succ_cons, take_succ_cons]
      congr 1
      apply ih
      intro front b back split dropped
      have more := late (a :: front) b back (by rw [split]; rfl) dropped
      rw [filter_cons_of_pos kept, length_cons] at more
      exact Nat.le_of_succ_le_succ more

section Merge

variable {le : α → α → Bool}

/-- The order is strict on a list. -/
def Strict (le : α → α → Bool) (all : List α) : Prop := all.Pairwise fun a b => le a b = true ∧ le b a = false

variable {all part : List α}

theorem Strict.nodup (strict : Strict le all) : all.Nodup := by
  refine strict.imp ?_
  rintro a b ⟨forth, back⟩ same
  rw [same] at forth back
  rw [forth] at back
  cases back

/-- A strictly sorted list is the only sorted one of its members. -/
theorem eq_of_perm (strict : Strict le all) (sorted : part.Pairwise fun a b => le a b = true)
    (perm : part.Perm all) : part = all := by
  refine List.Perm.eq_of_pairwise ?_ sorted (strict.imp fun both => both.1) perm
  intro a b member second forth back
  rcases trichotomy strict (perm.subset member) second with same | ⟨_, no⟩ | ⟨_, no⟩
  · exact same
  · rw [back] at no
    cases no
  · rw [forth] at no
    cases no

section

variable (trans : ∀ a b c, le a b = true → le b c = true → le a c = true) (total : ∀ a b, (le a b || le b a) = true) (strict : Strict le all)

include trans total strict

theorem mergeSort_eq (perm : part.Perm all) : part.mergeSort le = all :=
  eq_of_perm strict (pairwise_mergeSort trans total part) ((mergeSort_perm part le).trans perm)

/-- The first `n` of a sorted list, read from the first `n` of a sorted part and all of the rest. -/
theorem take_merged {rest : List α}
    (sorted : part.Pairwise fun a b => le a b = true) (perm : (part ++ rest).Perm all) (n : Nat) :
    ((part.take n ++ rest).mergeSort le).take n = all.take n := by
  classical
  have nodup : (part ++ rest).Nodup := perm.nodup_iff.mpr strict.nodup
  have split : part.take n ++ part.drop n = part := take_append_drop n part
  have kept : (all.filter fun a => a ∈ part.take n ++ rest).Perm (part.take n ++ rest) := by
    rw [perm_ext_iff_of_nodup (strict.nodup.filter _) ?_]
    · intro a
      rw [mem_filter, decide_eq_true_eq, and_iff_right_iff_imp]
      intro member
      apply perm.subset
      rcases mem_append.mp member with early | other
      · exact mem_append_left _ (mem_of_mem_take early)
      · exact mem_append_right _ other
    · exact nodup.sublist ((take_sublist n part).append_right rest)
  have merged : (part.take n ++ rest).mergeSort le = all.filter fun a => a ∈ part.take n ++ rest :=
    mergeSort_eq trans total (List.Pairwise.filter _ strict) kept.symm
  rw [merged]
  apply take_filter
  intro front a back whole dropped
  have outside : a ∉ part.take n ++ rest := of_decide_eq_false dropped
  have inside : a ∈ part ++ rest := by
    apply perm.symm.subset
    rw [whole]
    exact mem_append_right _ mem_cons_self
  have late : a ∈ part.drop n := by
    rcases mem_append.mp inside with here | other
    · rw [← split] at here
      rcases mem_append.mp here with early | late
      · exact absurd (mem_append_left _ early) outside
      · exact late
    · exact absurd (mem_append_right _ other) outside
  -- Each of the first `n` of the part stands before `a` in the whole list.
  have before : ∀ x ∈ part.take n, x ∈ front := by
    intro x early
    have order : le x a = true := by
      rw [← split] at sorted
      exact (pairwise_append.mp sorted).2.2 x early a late
    have member : x ∈ all := perm.subset (mem_append_left _ (mem_of_mem_take early))
    rw [whole] at member
    rcases mem_append.mp member with there | here
    · exact there
    rcases mem_cons.mp here with same | after
    · subst same
      exact absurd (mem_append_left _ early) outside
    rw [Strict, whole] at strict
    have turned := (pairwise_cons.mp (pairwise_append.mp strict).2.1).1 x after
    rw [order] at turned
    cases turned.2
  have full : (part.take n).length = n := by
    have enough : n < part.length := by
      have some := length_pos_of_mem late
      rw [length_drop] at some
      omega
    rw [length_take]
    omega
  have fits : (part.take n).Subperm (front.filter fun a => a ∈ part.take n ++ rest) := by
    apply subperm_of_subset
    · exact (nodup_append.mp nodup).1.sublist (take_sublist n part)
    · intro x early
      exact mem_filter.mpr ⟨before x early, decide_eq_true (mem_append_left _ early)⟩
  exact Nat.le_trans (Nat.le_of_eq full.symm) fits.length_le

end

end Merge

end FerroLoop.Sorted

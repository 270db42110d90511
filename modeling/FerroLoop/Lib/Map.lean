import Std.Data.ExtTreeMap
import Mathlib.Algebra.Ring.Nat

/-!
Ordered maps as functions of their keys: lookups after an update in terms of equality of keys,
and what a loop over the entries of a map does to something observed key by key.
-/

namespace FerroLoop.Map

open Std List ExtTreeMap

variable {κ ν : Type}

section Lookup

variable [Ord κ] [TransOrd κ] [LawfulEqOrd κ]

variable (m : ExtTreeMap κ ν compare)

theorem getElem?_insert [DecidableEq κ] (k a : κ) (v : ν) :
    (m.insert k v)[a]? = if k = a then some v else m[a]? := by
  simp only [ExtTreeMap.getElem?_insert, LawfulEqCmp.compare_eq_iff_eq]

theorem insert_cases {m : ExtTreeMap κ ν compare} {k a : κ} {v w : ν} (held : (m.insert k v)[a]? = some w) :
    k = a ∧ v = w ∨ k ≠ a ∧ m[a]? = some w := by
  classical
  rw [getElem?_insert] at held
  split at held
  · exact .inl ⟨‹_›, Option.some.inj held⟩
  · exact .inr ⟨‹_›, held⟩

theorem getElem?_erase [DecidableEq κ] (k a : κ) :
    (m.erase k)[a]? = if k = a then none else m[a]? := by
  simp only [ExtTreeMap.getElem?_erase, LawfulEqCmp.compare_eq_iff_eq]

/-- A map that is not empty holds some entry. -/
theorem exists_getElem? {m : ExtTreeMap κ ν compare} (filled : m ≠ ∅) : ∃ (k : κ) (v : ν), m[k]? = some v := by
  apply Classical.byContradiction
  intro absent
  apply filled
  apply ExtTreeMap.ext_getElem?
  intro k
  rw [getElem?_empty]
  cases held : m[k]? with
  | none => rfl
  | some v => exact absurd ⟨k, v, held⟩ absent

omit [LawfulEqOrd κ] in
theorem toList_distinct : m.toList.Pairwise fun a b => a.1 ≠ b.1 := by
  have sorted := m.distinct_keys_toList
  refine sorted.imp ?_
  intro a b apart same
  apply apart
  rw [same]
  exact compare_self

end Lookup

section Count

variable [Ord κ] [TransOrd κ] [LawfulEqOrd κ] (p : κ → ν → Bool)

omit [LawfulEqOrd κ] in
/-- How many entries meet a condition. -/
def count (m : ExtTreeMap κ ν compare) : Nat := (m.filter p).size

variable (m : ExtTreeMap κ ν compare) (k : κ)

theorem getElem?_filter (a : κ) : (m.filter p)[a]? = (m[a]?).filter (p a) :=
  getElem?_filter'

theorem contains_filter (a : κ) : (m.filter p).contains a = (m[a]?).any (p a) := by
  rw [contains_eq_isSome_getElem?, getElem?_filter]
  cases m[a]? with
  | none => rfl
  | some v => cases met : p a v <;> simp [Option.filter, met]

theorem count_pos {m : ExtTreeMap κ ν compare} {k : κ} (counted : (m[k]?).any (p k) = true) : 0 < count p m := by
  apply Nat.pos_of_ne_zero
  intro empty
  have within := contains_filter p m k
  rw [eq_empty_iff_size_eq_zero.mpr empty, counted] at within
  exact absurd within (by simp)

variable [DecidableEq κ]

theorem filter_erase : (m.erase k).filter p = (m.filter p).erase k := by
  apply ExtTreeMap.ext_getElem?
  intro a
  rw [getElem?_filter, getElem?_erase, getElem?_erase, getElem?_filter]
  split <;> rfl

theorem filter_insert (v : ν) :
    (m.insert k v).filter p = if p k v then (m.filter p).insert k v else (m.filter p).erase k := by
  apply ExtTreeMap.ext_getElem?
  intro a
  rw [getElem?_filter, getElem?_insert]
  by_cases met : p k v = true
  · rw [if_pos met, getElem?_insert, getElem?_filter]
    by_cases same : k = a
    · subst same
      rw [if_pos rfl, if_pos rfl, Option.filter_some, if_pos met]
    · rw [if_neg same, if_neg same]
  · rw [if_neg met, getElem?_erase, getElem?_filter]
    by_cases same : k = a
    · subst same
      rw [if_pos rfl, if_pos rfl, Option.filter_some, if_neg met]
    · rw [if_neg same, if_neg same]

theorem count_erase :
    count p (m.erase k) + ((m[k]?).any (p k)).toNat = count p m := by
  rw [count, filter_erase, size_erase, contains_filter, count]
  cases counted : (m[k]?).any (p k) with
  | true =>
    have filled := count_pos p counted
    rw [count] at filled
    simp only [if_true, Bool.toNat_true]
    omega
  | false => simp

theorem count_insert (v : ν) :
    count p (m.insert k v) + ((m[k]?).any (p k)).toNat = count p m + (p k v).toNat := by
  rw [count, filter_insert, count]
  cases counted : (m[k]?).any (p k) with
  | true =>
    have filled := count_pos p counted
    rw [count] at filled
    cases met : p k v with
    | true => simp [size_insert, contains_filter, counted]
    | false =>
      simp only [Bool.false_eq_true, if_false, size_erase, contains_filter, counted, if_true, Bool.toNat_true,
        Bool.toNat_false]
      omega
  | false =>
    cases met : p k v with
    | true => simp [size_insert, contains_filter, counted]
    | false => simp [size_erase, contains_filter, counted]

end Count

section Sum

variable [Ord κ] [TransOrd κ] [LawfulEqOrd κ] (f : κ → ν → Nat)

omit [LawfulEqOrd κ] in
/-- What the entries weigh together. -/
def sum (m : ExtTreeMap κ ν compare) : Nat := (m.toList.map fun entry => f entry.1 entry.2).sum

omit [LawfulEqOrd κ] in
theorem toList_nodup (m : ExtTreeMap κ ν compare) : m.toList.Nodup :=
  (toList_distinct m).imp fun apart same => apart (congrArg Prod.fst same)

variable [DecidableEq κ]

variable {m : ExtTreeMap κ ν compare} {k : κ}

theorem toList_insert_new (absent : m[k]? = none) (v : ν) :
    (m.insert k v).toList.Perm ((k, v) :: m.toList) := by
  have apart : (k, v) ∉ m.toList := by
    intro member
    rw [mem_toList_iff_getElem?_eq_some, absent] at member
    cases member
  refine (perm_ext_iff_of_nodup (toList_nodup _) (nodup_cons.mpr ⟨apart, toList_nodup m⟩)).mpr ?_
  rintro ⟨a, b⟩
  rw [mem_cons, mem_toList_iff_getElem?_eq_some, mem_toList_iff_getElem?_eq_some,
    getElem?_insert]
  by_cases same : k = a
  · subst same
    simp [absent, eq_comm]
  · simp [same, Ne.symm same]

/-- The entries of a map apart from one key, with the key's new value in front. -/
theorem toList_insert (m : ExtTreeMap κ ν compare) (k : κ) (v : ν) :
    (m.insert k v).toList.Perm ((k, v) :: (m.erase k).toList) := by
  have rebuilt : m.insert k v = (m.erase k).insert k v := by
    apply ExtTreeMap.ext_getElem?
    intro a
    simp only [getElem?_insert, getElem?_erase]
    split <;> rfl
  rw [rebuilt]
  exact toList_insert_new (by rw [getElem?_erase, if_pos rfl]) v

theorem toList_held {v : ν} (held : m[k]? = some v) :
    m.toList.Perm ((k, v) :: (m.erase k).toList) := by
  have itself : m.insert k v = m := by
    apply ExtTreeMap.ext_getElem?
    intro a
    rw [getElem?_insert]
    split
    · rename_i same
      rw [← same, held]
    · rfl
  have perm := toList_insert m k v
  rw [itself] at perm
  exact perm

theorem erase_absent (absent : m[k]? = none) : m.erase k = m := by
  apply ExtTreeMap.ext_getElem?
  intro a
  rw [getElem?_erase]
  split
  · rename_i same
    rw [← same, absent]
  · rfl

theorem sum_insert_new (absent : m[k]? = none) (v : ν) :
    sum f (m.insert k v) = f k v + sum f m := by
  unfold sum
  rw [((toList_insert_new absent v).map _).sum_nat, map_cons, sum_cons]

/-- An entry written over another adds its own weight and takes the other's away. -/
theorem sum_insert {old : ν} (held : m[k]? = some old) (v : ν) :
    sum f (m.insert k v) + f k old = sum f m + f k v := by
  unfold sum
  rw [((toList_insert m k v).map _).sum_nat, ((toList_held held).map _).sum_nat, map_cons, sum_cons, map_cons,
    sum_cons]
  dsimp only
  omega

end Sum

section Loop

variable [DecidableEq κ] {σ ω β : Type} (observe : σ → κ → ω) (write : σ → κ × β → σ) (update : β → ω → ω)

section

variable (each : ∀ s entry k, observe (write s entry) k = if entry.1 = k then update entry.2 (observe s k) else observe s k)

include each

/-- A loop that changes one key a turn leaves every key it does not name. -/
theorem foldl_other
    {entries : List (κ × β)} {k : κ} (absent : ∀ b, (k, b) ∉ entries) (s : σ) :
    observe (entries.foldl write s) k = observe s k := by
  induction entries generalizing s with
  | nil => rfl
  | cons entry rest ih =>
    have other : entry.1 ≠ k := by
      intro same
      apply absent entry.2
      rw [← same]
      exact mem_cons_self
    rw [foldl_cons, ih (fun b member => absent b (mem_cons_of_mem _ member)), each, if_neg other]

/-- A loop over distinct keys changes each of them once. -/
theorem foldl_named
    {entries : List (κ × β)} (distinct : entries.Pairwise fun a b => a.1 ≠ b.1) {k : κ} {b : β}
    (named : (k, b) ∈ entries) (s : σ) :
    observe (entries.foldl write s) k = update b (observe s k) := by
  induction entries generalizing s with
  | nil => cases named
  | cons entry rest ih =>
    obtain ⟨apart, others⟩ := pairwise_cons.mp distinct
    rw [foldl_cons]
    rcases mem_cons.mp named with first | later
    · subst first
      have absent : ∀ c, (k, c) ∉ rest := fun c member => apart (k, c) member rfl
      rw [foldl_other observe write update each absent, each, if_pos rfl]
    · have other : entry.1 ≠ k := apart (k, b) later
      rw [ih others later, each, if_neg other]

/-- A loop over the entries of a map changes every key the map holds, and no other. -/
theorem foldl_toList
    [Ord κ] [TransOrd κ] [LawfulEqOrd κ] (m : ExtTreeMap κ β compare) (s : σ) (k : κ) :
    observe (m.toList.foldl write s) k =
      (m[k]?).elim (observe s k) fun b => update b (observe s k) := by
  cases held : m[k]? with
  | some b =>
    exact foldl_named observe write update each (toList_distinct m)
      (mem_toList_iff_getElem?_eq_some.mpr held) s
  | none =>
    apply foldl_other observe write update each
    intro b member
    rw [mem_toList_iff_getElem?_eq_some.mp member] at held
    cases held

end

/-- The entries of a map, put one by one into an empty one, make the map. -/
theorem foldl_insert_toList [Ord κ] [TransOrd κ] [LawfulEqOrd κ] (m : ExtTreeMap κ β compare) :
    m.toList.foldl (fun built entry => built.insert entry.1 entry.2) (∅ : ExtTreeMap κ β compare) = m := by
  apply ExtTreeMap.ext_getElem?
  intro k
  rw [foldl_toList (fun (built : ExtTreeMap κ β compare) k => built[k]?) (fun built entry => built.insert entry.1 entry.2)
    (fun b _ => some b) (fun built entry k => getElem?_insert built entry.1 k entry.2) m ∅ k, getElem?_empty]
  cases m[k]? <;> rfl

/-- The map with an entry, where there is one to write. -/
def insertEntry [Ord κ] [TransOrd κ] (m : ExtTreeMap κ β compare) : Option (κ × β) → ExtTreeMap κ β compare
  | some (key, value) => m.insert key value
  | none => m

/-- A loop that writes at most one entry a turn leaves under a key what the last turn for the key wrote. -/
theorem foldl_insertEntry [Ord κ] [TransOrd κ] [LawfulEqOrd κ] {α : Type} (entry : α → Option (κ × β)) (items : List α)
    (m : ExtTreeMap κ β compare) (k : κ) (v : β) :
    (items.foldl (fun built item => insertEntry built (entry item)) m)[k]? = some v ↔
      (∃ before item after, items = before ++ item :: after ∧ entry item = some (k, v) ∧
          ∀ other ∈ after, ∀ w, entry other ≠ some (k, w)) ∨
        (m[k]? = some v ∧ ∀ other ∈ items, ∀ w, entry other ≠ some (k, w)) := by
  induction items generalizing m with
  | nil => simp
  | cons item rest ih =>
    rw [foldl_cons, ih]
    constructor
    · rintro (⟨before, last, after, split, written, later⟩ | ⟨held, later⟩)
      · exact .inl ⟨item :: before, last, after, congrArg (List.cons item) split, written, later⟩
      cases wrote : entry item with
      | none =>
        rw [wrote] at held
        refine .inr ⟨held, ?_⟩
        intro other member
        rcases mem_cons.mp member with rfl | further
        · simp [wrote]
        · exact later other further
      | some pair =>
        obtain ⟨key, value⟩ := pair
        rw [wrote] at held
        dsimp only [insertEntry] at held
        rw [getElem?_insert] at held
        split at held
        · rename_i same
          subst same
          cases held
          exact .inl ⟨[], item, rest, rfl, wrote, later⟩
        rename_i apart
        refine .inr ⟨held, ?_⟩
        intro other member
        rcases mem_cons.mp member with rfl | further
        · intro w both
          rw [wrote] at both
          cases both
          exact apart rfl
        · exact later other further
    · rintro (⟨before, last, after, split, written, later⟩ | ⟨held, none⟩)
      · cases before with
        | nil =>
          obtain ⟨rfl, rfl⟩ := List.cons.inj split
          refine .inr ⟨?_, later⟩
          rw [written]
          dsimp only [insertEntry]
          rw [getElem?_insert, if_pos rfl]
        | cons first front =>
          obtain ⟨rfl, onward⟩ := List.cons.inj split
          exact .inl ⟨front, last, after, onward, written, later⟩
      · refine .inr ⟨?_, fun other member => none other (mem_cons_of_mem _ member)⟩
        rcases wrote : entry item with _ | pair
        · exact held
        obtain ⟨key, value⟩ := pair
        have apart : key ≠ k := by
          intro same
          subst same
          exact none item mem_cons_self value wrote
        dsimp only [insertEntry]
        rw [getElem?_insert, if_neg apart]
        exact held

end Loop

end FerroLoop.Map

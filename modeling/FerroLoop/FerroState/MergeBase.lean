import FerroLoop.FerroState.Heads

namespace FerroLoop.FerroState

open List Worklist

section Base

variable (revs : List StateRevision) (a b : Iri)

def Common (id : Iri) : Prop := Ancestor revs id a ∧ Ancestor revs id b

/-- A common ancestor that no other one descends from. -/
def Lowest (id : Iri) : Prop := Common revs a b id ∧ ∀ other, Common revs a b other → Ancestor revs id other → other = id

/-- What a merge base is to be: there is one when the two have a common ancestor, it is a lowest one, and an append merge over it
adds to the local list nothing that the latest shared revisions held. -/
structure MergeBase : Prop where
  found : (lowestCommonAncestorInDag a b revs).isSome = true ↔ ∃ id, Common revs a b id
  lowest : ∀ id, lowestCommonAncestorInDag a b revs = some id → Lowest revs a b id
  kept : ∀ id, lowestCommonAncestorInDag a b revs = some id → ∀ (held : Iri → List String) (ours remote : List String),
    ∀ item ∈ computeAppendMerge (held id) ours remote,
      item ∈ ours ∨ item ∈ remote ∧ ∃ latest, Lowest revs a b latest ∧ item ∉ held latest

/-- The revisions that the parent paths of one length from `a` end in, in the order of the parents. -/
def pathEnds (n : Nat) : List Iri := generation (parentsIn revs) a n

/-- Whatever parent path leads from `a` to a common ancestor that another one descends from, to some common ancestor there
leads a shorter one, or one as long that takes an earlier parent. -/
def ReachedLater : Prop :=
  ∀ id n before after, pathEnds revs a n = before ++ id :: after → Common revs a b id → ¬ Lowest revs a b id →
    ∃ nearer, Common revs a b nearer ∧ (nearer ∈ before ∨ ∃ m < n, nearer ∈ pathEnds revs a m)

variable {revs a b}

theorem lowestCommonAncestorInDag_iff {id : Iri} :
    lowestCommonAncestorInDag a b revs = some id ↔ Nearest (parentsIn revs) a (Common revs a b) id := by
  have reached : ∀ {other : Iri} {n : Nat}, other ∈ generation (parentsIn revs) a n → Ancestor revs other a :=
    generation_reached
  have found := @find?_search Iri _ (parentsIn revs) _ (parentsIn_subset revs) _ (Nat.le_refl _) a id
    (fun x => decide (x ∈ ancestors revs b))
  refine found.trans ?_
  simp only [decide_eq_true_eq, mem_ancestors]
  constructor
  · rintro ⟨shared, n, before, after, ends, none, shorter⟩
    exact ⟨⟨reached (ends ▸ mem_append_right _ mem_cons_self), shared⟩, n, before, after, ends,
      fun y member both => none y member both.2, fun m below y member both => shorter m below y member both.2⟩
  · rintro ⟨⟨-, shared⟩, n, before, after, ends, none, shorter⟩
    exact ⟨shared, n, before, after, ends,
      fun y member behind => none y member ⟨reached (ends ▸ mem_append_left _ member), behind⟩,
      fun m below y member behind => shorter m below y member ⟨reached member, behind⟩⟩

theorem computeAppendMerge_adds (base ours remote : List String) :
    ∀ item ∈ computeAppendMerge base ours remote, item ∈ ours ∨ item ∈ remote ∧ item ∉ base := by
  unfold computeAppendMerge
  induction remote generalizing ours with
  | nil => exact fun item member => .inl member
  | cons first rest ih =>
    intro item member
    rw [foldl_cons] at member
    rcases ih _ item member with held | ⟨later, free⟩
    · split at held
      · exact .inl held
      rename_i fresh
      rcases mem_append.mp held with old | new
      · exact .inl old
      · rw [mem_singleton.mp new]
        exact .inr ⟨mem_cons_self, fun known => fresh (.inl known)⟩
    · exact .inr ⟨mem_cons_of_mem _ later, free⟩

end Base

/-- A merge base is a lowest common ancestor exactly where no parent path to a higher one comes first. -/
theorem mergeBase_iff (revs : List StateRevision) (a b : Iri) : MergeBase revs a b ↔ ReachedLater revs a b := by
  constructor
  · intro good id n before after ends both high
    apply Classical.byContradiction
    intro none
    have nearest : Nearest (parentsIn revs) a (Common revs a b) id :=
      ⟨both, n, before, after, ends, fun nearer member shared => none ⟨nearer, shared, .inl member⟩,
        fun m below nearer member shared => none ⟨nearer, shared, .inr ⟨m, below, member⟩⟩⟩
    exact high (good.lowest id (lowestCommonAncestorInDag_iff.mpr nearest))
  · intro later
    have lowest : ∀ id, lowestCommonAncestorInDag a b revs = some id → Lowest revs a b id := by
      intro id returned
      obtain ⟨both, n, before, after, ends, none, shorter⟩ := lowestCommonAncestorInDag_iff.mp returned
      apply Classical.byContradiction
      intro high
      obtain ⟨nearer, shared, member | ⟨m, below, member⟩⟩ := later id n before after ends both high
      · exact none nearer member shared
      · exact shorter m below nearer member shared
    refine ⟨?_, lowest, ?_⟩
    · rw [lowestCommonAncestorInDag, find?_isSome]
      exact ⟨fun ⟨id, member, shared⟩ => ⟨id, mem_ancestors.mp member, mem_ancestors.mp (of_decide_eq_true shared)⟩,
        fun ⟨id, left, right⟩ => ⟨id, mem_ancestors.mpr left, decide_eq_true (mem_ancestors.mpr right)⟩⟩
    · intro id returned held ours remote item member
      rcases computeAppendMerge_adds _ _ _ item member with own | ⟨theirs, free⟩
      · exact .inl own
      · exact .inr ⟨theirs, id, lowest id returned, free⟩

/-- Two revisions beside each other meet in their parent. -/
theorem mergeBase_sample :
    MergeBase [noteRevision "r0" [], noteRevision "a1" ["r0"], noteRevision "b1" ["r0"]] "a1" "b1" := by
  refine (mergeBase_iff _ "a1" "b1").mpr ?_
  intro id n before after ends both high
  refine absurd ⟨both, ?_⟩ high
  have only : ∀ other, Common [noteRevision "r0" [], noteRevision "a1" ["r0"], noteRevision "b1" ["r0"]] "a1" "b1" other →
      other = "r0" := by
    rintro other ⟨left, right⟩
    have visited : other ∈ ["a1", "r0"] := mem_ancestors.mpr left
    rcases mem_cons.mp visited with rfl | root
    · exact absurd (mem_ancestors.mpr right) (by decide +kernel)
    · exact mem_singleton.mp root
  intro other shared _
  rw [only other shared, only id both]

/-- `m` merges a revision beside `c1` with one behind it, and `b` follows `c1`. -/
def shortcut : List StateRevision :=
  [noteRevision "r0" [], noteRevision "a1" ["r0"], noteRevision "c1" ["r0"], noteRevision "c2" ["c1"],
    noteRevision "m" ["a1", "c2"], noteRevision "b" ["c1"]]

/-- The base of `m` and `b` is the root, which `m` reaches in two steps, though both descend from `c1`. -/
theorem shortcut_passes_latest : lowestCommonAncestorInDag "m" "b" shortcut = some "r0" ∧ ¬ MergeBase shortcut "m" "b" := by
  have returned : lowestCommonAncestorInDag "m" "b" shortcut = some "r0" := by decide +kernel
  have shared : Common shortcut "m" "b" "c1" :=
    ⟨isAncestorInDag_iff.mp (by decide +kernel), isAncestorInDag_iff.mp (by decide +kernel)⟩
  refine ⟨returned, fun good => ?_⟩
  have same := (good.lowest "r0" returned).2 "c1" shared (isAncestorInDag_iff.mp (by decide +kernel))
  exact absurd same (by decide)

end FerroLoop.FerroState

import FerroLoop.FerroState.Lineage

namespace FerroLoop.FerroState

open Std
open Workflow (MergeMode At)

namespace History

variable {h more : History} {k : Key} {mode : MergeMode}

def parents (h : History) (id : Iri) : List Iri := ((h id).map StateRevision.parentRevisions).getD []

/-- `a` is `b` or was made before it on its way. -/
def Anc (h : History) (a b : Iri) : Prop := Relation.ReflTransGen (Worklist.Leads h.parents) b a

variable {made : StateRevision} {id a b : Iri}

theorem parents_made (found : h id = some made) : h.parents id = made.parentRevisions := by
  unfold parents
  rw [found]
  rfl

theorem Anc.self (a : Iri) : h.Anc a a := .refl

theorem Anc.trans {c : Iri} (first : h.Anc a b) (second : h.Anc b c) : h.Anc a c :=
  Relation.ReflTransGen.trans second first

theorem Anc.of_parent {parent : Iri} (found : h id = some made)
    (listed : parent ∈ made.parentRevisions) : h.Anc parent id := by
  refine .single ?_
  change parent ∈ h.parents id
  rw [parents_made found]
  exact listed

theorem Anc.through (path : h.Anc a id) (found : h id = some made) :
    a = id ∨ ∃ parent ∈ made.parentRevisions, h.Anc a parent := by
  rcases Relation.ReflTransGen.cases_head path with same | ⟨parent, leads, rest⟩
  · exact .inl same.symm
  · change parent ∈ h.parents id at leads
    rw [parents_made found] at leads
    exact .inr ⟨parent, leads, rest⟩

theorem Anc.grow (path : h.Anc a b) (extended : h.Extends more) : more.Anc a b := by
  induction path with
  | refl => exact .refl
  | tail _ leads ih =>
    refine ih.tail ?_
    rename_i c d _
    change d ∈ h.parents c at leads
    cases found : h c with
    | none =>
      unfold parents at leads
      rw [found] at leads
      cases leads
    | some made =>
      rw [parents_made found] at leads
      change d ∈ more.parents c
      rw [parents_made (extended c made found)]
      exact leads

def Automatic (mode : MergeMode) (rev : StateRevision) : Prop :=
  ∃ value, rev.payload = .runtime ⟨value, mode⟩ ∧ (mode = .append → ∃ items, value = .array items)

structure Line (h : History) (k : Key) (mode : MergeMode) : Prop where
  merges : mode ≠ .conflict
  automatic : ∀ id made, h id = some made → made.key = k → Automatic mode made
  parents : ∀ id made, h id = some made → made.key = k → ∀ parent ∈ made.parentRevisions,
    ∃ before, h parent = some before ∧ before.key = k

def On (h : History) (k : Key) (id : Iri) : Prop := ∃ made, h id = some made ∧ made.key = k

theorem On.grow (on : h.On k id) (extended : h.Extends more) : more.On k id := by
  obtain ⟨made, found, key⟩ := on
  exact ⟨made, extended id made found, key⟩

theorem Anc.back (path : more.Anc a b) (line : h.Line k mode) (extended : h.Extends more) (on : h.On k b) :
    h.Anc a b ∧ h.On k a := by
  induction path with
  | refl => exact ⟨.refl, on⟩
  | tail _ leads ih =>
    rename_i c d _
    obtain ⟨behind, made, found, key⟩ := ih
    change d ∈ more.parents c at leads
    rw [parents_made (extended c made found)] at leads
    refine ⟨(Anc.of_parent found leads).trans behind, ?_⟩
    exact line.parents c made found key d leads

def Graft (h : History) (k : Key) (id : Iri) : Prop :=
  ∃ made left right, h id = some made ∧ made.key = k ∧ (∀ parent, parent ∈ made.parentRevisions ↔ parent = left ∨ parent = right) ∧
    ¬ h.Anc left right ∧ ¬ h.Anc right left

theorem Graft.on (graft : h.Graft k id) : h.On k id := by
  obtain ⟨made, _, _, found, key, _⟩ := graft
  exact ⟨made, found, key⟩

theorem Graft.grow (graft : h.Graft k id) (line : h.Line k mode) (extended : h.Extends more) : more.Graft k id := by
  obtain ⟨made, left, right, found, key, parents, notRight, notLeft⟩ := graft
  have both := line.parents id made found key
  refine ⟨made, left, right, extended id made found, key, parents, ?_, ?_⟩
  · intro path
    exact notRight (path.back line extended (both right ((parents right).mpr (.inr rfl)))).1
  · intro path
    exact notLeft (path.back line extended (both left ((parents left).mpr (.inl rfl)))).1

theorem Graft.not_ahead {head : Iri} (graft : h.Graft k id) (apart : id ≠ head)
    (behind : ∀ made, h id = some made → ∀ parent ∈ made.parentRevisions, h.Anc parent head) : ¬ h.Anc head id := by
  intro ahead
  obtain ⟨made, left, right, found, _, parents, notRight, notLeft⟩ := graft
  have leftBehind := behind made found left ((parents left).mpr (.inl rfl))
  have rightBehind := behind made found right ((parents right).mpr (.inr rfl))
  rcases ahead.through found with same | ⟨parent, listed, path⟩
  · exact apart same.symm
  · rcases (parents parent).mp listed with rfl | rfl
    · exact notLeft (rightBehind.trans path)
    · exact notRight (leftBehind.trans path)

variable {rev : StateRevision}

theorem add_on (on : h.On k id) (fresh : h rev.revisionId = none) : (h.add rev).On k id :=
  on.grow (add_extends fresh)

theorem Line.add (line : h.Line k mode) (fresh : h rev.revisionId = none) (automatic : rev.key = k → Automatic mode rev)
    (parents : rev.key = k → ∀ parent ∈ rev.parentRevisions, h.On k parent) : (h.add rev).Line k mode := by
  refine ⟨line.merges, ?_, ?_⟩
  · intro id made found key
    unfold History.add at found
    split at found
    · cases found
      exact automatic key
    · exact line.automatic id made found key
  · intro id made found key parent listed
    unfold History.add at found
    split at found
    · cases found
      exact add_on (parents key parent listed) fresh
    · exact add_on (line.parents id made found key parent listed) fresh

theorem graft_add (line : h.Line k mode) (fresh : h rev.revisionId = none) (key : rev.key = k) {left right : Iri}
    (parents : ∀ parent, parent ∈ rev.parentRevisions ↔ parent = left ∨ parent = right) (leftOn : h.On k left) (rightOn : h.On k right)
    (notRight : ¬ h.Anc left right) (notLeft : ¬ h.Anc right left) : (h.add rev).Graft k rev.revisionId := by
  refine ⟨rev, left, right, add_same h rev, key, parents, ?_, ?_⟩
  · intro path
    exact notRight (path.back line (add_extends fresh) rightOn).1
  · intro path
    exact notLeft (path.back line (add_extends fresh) leftOn).1

end History

variable {a b : StateRevision}

theorem StateRevision.Same.key (same : a.Same b) : a.key = b.key := by
  rw [← same]
  rfl

theorem StateRevision.Same.payload (same : a.Same b) : a.payload = b.payload := by
  rw [← same]

section Graphs

variable {h : History} {revs : List StateRevision}

def Closed (revs : List StateRevision) : Prop :=
  ∀ rev ∈ revs, ∀ parent ∈ rev.parentRevisions, ∃ held ∈ revs, held.revisionId = parent

theorem parentsIn_recorded (recorded : ∀ rev ∈ revs, h.Records rev) {id : Iri} :
    parentsIn revs id ⊆ h.parents id := by
  unfold parentsIn
  cases found : revs.find? fun rev => rev.revisionId = id with
  | none => exact List.nil_subset _
  | some rev =>
    have matched := List.find?_some found
    have named : rev.revisionId = id := of_decide_eq_true matched
    obtain ⟨made, known, same⟩ := recorded rev (List.mem_of_find?_eq_some found)
    rw [named] at known
    rw [History.parents_made known, ← same.parents]
    exact List.Subset.refl _

theorem parentsIn_inside (recorded : ∀ rev ∈ revs, h.Records rev) {id : Iri} (inside : ∃ held ∈ revs, held.revisionId = id) :
    ∃ held ∈ revs, held.revisionId = id ∧ parentsIn revs id = held.parentRevisions ∧ h.parents id = held.parentRevisions := by
  obtain ⟨some_, member, same⟩ := inside
  unfold parentsIn
  cases found : revs.find? fun rev => rev.revisionId = id with
  | none =>
    rw [List.find?_eq_none] at found
    exact absurd (decide_eq_true same) (found some_ member)
  | some rev =>
    have matched := List.find?_some found
    have named : rev.revisionId = id := of_decide_eq_true matched
    have inside := List.mem_of_find?_eq_some found
    obtain ⟨made, known, equal⟩ := recorded rev inside
    rw [named] at known
    exact ⟨rev, inside, named, rfl, (History.parents_made known).trans equal.parents.symm⟩

theorem Ancestor.anc {a b : Iri} (path : Ancestor revs a b) (recorded : ∀ rev ∈ revs, h.Records rev) : h.Anc a b := by
  induction path with
  | refl => exact .refl
  | tail _ leads ih => exact ih.tail (parentsIn_recorded recorded leads)

theorem History.Anc.ancestor {a b : Iri} (path : h.Anc a b) (recorded : ∀ rev ∈ revs, h.Records rev) (closed : Closed revs)
    (inside : ∃ held ∈ revs, held.revisionId = b) : Ancestor revs a b ∧ ∃ held ∈ revs, held.revisionId = a := by
  induction path with
  | refl => exact ⟨.refl, inside⟩
  | tail _ leads ih =>
    rename_i c d _
    obtain ⟨behind, there⟩ := ih
    obtain ⟨held, member, named, own, known⟩ := parentsIn_inside recorded there
    change d ∈ h.parents c at leads
    rw [known] at leads
    refine ⟨(Ancestor.of_parent ?_).trans behind, closed held member d leads⟩
    rw [own]
    exact leads

end Graphs

end FerroLoop.FerroState

import FerroLoop.FerroState.Keys

namespace FerroLoop.FerroState

open Std Checked Machine List StateStore
open Workflow (At)

variable {id : Iri}

section Growing

variable {revs : List StateRevision} {rev : StateRevision}

theorem parentsIn_append (more : List StateRevision) (id : Iri) : parentsIn revs id ⊆ parentsIn (revs ++ more) id := by
  unfold parentsIn
  rw [find?_append]
  cases revs.find? fun held => held.revisionId = id with
  | none => exact nil_subset _
  | some held => exact List.Subset.refl _

theorem parentsIn_new (fresh : ∀ held ∈ revs, held.revisionId ≠ rev.revisionId) :
    parentsIn (revs ++ [rev]) rev.revisionId = rev.parentRevisions := by
  have absent : (revs.find? fun held => held.revisionId = rev.revisionId) = none := by
    rw [find?_eq_none]
    intro held member
    simpa using fresh held member
  unfold parentsIn
  rw [find?_append, absent, Option.none_or, find?_cons_of_pos (by simp)]

variable {a : Iri}

theorem Ancestor.append {b : Iri} (path : Ancestor revs a b) (more : List StateRevision) : Ancestor (revs ++ more) a b :=
  path.mono (parentsIn_append more)

theorem Ancestor.of_new {parent : Iri} (fresh : ∀ held ∈ revs, held.revisionId ≠ rev.revisionId)
    (listed : parent ∈ rev.parentRevisions) (path : Ancestor revs a parent) : Ancestor (revs ++ [rev]) a rev.revisionId := by
  refine (path.append [rev]).trans (.of_parent ?_)
  rw [parentsIn_new fresh]
  exact listed

theorem mem_sortedParents {b : Iri} : id ∈ sortedParents a b ↔ id = a ∨ id = b := by
  unfold sortedParents
  split
  · simp [or_comm]
  · simp

end Growing

variable {rev : StateRevision}

namespace StateStore

variable {s t : StateStore} {e : Iri} {added : List StateRevision}

theorem mem_dag : rev ∈ s.dag e ↔ rev ∈ s.revisions ∧ rev.entryId = e := by
  unfold dag
  rw [mem_filter, decide_eq_true_iff]

def Behind (s : StateStore) (e : Iri) (entry : StateEntry) (id : Iri) : Prop :=
  Ancestor (s.dag e) id entry.headRevision ∨
    ∃ conflict, s.conflicts[e]? = some conflict ∧
      (Ancestor (s.dag e) id conflict.localHead ∨ Ancestor (s.dag e) id conflict.remoteHead)

def Shown (s : StateStore) : Prop :=
  ∀ rev ∈ s.revisions, ∃ entry, s.entries[rev.entryId]? = some entry ∧ s.Behind rev.entryId entry rev.revisionId

theorem Shown.empty : Shown .empty := fun _ member => absurd member not_mem_nil

structure Touches (s : StateStore) (e : Iri) (added : List StateRevision) (t : StateStore) : Prop where
  revisions : t.revisions = s.revisions ++ added
  own : ∀ rev ∈ added, rev.entryId = e
  entries : ∀ other, other ≠ e → t.entries[other]? = s.entries[other]?
  conflicts : ∀ other, other ≠ e → t.conflicts[other]? = s.conflicts[other]?

theorem Touches.dag (touches : Touches s e added t) : t.dag e = s.dag e ++ added := by
  unfold StateStore.dag
  rw [touches.revisions, filter_append]
  congr 1
  rw [filter_eq_self]
  intro rev member
  exact decide_eq_true (touches.own rev member)

variable {other : Iri}

theorem Touches.dag_other (touches : Touches s e added t) (apart : other ≠ e) : t.dag other = s.dag other := by
  unfold StateStore.dag
  rw [touches.revisions, filter_append]
  have none : added.filter (fun rev => decide (rev.entryId = other)) = [] := by
    rw [filter_eq_nil_iff]
    intro rev member
    rw [decide_eq_true_iff, touches.own rev member]
    exact Ne.symm apart
  rw [none, append_nil]

theorem Shown.touch (shown : Shown s) (touches : Touches s e added t)
    (here : ∀ rev ∈ s.dag e ++ added, ∃ entry, t.entries[e]? = some entry ∧ t.Behind e entry rev.revisionId) : Shown t := by
  intro rev member
  by_cases own : rev.entryId = e
  · rw [own]
    refine here rev ?_
    rw [← touches.dag]
    exact mem_dag.mpr ⟨member, own⟩
  have before : rev ∈ s.revisions := by
    rw [touches.revisions] at member
    rcases mem_append.mp member with old | new
    · exact old
    · exact absurd (touches.own rev new) own
  obtain ⟨entry, there, behind⟩ := shown rev before
  refine ⟨entry, (touches.entries _ own).trans there, ?_⟩
  unfold Behind
  rw [touches.dag_other own, touches.conflicts _ own]
  exact behind

/-- A revision over the head of an entry, with what is behind the conflict's heads still shown or behind it too. -/
theorem Shown.over (shown : Shown s) (touches : Touches s e added t) {entry after : StateEntry}
    (before : s.entries[e]? = some entry) (there : t.entries[e]? = some after)
    (new : ∀ rev ∈ added, t.Behind e after rev.revisionId)
    (head : ∀ id, Ancestor (s.dag e) id entry.headRevision → t.Behind e after id)
    (heads : ∀ conflict, s.conflicts[e]? = some conflict →
      ∀ id, Ancestor (s.dag e) id conflict.localHead ∨ Ancestor (s.dag e) id conflict.remoteHead → t.Behind e after id) :
    Shown t := by
  refine shown.touch touches ?_
  intro rev member
  refine ⟨after, there, ?_⟩
  rcases mem_append.mp member with old | fresh
  · obtain ⟨inside, own⟩ := mem_dag.mp old
    obtain ⟨held, found, behind⟩ := shown rev inside
    rw [own, before] at found
    cases found
    rw [own] at behind
    rcases behind with main | ⟨conflict, recorded, either⟩
    · exact head _ main
    · exact heads conflict recorded _ either
  · exact new rev fresh

variable {rev : StateRevision} {existing : StateEntry} {mergeAt : At} {minted : Iri}

def Fresh (s : StateStore) (id : Iri) : Prop := ∀ held ∈ s.revisions, held.revisionId ≠ id

theorem fresh_iff : s.revision? id = none ↔ Fresh s id := by
  unfold revision? Fresh
  rw [find?_eq_none]
  simp only [decide_eq_true_eq]

theorem Fresh.dag (fresh : Fresh s id) : ∀ held ∈ s.dag e, held.revisionId ≠ id :=
  fun held member => fresh held (mem_dag.mp member).1

def Covers (s : StateStore) (existing : StateEntry) (rev : StateRevision) : Prop :=
  ∀ conflict, s.conflicts[existing.id]? = some conflict →
    course (s.dag existing.id ++ [rev]) existing.headRevision rev = .conflict →
      ∀ head, head = conflict.localHead ∨ head = conflict.remoteHead →
        isAncestorInDag head existing.headRevision (s.dag existing.id ++ [rev]) = true ∨
          isAncestorInDag head rev.revisionId (s.dag existing.id ++ [rev]) = true

theorem touches_append (own : rev.entryId = e) (revisions : t.revisions = s.revisions ++ [rev])
    (entries : ∀ other, other ≠ e → t.entries[other]? = s.entries[other]?)
    (conflicts : ∀ other, other ≠ e → t.conflicts[other]? = s.conflicts[other]?) : Touches s e [rev] t := by
  refine ⟨revisions, ?_, entries, conflicts⟩
  intro held member
  rw [mem_singleton.mp member]
  exact own

section

variable {ν : Type} (m : ExtTreeMap Iri ν compare)

include m

theorem insert_other (v : ν) (other : Iri) (apart : other ≠ e) : (m.insert e v)[other]? = m[other]? := by
  rw [Map.getElem?_insert, if_neg (Ne.symm apart)]

theorem insert_same (v : ν) : (m.insert e v)[e]? = some v := by
  rw [Map.getElem?_insert, if_pos rfl]

theorem erase_other (other : Iri) (apart : other ≠ e) : (m.erase e)[other]? = m[other]? := by
  rw [Map.getElem?_erase, if_neg (Ne.symm apart)]

end

theorem append_touches (own : rev.entryId = e) : Touches s e [rev] (s.append rev) :=
  touches_append own rfl (fun _ _ => rfl) (fun _ _ => rfl)

theorem dag_append_own (own : rev.entryId = e) : (s.append rev).dag e = s.dag e ++ [rev] := (append_touches own).dag

section

variable (shown : Shown s) (there : s.entries[rev.entryId]? = some existing)

include shown there

theorem Shown.fastForward
    (ahead : isAncestorInDag existing.headRevision rev.revisionId (s.dag rev.entryId ++ [rev]) = true) :
    Shown ((s.append rev).fastForward existing rev) := by
  have path := isAncestorInDag_iff.mp ahead
  have dag : (s.append rev).dag rev.entryId = s.dag rev.entryId ++ [rev] := dag_append_own rfl
  obtain ⟨entries, _, revisions, _⟩ := @fastForward_shape (s.append rev) existing rev
  have conflicts : ∀ other, other ≠ rev.entryId →
      ((s.append rev).fastForward existing rev).conflicts[other]? = s.conflicts[other]? := by
    intro other apart
    unfold StateStore.fastForward
    simp only
    split
    · split
      · exact erase_other _ other apart
      · rfl
    · rfl
  have touches : Touches s rev.entryId [rev] ((s.append rev).fastForward existing rev) := by
    refine touches_append rfl revisions ?_ conflicts
    intro other apart
    rw [entries]
    exact insert_other _ _ other apart
  have now : ∀ id, Ancestor (s.dag rev.entryId ++ [rev]) id rev.revisionId →
      ((s.append rev).fastForward existing rev).Behind rev.entryId (forwarded existing rev) id := by
    intro id behind
    refine .inl ?_
    rw [touches.dag]
    exact behind
  refine shown.over touches there (by rw [entries]; exact insert_same _ _) ?_ ?_ ?_
  · intro held member
    rw [mem_singleton.mp member]
    exact now _ (.self _)
  · intro id behind
    exact now id ((behind.append [rev]).trans path)
  intro conflict recorded id either
  by_cases covered : isAncestorInDag conflict.localHead rev.revisionId (s.dag rev.entryId ++ [rev]) = true ∧
      isAncestorInDag conflict.remoteHead rev.revisionId (s.dag rev.entryId ++ [rev]) = true
  · rcases either with mine | theirs
    · exact now id ((mine.append [rev]).trans (isAncestorInDag_iff.mp covered.1))
    · exact now id ((theirs.append [rev]).trans (isAncestorInDag_iff.mp covered.2))
  refine .inr ⟨conflict, ?_, ?_⟩
  · unfold StateStore.fastForward
    simp only [dag]
    have kept : (s.append rev).conflicts[rev.entryId]? = some conflict := recorded
    rw [kept]
    simp only [if_neg covered]
    exact recorded
  · rw [touches.dag]
    exact either.imp (fun path => path.append [rev]) (fun path => path.append [rev])

theorem Shown.merge {merged : StateRevision}
    (own : merged.entryId = rev.entryId) (fresh : Fresh (s.append rev) merged.revisionId)
    (parents : merged.parentRevisions = sortedParents existing.headRevision rev.revisionId) :
    Shown (((s.append rev).append merged).putEntry (headedBy existing merged)) := by
  have touches : Touches s rev.entryId [rev, merged] (((s.append rev).append merged).putEntry (headedBy existing merged)) := by
    refine ⟨append_assoc _ _ _, ?_, ?_, fun _ _ => rfl⟩
    · intro held member
      rcases mem_cons.mp member with first | second
      · rw [first]
      · rw [mem_singleton.mp second]
        exact own
    · intro other apart
      change (s.entries.insert merged.entryId _)[other]? = _
      rw [own]
      exact insert_other _ _ other apart
  have dag : (((s.append rev).append merged).putEntry (headedBy existing merged)).dag rev.entryId =
      (s.dag rev.entryId ++ [rev]) ++ [merged] := by
    rw [touches.dag, append_assoc]
    rfl
  have newest : ∀ held ∈ s.dag rev.entryId ++ [rev], held.revisionId ≠ merged.revisionId := by
    rw [← @dag_append_own s rev.entryId rev rfl]
    exact fresh.dag
  have now : ∀ parent ∈ merged.parentRevisions, ∀ id, Ancestor (s.dag rev.entryId ++ [rev]) id parent →
      (((s.append rev).append merged).putEntry (headedBy existing merged)).Behind rev.entryId (headedBy existing merged) id := by
    intro parent listed id behind
    refine .inl ?_
    rw [dag]
    exact .of_new newest listed behind
  have written : (((s.append rev).append merged).putEntry (headedBy existing merged)).entries[rev.entryId]? =
      some (headedBy existing merged) := by
    change (s.entries.insert merged.entryId _)[rev.entryId]? = _
    rw [own]
    exact insert_same _ _
  refine shown.over touches there written ?_ ?_ ?_
  · intro held member
    rcases mem_cons.mp member with first | second
    · rw [first]
      refine now rev.revisionId ?_ _ (.self _)
      rw [parents]
      exact mem_sortedParents.mpr (.inr rfl)
    · rw [mem_singleton.mp second]
      exact .inl (.self _)
  · intro id behind
    refine now existing.headRevision ?_ id (behind.append [rev])
    rw [parents]
    exact mem_sortedParents.mpr (.inl rfl)
  · intro conflict recorded id either
    refine .inr ⟨conflict, recorded, ?_⟩
    rw [touches.dag]
    exact either.imp (fun path => path.append _) (fun path => path.append _)

theorem Shown.conflict (covered : ∀ conflict, s.conflicts[rev.entryId]? = some conflict →
      ∀ head, head = conflict.localHead ∨ head = conflict.remoteHead →
        Ancestor (s.dag rev.entryId ++ [rev]) head existing.headRevision ∨
          Ancestor (s.dag rev.entryId ++ [rev]) head rev.revisionId) : Shown { s.append rev with
      conflicts := s.conflicts.insert rev.entryId ⟨rev.entryId, existing.headRevision, rev.revisionId, mergeAt⟩ } := by
  have touches : Touches s rev.entryId [rev] { s.append rev with
      conflicts := s.conflicts.insert rev.entryId ⟨rev.entryId, existing.headRevision, rev.revisionId, mergeAt⟩ } :=
    touches_append rfl rfl (fun _ _ => rfl) (fun other apart => insert_other _ _ other apart)
  have recorded := @insert_same rev.entryId _ s.conflicts
    ⟨rev.entryId, existing.headRevision, rev.revisionId, mergeAt⟩
  refine shown.over touches there there ?_ ?_ ?_
  · intro held member
    rw [mem_singleton.mp member]
    exact .inr ⟨_, recorded, .inr (.self _)⟩
  · intro id behind
    refine .inl ?_
    rw [touches.dag]
    exact behind.append [rev]
  intro conflict before id either
  have behind : ∃ head, (head = conflict.localHead ∨ head = conflict.remoteHead) ∧ Ancestor (s.dag rev.entryId) id head := by
    rcases either with mine | theirs
    · exact ⟨_, .inl rfl, mine⟩
    · exact ⟨_, .inr rfl, theirs⟩
  obtain ⟨head, named, path⟩ := behind
  have path := path.append [rev]
  rw [← touches.dag] at path
  have cover := covered conflict before head named
  rw [← touches.dag] at cover
  rcases cover with main | remote
  · exact .inl (path.trans main)
  · exact .inr ⟨_, recorded, .inr (path.trans remote)⟩

end

variable {dag : List StateRevision}

theorem course_fastForward {head : Iri} (taken : course dag head rev = .fastForward) :
    isAncestorInDag head rev.revisionId dag = true := by
  unfold course at taken
  split at taken
  · assumption
  split at taken
  · cases taken
  split at taken
  · cases taken
  · simp only at taken
    split at taken <;> cases taken

theorem course_alreadyAhead {head : Iri} (taken : course dag head rev = .alreadyAhead) :
    isAncestorInDag rev.revisionId head dag = true := by
  unfold course at taken
  split at taken
  · cases taken
  split at taken
  · assumption
  split at taken
  · cases taken
  · simp only at taken
    split at taken <;> cases taken

theorem Shown.advance (shown : Shown s) (there : s.entries[rev.entryId]? = some existing) (named : existing.id = rev.entryId)
    (fresh : Fresh (s.append rev) minted) (covers : Covers s existing rev)
    (done : (s.append rev).advance existing rev mergeAt minted = .ok t) : Shown t := by
  have dag : (s.append rev).dag rev.entryId = s.dag rev.entryId ++ [rev] := dag_append_own rfl
  unfold StateStore.advance at done
  rw [dag] at done
  unfold Covers at covers
  rw [named] at covers
  cases taken : course (s.dag rev.entryId ++ [rev]) existing.headRevision rev with
  | fastForward =>
    rw [taken] at done
    cases done
    exact shown.fastForward there (course_fastForward taken)
  | alreadyAhead =>
    rw [taken] at done
    cases done
    have touches : Touches s rev.entryId [rev] (s.append rev) := append_touches rfl
    have behind : Ancestor (s.dag rev.entryId ++ [rev]) rev.revisionId existing.headRevision :=
      isAncestorInDag_iff.mp (course_alreadyAhead taken)
    refine shown.over touches there there ?_ ?_ ?_
    · intro held member
      rw [mem_singleton.mp member]
      refine .inl ?_
      rw [dag]
      exact behind
    · intro id path
      refine .inl ?_
      rw [dag]
      exact path.append [rev]
    · intro conflict recorded id either
      refine .inr ⟨conflict, recorded, ?_⟩
      rw [dag]
      exact either.imp (fun path => path.append _) (fun path => path.append _)
  | missingLocalHead =>
    rw [taken] at done
    cases done
  | merge ours payload =>
    rw [taken] at done
    cases done
    exact shown.merge there rfl fresh rfl
  | conflict =>
    rw [taken] at done
    cases done
    refine shown.conflict there ?_
    intro conflict recorded head either
    exact (covers conflict recorded taken head either).imp isAncestorInDag_iff.mp isAncestorInDag_iff.mp

section Rename

variable {key : Key} {old new : Iri}

theorem parentsIn_map {f : StateRevision → StateRevision} (ids : ∀ rev, (f rev).revisionId = rev.revisionId)
    (parents : ∀ rev, (f rev).parentRevisions = rev.parentRevisions) (revs : List StateRevision) :
    parentsIn (revs.map f) = parentsIn revs := by
  funext id
  unfold parentsIn
  rw [find?_map]
  have same : ((fun rev : StateRevision => decide (rev.revisionId = id)) ∘ f) = fun rev => decide (rev.revisionId = id) := by
    funext rev
    simp only [Function.comp_apply, ids]
  rw [same]
  cases revs.find? fun rev => decide (rev.revisionId = id) with
  | none => rfl
  | some rev => exact parents rev

theorem rename_dag_new (unused : ∀ rev ∈ s.revisions, rev.entryId ≠ new) :
    (s.rename key old new).dag new = (s.dag old).map fun rev => { rev with entryId := new } := by
  change (s.revisions.map fun rev => if rev.entryId = old then { rev with entryId := new } else rev).filter
    (fun rev => decide (rev.entryId = new)) = (s.revisions.filter fun rev => decide (rev.entryId = old)).map _
  generalize s.revisions = revs at unused ⊢
  induction revs with
  | nil => rfl
  | cons rev rest ih =>
    have later := ih fun held member => unused held (mem_cons_of_mem _ member)
    by_cases own : rev.entryId = old
    · simp only [map_cons, filter_cons, decide_true, if_true, own, later]
    · have apart := unused rev mem_cons_self
      simp only [map_cons, filter_cons, apart, own, decide_false, Bool.false_eq_true, if_false, later]

theorem rename_dag_other (notOld : other ≠ old) (notNew : other ≠ new) :
    (s.rename key old new).dag other = s.dag other := by
  change (s.revisions.map fun rev => if rev.entryId = old then { rev with entryId := new } else rev).filter
    (fun rev => decide (rev.entryId = other)) = s.revisions.filter fun rev => decide (rev.entryId = other)
  generalize s.revisions = revs
  induction revs with
  | nil => rfl
  | cons rev rest ih =>
    by_cases own : rev.entryId = old
    · have moved : rev.entryId ≠ other := fun same => notOld (same.symm.trans own)
      simp only [map_cons, if_pos own, filter_cons, Ne.symm notNew, moved, decide_false, Bool.false_eq_true, if_false, ih]
    · simp only [map_cons, if_neg own, filter_cons, ih]

theorem rename_conflicts_new {conflict : StateConflict} (recorded : s.conflicts[old]? = some conflict) :
    (s.rename key old new).conflicts[new]? = some { conflict with entryId := new } := by
  simp only [rename, recorded]
  exact insert_same _ _

theorem rename_conflicts_other (notOld : other ≠ old) (notNew : other ≠ new) :
    (s.rename key old new).conflicts[other]? = s.conflicts[other]? := by
  simp only [rename]
  split
  · rw [insert_other _ _ other notNew, erase_other _ other notOld]
  · rfl

theorem Shown.rename (shown : Shown s) (filed : Filed s) (keyed : s.keys[key]? = some old)
    (free : s.entries[new]? = none) : Shown (s.rename key old new) := by
  obtain ⟨held, there, _⟩ := filed.keyed key old keyed
  have unused : ∀ rev ∈ s.revisions, rev.entryId ≠ new := by
    intro rev member same
    obtain ⟨entry, found⟩ := filed.located rev member
    rw [same, free] at found
    cases found
  intro rev member
  rcases mem_rename member with ⟨before, inside, own, same⟩ | ⟨inside, own⟩
  · subst same
    obtain ⟨entry, found, behind⟩ := shown before inside
    rw [own] at found behind
    rw [there] at found
    cases found
    refine ⟨{ held with id := new }, by rw [rename_entries there, if_pos rfl], ?_⟩
    have graph : ∀ a b, Ancestor (s.dag old) a b → Ancestor ((s.rename key old new).dag new) a b := by
      intro a b path
      refine path.mono fun id => ?_
      rw [rename_dag_new unused, @parentsIn_map (fun rev => { rev with entryId := new }) (fun _ => rfl) (fun _ => rfl)]
      exact List.Subset.refl _
    rcases behind with main | ⟨conflict, recorded, either⟩
    · exact .inl (graph _ _ main)
    · exact .inr ⟨_, rename_conflicts_new recorded, either.imp (graph _ _) (graph _ _)⟩
  · have notNew := unused rev inside
    obtain ⟨entry, found, behind⟩ := shown rev inside
    refine ⟨entry, ?_, ?_⟩
    · rw [rename_entries there, if_neg (Ne.symm notNew), if_neg (Ne.symm own), found]
    · unfold Behind
      rw [rename_dag_other own notNew, rename_conflicts_other own notNew]
      exact behind

end Rename

theorem Shown.adoptId (shown : Shown s) (filed : Filed s) (untaken : Untaken s rev) : Shown (s.adoptId rev) := by
  unfold StateStore.adoptId
  split
  · rename_i existing keyed
    split
    · exact shown
    · rename_i apart
      exact shown.rename filed keyed (untaken existing keyed apart)
  · exact shown

theorem adoptId_fresh (fresh : Fresh s id) : Fresh (s.adoptId rev) id := by
  have moved : ∀ old new, Fresh (s.rename rev.key old new) id := by
    intro old new held member
    rcases mem_rename member with ⟨before, inside, _, same⟩ | ⟨inside, _⟩
    · subst same
      exact fresh before inside
    · exact fresh held inside
  unfold adoptId
  split
  · split
    · exact fresh
    · exact moved _ _
  · exact fresh

theorem Shown.creates (shown : Shown s) (filed : Filed s) (free : s.entries[rev.entryId]? = none) {entry : StateEntry}
    (headed : entry.headRevision = rev.revisionId) (revisions : t.revisions = s.revisions ++ [rev])
    (entries : t.entries = s.entries.insert rev.entryId entry) (conflicts : t.conflicts = s.conflicts) : Shown t := by
  have touches : Touches s rev.entryId [rev] t := by
    refine touches_append rfl revisions ?_ ?_
    · intro other apart
      rw [entries]
      exact insert_other _ _ other apart
    · intro other _
      rw [conflicts]
  refine shown.touch touches ?_
  intro held member
  refine ⟨entry, by rw [entries]; exact insert_same _ _, ?_⟩
  rcases mem_append.mp member with old | new
  · obtain ⟨inside, own⟩ := mem_dag.mp old
    obtain ⟨found, there⟩ := filed.located held inside
    rw [own, free] at there
    cases there
  · rw [mem_singleton.mp new, ← headed]
    exact .inl (.self _)

def Surfaces (s : StateStore) (rev : StateRevision) : Prop :=
  ∀ existing, s.entryOf rev.key = some existing → Covers s existing { rev with entryId := existing.id }

theorem Shown.fileImported (shown : Shown s) (filed : Filed s) (surfaces : Surfaces s rev)
    (fresh : Fresh s minted) (apart : rev.revisionId ≠ minted) (done : s.fileImported rev mergeAt minted = .ok t) : Shown t := by
  obtain ⟨resolved, ids, _, _, ⟨existing, there, key, done⟩ | ⟨free, rfl⟩⟩ := fileImported_ok done
  · have named : existing.id = resolved := filed.owner _ _ there
    have keyed : s.entryOf rev.key = some existing := by
      unfold entryOf
      rw [← key, filed.listed _ _ there]
      exact there
    have covers := surfaces existing keyed
    rw [named] at covers
    have newest : Fresh (({ s with ids } : StateStore).append { rev with entryId := resolved }) minted := by
      intro held member
      rcases mem_append.mp member with old | new
      · exact fresh held old
      · rw [mem_singleton.mp new]
        exact apart
    have start : Shown { s with ids } := shown
    exact start.advance there named newest covers done
  · exact shown.creates filed free rfl rfl rfl rfl

theorem Shown.applyImported (shown : Shown s) (filed : Filed s) (untaken : Untaken s rev)
    (surfaces : Surfaces (s.adoptId rev) rev) (fresh : Fresh s minted)
    (apart : rev.revisionId ≠ minted) (done : (s.adoptId rev).fileImported rev mergeAt minted = .ok t) : Shown t := by
  exact (shown.adoptId filed untaken).fileImported (filed.adoptId untaken).1 surfaces
    (adoptId_fresh fresh) apart done

theorem Shown.written (shown : Shown s) {entry : StateEntry} (there : s.entries[rev.entryId]? = some existing)
    (fresh : Fresh s rev.revisionId) (headed : entry.headRevision = rev.revisionId)
    (revisions : t.revisions = s.revisions ++ [rev]) (entries : t.entries = s.entries.insert rev.entryId entry)
    (elsewhere : ∀ other, other ≠ rev.entryId → t.conflicts[other]? = s.conflicts[other]?)
    (head : ∃ parent ∈ rev.parentRevisions, Ancestor (s.dag rev.entryId) existing.headRevision parent)
    (heads : ∀ conflict, s.conflicts[rev.entryId]? = some conflict →
      conflict.localHead ∈ rev.parentRevisions ∧ conflict.remoteHead ∈ rev.parentRevisions) : Shown t := by
  have touches : Touches s rev.entryId [rev] t := by
    refine touches_append rfl revisions ?_ elsewhere
    intro other apart
    rw [entries]
    exact insert_other _ _ other apart
  have now : ∀ parent ∈ rev.parentRevisions, ∀ id, Ancestor (s.dag rev.entryId) id parent → t.Behind rev.entryId entry id := by
    intro parent listed id path
    refine .inl ?_
    rw [touches.dag, headed]
    exact .of_new fresh.dag listed path
  refine shown.over touches there (by rw [entries]; exact insert_same _ _) ?_ ?_ ?_
  · intro held member
    rw [mem_singleton.mp member, ← headed]
    exact .inl (.self _)
  · intro id path
    obtain ⟨parent, listed, behind⟩ := head
    exact now parent listed id (path.trans behind)
  · intro conflict recorded id either
    obtain ⟨mine, theirs⟩ := heads conflict recorded
    rcases either with path | path
    · exact now _ mine id path
    · exact now _ theirs id path

variable {written : StateEntry}

theorem Shown.upsertState (shown : Shown s) (filed : Filed s) {args : UpsertStateArgs} {newId : Iri}
    (fresh : Fresh s minted) (done : s.upsertState args newId minted = .ok (t, written)) : Shown t := by
  obtain ⟨slug, ids, entryId, rfl, ⟨existing, held, rfl, rfl, clear⟩ | ⟨held, rfl, indexed⟩⟩ := upsertState_ok done
  · obtain ⟨there, _⟩ := entryOf_some filed held
    refine @Shown.written s _ (writtenRevision (s.entryOf _) args slug existing.id minted) existing shown _ there fresh rfl
      rfl rfl (fun _ _ => rfl) ⟨existing.headRevision, ?_, .self _⟩ ?_
    · change existing.headRevision ∈ ((s.entryOf _).map StateEntry.headRevision).toList
      rw [held]
      exact mem_singleton.mpr rfl
    · intro conflict recorded
      change s.conflicts[existing.id]? = _ at recorded
      rw [clear] at recorded
      cases recorded
  · obtain ⟨unused, _, _⟩ := Ids.indexNew_ok indexed
    refine @Shown.creates s _ (writtenRevision (s.entryOf _) args slug entryId minted) shown filed ?_ _ rfl rfl rfl rfl
    change s.entries[entryId]? = none
    rcases there : s.entries[entryId]? with _ | entry
    · rfl
    have primary := filed.primary _ _ there
    rw [unused] at primary
    cases primary

variable {by_ : String}

def Offers (s : StateStore) (id : Iri) : Prop :=
  ∀ resolved kind conflict existing, s.ids.locate id = .ok (resolved, kind) → s.conflicts[resolved]? = some conflict →
    s.entries[resolved]? = some existing →
      isAncestorInDag existing.headRevision conflict.localHead (s.dag resolved) = true ∨
        isAncestorInDag existing.headRevision conflict.remoteHead (s.dag resolved) = true

theorem Shown.resolveConflict (shown : Shown s) {keep : Iri} {at_ : At}
    (fresh : Fresh s minted) (offers : Offers s id)
    (done : s.resolveConflict id keep at_ by_ minted = .ok (t, written)) : Shown t := by
  obtain ⟨resolved, _, conflict, chosen, ours, remote, existing, located, recorded, _, _, there, rfl⟩ := resolveConflict_ok done
  have offered := offers _ _ conflict existing located recorded there
  refine @Shown.written s _ (resolvedRevision existing conflict chosen ours remote at_ by_ resolved minted) existing shown
    _ there fresh rfl rfl rfl (fun other apart => erase_other _ other apart) ?_ ?_
  · rcases offered with mine | theirs
    · exact ⟨_, mem_sortedParents.mpr (.inl rfl), isAncestorInDag_iff.mp mine⟩
    · exact ⟨_, mem_sortedParents.mpr (.inr rfl), isAncestorInDag_iff.mp theirs⟩
  · intro held same
    change s.conflicts[resolved]? = _ at same
    rw [recorded] at same
    cases same
    exact ⟨mem_sortedParents.mpr (.inl rfl), mem_sortedParents.mpr (.inr rfl)⟩

def Mints (s : StateStore) (rev : StateRevision) (minted : Iri) : Prop := Fresh s minted ∧ rev.revisionId ≠ minted

def Joins (s : StateStore) (rev : StateRevision) (_ : Iri) : Prop :=
  s.revision? rev.revisionId = none → s.Untaken rev ∧ (s.adoptId rev).Surfaces rev

theorem Joins.arrives (joins : Joins s rev minted) : s.Arrives rev minted := fun new => (joins new).1

theorem Shown.importRevision (shown : Shown s) (filed : Filed s) (mints : Mints s rev minted) (joins : Joins s rev minted)
    (done : s.importRevision rev mergeAt minted = .ok t) : Shown t := by
  obtain ⟨rfl, _⟩ | ⟨new, _, done⟩ := importRevision_ok done
  · exact shown
  · obtain ⟨untaken, surfaces⟩ := joins new
    exact shown.applyImported filed untaken surfaces mints.1 mints.2 done

theorem Shown.importStateRevisions {revs : List (StateRevision × Iri)} (shown : Shown s) (filed : Filed s)
    (minting : Importing Mints mergeAt s revs) (joining : Importing Joins mergeAt s revs)
    (done : s.importStateRevisions mergeAt revs = .ok t) : Filed t ∧ Shown t := by
  induction revs generalizing s with
  | nil =>
    cases done
    exact ⟨filed, shown⟩
  | cons first rest ih =>
    obtain ⟨next, one, done⟩ := bind_ok done
    exact ih (shown.importRevision filed minting.1 joining.1 one) (filed.importRevision joining.1.arrives one).1
      (minting.2 next one) (joining.2 next one) done

end StateStore

def Event.Mints (s : StateStore) : Event → Prop
  | .upsertState _ _ minted => s.Fresh minted
  | .retireMemory _ _ _ _ _ _ _ minted => s.Fresh minted
  | .resolveConflict _ _ _ _ minted => s.Fresh minted
  | .importStateRevisions revs mergeAt => StateStore.Importing StateStore.Mints mergeAt s revs

/-- An import records no conflict over one that it does not cover, and a resolution is of a conflict that still
offers the head. -/
def Event.Joins (s : StateStore) : Event → Prop
  | .importStateRevisions revs mergeAt => StateStore.Importing StateStore.Joins mergeAt s revs
  | .resolveConflict id _ _ _ _ => s.Offers id
  | _ => True

variable {s : StateStore}

theorem apply_shown {t : StateStore} {e : Event} (filed : s.Filed) (shown : s.Shown) (mints : e.Mints s) (joins : e.Joins s)
    (accepted : s.apply e = .ok t) : t.Filed ∧ t.Shown := by
  cases e with
  | upsertState args newId minted =>
    obtain ⟨⟨t, written⟩, done, rfl⟩ := map_ok accepted
    exact ⟨(filed.upsertState done).1, shown.upsertState filed mints done⟩
  | retireMemory =>
    obtain ⟨⟨t, written⟩, done, rfl⟩ := map_ok accepted
    obtain ⟨_, done⟩ := retireMemory_ok done
    exact ⟨(filed.upsertState done).1, shown.upsertState filed mints done⟩
  | resolveConflict =>
    obtain ⟨⟨t, written⟩, done, rfl⟩ := map_ok accepted
    exact ⟨(filed.resolveConflict done).1, shown.resolveConflict mints joins done⟩
  | importStateRevisions revs mergeAt => exact shown.importStateRevisions filed mints joins accepted

theorem step_shown (e : Event) (good : s.Filed ∧ s.Shown) (joins : e.Mints s ∧ e.Joins s) :
    (step s e).1.Filed ∧ (step s e).1.Shown := by
  unfold step
  split
  · exact apply_shown good.1 good.2 joins.1 joins.2 ‹_›
  · exact good

/-- In every run of which no import records a conflict over one that it does not cover, and no conflict is
resolved behind the head, every stored revision is at every moment behind its entry's head or behind a head of
its recorded conflict. -/
theorem revisions_shown (events : List Event)
    (joining : Machine.Throughout step (fun s e => e.Mints s ∧ e.Joins s) .empty events) :
    Machine.Throughout step (fun s e => s.Shown ∧ (step s e).1.Shown) .empty events := by
  have preserved : ∀ s e, s.Filed ∧ s.Shown → Event.Mints s e ∧ Event.Joins s e → (step s e).1.Filed ∧ (step s e).1.Shown :=
    fun s e good joins => step_shown e good joins
  refine Machine.Throughout.mono preserved ?_ ⟨Filed.empty, Shown.empty⟩ joining
  intro s e good joins
  exact ⟨good.2, (step_shown e good joins).2⟩

def noteArgs : UpsertStateArgs := ⟨.workspace, "note", .inherit, .runtime ⟨.other "1", .conflict⟩, "t0", "fl"⟩

def noteRevision (id : Iri) (parents : List Iri) : StateRevision :=
  ⟨id, "e1", parents, .workspace, .runtime, "note", false, false, .runtime ⟨.other "2", .conflict⟩, "t0", "fl"⟩

/-- Two versions of an entry here, and a remote one beside the second. -/
def divergence : List Event :=
  [.upsertState noteArgs "e1" "r1", .upsertState noteArgs "e1" "r2", .importStateRevisions [(noteRevision "x2" ["r1"], "m1")] "t0"]

def settlement : List Event :=
  divergence ++ [.importStateRevisions [(noteRevision "x3" ["x2"], "m2")] "t0", .resolveConflict "e1" "x3" "t0" "fl" "r3"]

theorem joins_of_checks {minted : Iri}
    (untaken : ∀ existing ∈ s.keys[rev.key]?, existing = rev.entryId)
    (covered : ∀ existing ∈ (s.adoptId rev).entryOf rev.key, ∀ conflict ∈ (s.adoptId rev).conflicts[existing.id]?,
      ∀ head ∈ [conflict.localHead, conflict.remoteHead],
        isAncestorInDag head existing.headRevision ((s.adoptId rev).dag existing.id ++ [{ rev with entryId := existing.id }]) = true ∨
          isAncestorInDag head rev.revisionId ((s.adoptId rev).dag existing.id ++ [{ rev with entryId := existing.id }]) = true) :
    s.Joins rev minted := by
  intro _
  refine ⟨fun existing keyed apart => absurd (untaken existing keyed) apart, ?_⟩
  intro existing keyed conflict recorded _ head named
  refine covered existing keyed conflict recorded head ?_
  rcases named with rfl | rfl
  · exact mem_cons_self
  · exact mem_cons_of_mem _ mem_cons_self

theorem settlement_shown :
    Machine.Throughout step (fun s e => e.Mints s ∧ e.Joins s) .empty settlement ∧
      Machine.Throughout step (fun s e => s.Shown ∧ (step s e).1.Shown) .empty settlement ∧
      (trace step .empty settlement).map Prod.snd = [none, none, none, none, none] := by
  have joining : Machine.Throughout step (fun s e => e.Mints s ∧ e.Joins s) .empty settlement := by
    refine ⟨⟨?_, trivial⟩, ⟨?_, trivial⟩, ⟨⟨⟨?_, ?_⟩, fun _ _ => trivial⟩, ⟨?_, fun _ _ => trivial⟩⟩,
      ⟨⟨⟨?_, ?_⟩, fun _ _ => trivial⟩, ⟨?_, fun _ _ => trivial⟩⟩, ⟨?_, ?_⟩, trivial⟩
    · exact fresh_iff.mp (by decide +kernel)
    · exact fresh_iff.mp (by decide +kernel)
    · exact StateStore.fresh_iff.mp (by decide +kernel)
    · decide
    · exact joins_of_checks (by decide +kernel) (by decide +kernel)
    · exact StateStore.fresh_iff.mp (by decide +kernel)
    · decide
    · exact joins_of_checks (by decide +kernel) (by decide +kernel)
    · exact fresh_iff.mp (by decide +kernel)
    · intro resolved kind conflict existing found recorded there
      have place : ((run step .empty (settlement.take 4)).ids.locate "e1").toOption = some ("e1", .state) := by
        decide +kernel
      have open_ : (run step .empty (settlement.take 4)).conflicts["e1"]? = some ⟨"e1", "r2", "x3", "t0"⟩ := by
        decide +kernel
      have head : ((run step .empty (settlement.take 4)).entries["e1"]?).map StateEntry.headRevision = some "r2" := by
        decide +kernel
      cases (ok_of_toOption place).symm.trans found
      cases open_.symm.trans recorded
      have own : some existing.headRevision = some "r2" := (congrArg (Option.map StateEntry.headRevision) there).symm.trans head
      rw [Option.some.inj own]
      exact Or.inl (isAncestorInDag_iff.mpr (.self _))
  exact ⟨joining, revisions_shown settlement joining, by decide +kernel⟩

def thirdBranch : List Event := divergence ++ [.importStateRevisions [(noteRevision "y2" ["r1"], "m2")] "t0"]

/-- All is accepted, and the second branch is behind neither the head nor the recorded conflict. -/
theorem thirdBranch_drops :
    (trace step .empty thirdBranch).map Prod.snd = [none, none, none, none] ∧
      ¬ (run step .empty thirdBranch).Shown := by
  refine ⟨by decide +kernel, ?_⟩
  intro shown
  have member : noteRevision "x2" ["r1"] ∈ (run step .empty thirdBranch).revisions := by decide +kernel
  have head : ((run step .empty thirdBranch).entries["e1"]?).map StateEntry.headRevision = some "r2" := by decide +kernel
  have recorded : (run step .empty thirdBranch).conflicts["e1"]? = some ⟨"e1", "r2", "y2", "t0"⟩ := by decide +kernel
  have apart : ∀ id ∈ ["r2", "y2"], ¬ Ancestor ((run step .empty thirdBranch).dag "e1") "x2" id := by
    have outside : ∀ id ∈ ["r2", "y2"], isAncestorInDag "x2" id ((run step .empty thirdBranch).dag "e1") = false := by
      decide +kernel
    intro id listed path
    rw [← isAncestorInDag_iff, outside id listed] at path
    cases path
  obtain ⟨entry, there, behind⟩ := shown _ member
  have own : entry.headRevision = "r2" := by
    change (run step .empty thirdBranch).entries["e1"]? = some entry at there
    rw [there] at head
    exact Option.some.inj head
  rcases behind with main | ⟨conflict, found, either⟩
  · rw [own] at main
    exact apart "r2" (by decide) main
  change (run step .empty thirdBranch).conflicts["e1"]? = some conflict at found
  rw [recorded] at found
  cases found
  rcases either with mine | theirs
  · exact apart "r2" (by decide) mine
  · exact apart "y2" (by decide) theirs

end FerroLoop.FerroState

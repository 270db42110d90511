import FerroLoop.FerroState.Grafts

namespace FerroLoop.FerroState

open Std Checked List History Option
open Workflow (MergeMode At)

namespace StateStore

variable {s t : StateStore} {h more : History} {own : Iri → Prop} {k : Key} {mode : MergeMode} {e head : Iri}
  {rev : StateRevision} {mergeAt : At} {minted : Iri}

/-- A store has the line of a key, whole and all of it behind one head. `own` are the ids that stand for the key in
one store or another, `e` is the one that does here. -/
structure Woven (h : History) (own : Iri → Prop) (k : Key) (s : StateStore) (e head : Iri) : Prop where
  recorded : ∀ rev ∈ s.revisions, h.Records rev
  line : ∀ rev ∈ s.revisions, rev.key = k ↔ rev.entryId = e
  only : ∀ rev ∈ s.revisions, own rev.entryId → rev.key = k
  closed : ∀ rev ∈ s.revisions, rev.key = k → ∀ parent ∈ rev.parentRevisions, ∃ held ∈ s.revisions, held.revisionId = parent
  entry : ∃ entry, s.entries[e]? = some entry ∧ entry.key = k ∧ entry.headRevision = head
  headed : ∃ rev ∈ s.revisions, rev.revisionId = head ∧ rev.key = k
  tight : ∀ rev ∈ s.revisions, rev.key = k → h.Anc rev.revisionId head
  keyed : s.keys[k]? = some e
  alone : ∀ (other : Key) e', s.keys[other]? = some e' → own e' → other = k
  owned : own e
  primary : s.ids.rows[e]? = some (.kind .state)
  aimed : ∀ id primary : Iri, s.ids.aliases[id]? = some primary → own primary → primary = e
  clear : ∀ e', own e' → s.conflicts[e']? = none

section

variable (woven : Woven h own k s e head)

include woven

theorem Woven.on (member : rev ∈ s.revisions) (key : rev.key = k) : h.On k rev.revisionId := by
  obtain ⟨made, found, same⟩ := woven.recorded rev member
  exact ⟨made, found, same.key.symm.trans key⟩

theorem Woven.key (member : rev ∈ s.revisions) (on : h.On k rev.revisionId) : rev.key = k := by
  obtain ⟨made, found, same⟩ := woven.recorded rev member
  obtain ⟨made', found', key⟩ := on
  cases found.symm.trans found'
  exact same.key.trans key

theorem Woven.mem_dag : rev ∈ s.dag e ↔ rev ∈ s.revisions ∧ rev.key = k := by
  rw [StateStore.mem_dag]
  constructor
  · rintro ⟨member, own⟩
    exact ⟨member, (woven.line rev member).mpr own⟩
  · rintro ⟨member, key⟩
    exact ⟨member, (woven.line rev member).mp key⟩

theorem Woven.parent (line : h.Line k mode) (records : h.Records rev) (key : rev.key = k)
    {parent : Iri} (listed : parent ∈ rev.parentRevisions) (there : ∃ held ∈ s.revisions, held.revisionId = parent) :
    ∃ held ∈ s.revisions, held.revisionId = parent ∧ held.key = k := by
  obtain ⟨held, member, named⟩ := there
  obtain ⟨made, found, same⟩ := records
  have on := line.parents _ made found (same.key.symm.trans key) parent (same.parents ▸ listed)
  refine ⟨held, member, named, woven.key member ?_⟩
  rw [named]
  exact on

theorem Woven.dag_closed (line : h.Line k mode) : Closed (s.dag e) := by
  intro rev member parent listed
  obtain ⟨inside, key⟩ := woven.mem_dag.mp member
  obtain ⟨held, there, named, own⟩ := woven.parent line (woven.recorded rev inside) key listed (woven.closed rev inside key parent listed)
  exact ⟨held, woven.mem_dag.mpr ⟨there, own⟩, named⟩

theorem Woven.dag_recorded : ∀ rev ∈ s.dag e, h.Records rev :=
  fun rev member => woven.recorded rev (StateStore.mem_dag.mp member).1

theorem Woven.behind (line : h.Line k mode) {a : Iri} (member : rev ∈ s.revisions) (key : rev.key = k)
    (path : h.Anc a rev.revisionId) : ∃ held ∈ s.revisions, held.revisionId = a ∧ held.key = k := by
  have inside : ∃ held ∈ s.dag e, held.revisionId = rev.revisionId := ⟨rev, woven.mem_dag.mpr ⟨member, key⟩, rfl⟩
  obtain ⟨_, held, there, named⟩ := path.ancestor woven.dag_recorded (woven.dag_closed line) inside
  obtain ⟨member, key⟩ := woven.mem_dag.mp there
  exact ⟨held, member, named, key⟩

theorem Woven.grow (extended : h.Extends more) : Woven more own k s e head :=
  { woven with
    recorded := fun rev member => (woven.recorded rev member).grow extended
    tight := fun rev member key => (woven.tight rev member key).grow extended }

end

variable {next : Iri} {added : List StateRevision}

theorem Woven.onward (woven : Woven h own k s e head) (extended : h.Extends more)
    (revisions : t.revisions = s.revisions ++ added) (keys : t.keys = s.keys) (ids : t.ids = s.ids)
    (conflicts : ∀ e', own e' → t.conflicts[e']? = none)
    (entry : ∃ entry, t.entries[e]? = some entry ∧ entry.key = k ∧ entry.headRevision = next)
    (each : ∀ rev ∈ added, more.Records rev ∧ rev.key = k ∧ rev.entryId = e ∧ more.Anc rev.revisionId next)
    (parents : ∀ rev ∈ added, ∀ parent ∈ rev.parentRevisions, ∃ held ∈ t.revisions, held.revisionId = parent)
    (headed : ∃ rev ∈ added, rev.revisionId = next) (ahead : more.Anc head next) : Woven more own k t e next := by
  have old : ∀ rev ∈ s.revisions, rev ∈ t.revisions := fun rev member => revisions ▸ mem_append_left _ member
  have cases_ : ∀ rev ∈ t.revisions, rev ∈ s.revisions ∨ rev ∈ added := fun rev member => mem_append.mp (revisions ▸ member)
  refine ⟨?_, ?_, ?_, ?_, entry, ?_, ?_, keys ▸ woven.keyed, keys ▸ woven.alone, woven.owned, ids ▸ woven.primary, ids ▸ woven.aimed,
    conflicts⟩
  · intro rev member
    rcases cases_ rev member with before | new
    · exact (woven.recorded rev before).grow extended
    · exact (each rev new).1
  · intro rev member
    rcases cases_ rev member with before | new
    · exact woven.line rev before
    · exact iff_of_true (each rev new).2.1 (each rev new).2.2.1
  · intro rev member stands
    rcases cases_ rev member with before | new
    · exact woven.only rev before stands
    · exact (each rev new).2.1
  · intro rev member key parent listed
    rcases cases_ rev member with before | new
    · obtain ⟨held, there, named⟩ := woven.closed rev before key parent listed
      exact ⟨held, old held there, named⟩
    · exact parents rev new parent listed
  · obtain ⟨rev, new, named⟩ := headed
    exact ⟨rev, revisions ▸ mem_append_right _ new, named, (each rev new).2.1⟩
  · intro rev member key
    rcases cases_ rev member with before | new
    · exact ((woven.tight rev before key).grow extended).trans ahead
    · exact (each rev new).2.2.2

variable {ours : StateRevision}

theorem autoMerged_line {base : Option StateRevision} (merges : mode ≠ .conflict)
    (mine : Automatic mode ours) (theirs : Automatic mode rev)
    (shared : ∀ held, base = some held → Automatic mode held) :
    ∃ payload, autoMerged ours rev base = some payload ∧
      ∃ value, payload = .runtime ⟨value, mode⟩ ∧ (mode = .append → ∃ items, value = .array items) := by
  obtain ⟨value, payload, array⟩ := mine
  obtain ⟨value', payload', array'⟩ := theirs
  unfold autoMerged
  rw [payload, payload']
  cases mode with
  | conflict => exact absurd rfl merges
  | append =>
    obtain ⟨items, rfl⟩ := array rfl
    obtain ⟨items', rfl⟩ := array' rfl
    rcases base with _ | held
    · exact ⟨_, rfl, _, rfl, fun _ => ⟨_, rfl⟩⟩
    obtain ⟨value, own, list⟩ := shared held rfl
    obtain ⟨before, rfl⟩ := list rfl
    simp only [map_some, own]
    exact ⟨_, rfl, _, rfl, fun _ => ⟨_, rfl⟩⟩
  | lastWriter =>
    refine ⟨_, rfl, ?_⟩
    unfold computeLastWriterMerge
    split
    · exact ⟨value, payload, nofun⟩
    · exact ⟨value', payload', nofun⟩

structure Advances (h : History) (own : Iri → Prop) (k : Key) (mode : MergeMode) (s : StateStore) (head : Iri) (more : History)
    (t : StateStore) (next : Iri) : Prop where
  extended : h.Extends more
  line : more.Line k mode
  woven : ∃ e, Woven more own k t e next
  ahead : more.Anc head next
  origin : ∀ id made, more id = some made → h id = some made ∨ ∃ rev ∈ t.revisions, rev.revisionId = id
  kept : ∀ rev ∈ s.revisions, ∃ held ∈ t.revisions, held.revisionId = rev.revisionId
  /-- A revision that arrives beside the head, or as a graft, makes another graft. -/
  forced : ∀ rev ∈ t.revisions, rev.key = k → Fresh s rev.revisionId → h.On k rev.revisionId →
    h.Graft k rev.revisionId ∨ ¬ h.Anc head rev.revisionId → ∃ made ∈ t.revisions, h made.revisionId = none ∧ more.Graft k made.revisionId

theorem Advances.refl (woven : Woven h own k s e head) (line : h.Line k mode) : Advances h own k mode s head h s head := by
  refine ⟨fun _ _ found => found, line, ⟨e, woven⟩, .self _, fun _ _ found => .inl found, fun rev member => ⟨rev, member, rfl⟩, ?_⟩
  intro rev member _ unknown
  exact absurd rfl (unknown rev member)

theorem Advances.trans {last : History} {mid : Iri} {u : StateStore} (first : Advances h own k mode s head more t mid)
    (line : h.Line k mode) (second : Advances more own k mode t mid last u next) : Advances h own k mode s head last u next := by
  refine ⟨first.extended.trans second.extended, second.line, second.woven, (first.ahead.grow second.extended).trans second.ahead,
    ?_, ?_, ?_⟩
  · intro id made found
    rcases second.origin id made found with before | here
    · rcases first.origin id made before with older | ⟨rev, member, named⟩
      · exact .inl older
      · obtain ⟨held, there, same⟩ := second.kept rev member
        exact .inr ⟨held, there, same.trans named⟩
    · exact .inr here
  · intro rev member
    obtain ⟨held, there, same⟩ := first.kept rev member
    obtain ⟨held', there', same'⟩ := second.kept held there
    exact ⟨held', there', same'.trans same⟩
  · intro rev member key unknown on beside
    by_cases early : ∃ held ∈ t.revisions, held.revisionId = rev.revisionId
    · obtain ⟨held, there, named⟩ := early
      obtain ⟨e, woven⟩ := first.woven
      rw [← named] at unknown on beside
      have own : held.key = k := woven.key there (on.grow first.extended)
      obtain ⟨made, inside, new, graft⟩ := first.forced held there own unknown on beside
      obtain ⟨later, kept, same⟩ := second.kept made inside
      refine ⟨later, kept, ?_, ?_⟩
      · rw [same]
        exact new
      · rw [same]
        exact graft.grow first.line second.extended
    · have still : Fresh t rev.revisionId := fun held there named => early ⟨held, there, named⟩
      have stays : more.Graft k rev.revisionId ∨ ¬ more.Anc mid rev.revisionId := by
        refine beside.imp (fun graft => graft.grow line first.extended) ?_
        intro apart path
        exact apart ((first.ahead.trans path).back line first.extended on).1
      obtain ⟨made, inside, new, graft⟩ := second.forced rev member key still (on.grow first.extended) stays
      refine ⟨made, inside, ?_, graft⟩
      cases found : h made.revisionId with
      | none => rfl
      | some before => exact absurd (first.extended _ _ found) (by rw [new]; exact nofun)

variable {existing : StateEntry}

section

variable (woven : Woven h own k s e head) (line : h.Line k mode) (records : h.Records rev) (key : rev.key = k) (named : rev.entryId = e) (parents : ∀ parent ∈ rev.parentRevisions, ∃ held ∈ s.revisions, held.revisionId = parent)

include woven line records key named parents

theorem Woven.fastForward
    (itsKey : existing.key = k) (ahead : h.Anc head rev.revisionId) (unknown : Fresh s rev.revisionId) :
    Advances h own k mode s head h ((s.append rev).fastForward existing rev) rev.revisionId := by
  obtain ⟨entries, keys, revisions, ids⟩ := @fastForward_shape (s.append rev) existing rev
  have inside : ∀ held ∈ s.revisions, held ∈ ((s.append rev).fastForward existing rev).revisions := by
    intro held member
    rw [revisions]
    exact mem_append_left _ member
  have conflicts : ((s.append rev).fastForward existing rev).conflicts = s.conflicts := by
    unfold StateStore.fastForward
    have none : (s.append rev).conflicts[rev.entryId]? = none := woven.clear rev.entryId (named ▸ woven.owned)
    rw [none]
    rfl
  refine ⟨fun _ _ found => found, line, ⟨e, ?_⟩, ahead, fun _ _ found => .inl found, fun held member => ⟨held, inside held member, rfl⟩, ?_⟩
  · refine woven.onward (fun _ _ found => found) revisions keys ids ?_ ⟨forwarded existing rev, ?_, itsKey, rfl⟩ ?_ ?_
      ⟨rev, mem_singleton.mpr rfl, rfl⟩ ahead
    · rw [conflicts]
      exact woven.clear
    · rw [entries, named]
      exact insert_same _ _
    · intro held member
      rw [mem_singleton.mp member]
      exact ⟨records, key, named, .self _⟩
    · intro held member parent listed
      rw [mem_singleton.mp member] at listed
      obtain ⟨before, member, same⟩ := parents parent listed
      exact ⟨before, inside before member, same⟩
  · intro held member own fresh on beside
    rw [revisions] at member
    rcases mem_append.mp member with old | new
    · exact absurd rfl (fresh held old)
    rw [mem_singleton.mp new] at beside
    rcases beside with graft | apart
    · refine absurd ahead (graft.not_ahead ?_ ?_)
      · intro same
        obtain ⟨top, inside, isHead, _⟩ := woven.headed
        exact unknown top inside (isHead.trans same.symm)
      intro made found parent listed
      obtain ⟨made', found', same⟩ := records
      cases found.symm.trans found'
      rw [← same.parents] at listed
      obtain ⟨before, member, isParent, itsKey⟩ := woven.parent line ⟨made, found, same⟩ key listed (parents parent listed)
      rw [← isParent]
      exact woven.tight before member itsKey
    · exact absurd ahead apart

theorem Woven.merge
    (headed : existing.headRevision = head) (itsKey : existing.key = k) (notAhead : ¬ h.Anc head rev.revisionId)
    (notBehind : ¬ h.Anc rev.revisionId head) (fresh : h minted = none) {payload : StatePayload}
    (automatic : ∃ value, payload = .runtime ⟨value, mode⟩ ∧ (mode = .append → ∃ items, value = .array items)) :
    ∃ more, Advances h own k mode s head more (((s.append rev).append (mergeRevision existing ours rev payload mergeAt minted)).putEntry
      (headedBy existing (mergeRevision existing ours rev payload mergeAt minted))) minted := by
  generalize made : mergeRevision existing ours rev payload mergeAt minted = merged
  have mergedId : merged.revisionId = minted := by
    rw [← made]
    rfl
  have mergedKey : merged.key = k := by
    rw [← made]
    exact itsKey
  have mergedEntry : merged.entryId = e := by
    rw [← made]
    exact named
  have mergedParents : ∀ parent, parent ∈ merged.parentRevisions ↔ parent = head ∨ parent = rev.revisionId := by
    intro parent
    rw [← made, ← headed]
    exact mem_sortedParents
  have mergedPayload : Automatic mode merged := by
    rw [← made]
    exact automatic
  have freshId : h merged.revisionId = none := by
    rw [mergedId]
    exact fresh
  obtain ⟨top, topInside, topNamed, topKey⟩ := woven.headed
  have headOn : h.On k head := topNamed ▸ woven.on topInside topKey
  have revOn : h.On k rev.revisionId := by
    obtain ⟨found, known, same⟩ := records
    exact ⟨found, known, same.key.symm.trans key⟩
  have extended := add_extends freshId
  have found := add_same h merged
  have line' : (h.add merged).Line k mode := by
    refine line.add freshId (fun _ => mergedPayload) ?_
    intro _ parent listed
    rcases (mergedParents parent).mp listed with rfl | rfl
    · exact headOn
    · exact revOn
  have graft : (h.add merged).Graft k merged.revisionId :=
    graft_add line freshId mergedKey mergedParents headOn revOn notAhead notBehind
  have headBehind : (h.add merged).Anc head merged.revisionId := .of_parent found ((mergedParents head).mpr (.inl rfl))
  have revBehind : (h.add merged).Anc rev.revisionId merged.revisionId := .of_parent found ((mergedParents _).mpr (.inr rfl))
  have revisions : (((s.append rev).append merged).putEntry (headedBy existing merged)).revisions = s.revisions ++ [rev, merged] :=
    append_assoc _ _ _
  have two : ∀ held ∈ [rev, merged], held = rev ∨ held = merged := by simp
  have inside : ∀ held ∈ s.revisions, held ∈ (((s.append rev).append merged).putEntry (headedBy existing merged)).revisions := by
    intro held member
    rw [revisions]
    exact mem_append_left _ member
  have newest : merged ∈ (((s.append rev).append merged).putEntry (headedBy existing merged)).revisions := by
    rw [revisions]
    exact mem_append_right _ (mem_cons_of_mem _ mem_cons_self)
  rw [← mergedId]
  refine ⟨h.add merged, extended, line', ⟨e, ?_⟩, headBehind, ?_, fun held member => ⟨held, inside held member, rfl⟩, ?_⟩
  · refine woven.onward extended revisions rfl rfl woven.clear ⟨headedBy existing merged, ?_, itsKey, rfl⟩ ?_ ?_
      ⟨merged, mem_cons_of_mem _ mem_cons_self, rfl⟩ headBehind
    · change (s.entries.insert merged.entryId _)[e]? = _
      rw [mergedEntry]
      exact insert_same _ _
    · intro held member
      rcases two held member with rfl | rfl
      · exact ⟨records.grow extended, key, named, revBehind⟩
      · exact ⟨⟨_, found, .refl _⟩, mergedKey, mergedEntry, .self _⟩
    intro held member parent listed
    rcases two held member with rfl | rfl
    · obtain ⟨before, member, same⟩ := parents parent listed
      exact ⟨before, inside before member, same⟩
    rcases (mergedParents parent).mp listed with rfl | rfl
    · exact ⟨top, inside top topInside, topNamed⟩
    · refine ⟨rev, ?_, rfl⟩
      rw [revisions]
      exact mem_append_right _ mem_cons_self
  · intro id before known
    unfold add at known
    split at known
    · rename_i same
      exact .inr ⟨merged, newest, same.symm⟩
    · exact .inl known
  · intro _ _ _ _ _ _
    exact ⟨merged, newest, freshId, graft⟩

theorem Woven.advance
    (headed : existing.headRevision = head) (itsKey : existing.key = k) (unknown : Fresh s rev.revisionId) (fresh : h minted = none)
    (done : (s.append rev).advance existing rev mergeAt minted = .ok t) : ∃ more next, Advances h own k mode s head more t next := by
  have dag : (s.append rev).dag rev.entryId = s.dag e ++ [rev] := by
    rw [named]
    exact dag_append_own named
  have recorded : ∀ held ∈ s.dag e ++ [rev], h.Records held := by
    intro held member
    rcases mem_append.mp member with old | new
    · exact woven.dag_recorded held old
    · rw [mem_singleton.mp new]
      exact records
  have closed : Closed (s.dag e ++ [rev]) := by
    intro held member parent listed
    rcases mem_append.mp member with old | new
    · obtain ⟨before, there, same⟩ := woven.dag_closed line held old parent listed
      exact ⟨before, mem_append_left _ there, same⟩
    · rw [mem_singleton.mp new] at listed
      obtain ⟨before, there, same, own⟩ := woven.parent line records key listed (parents parent listed)
      exact ⟨before, mem_append_left _ (woven.mem_dag.mpr ⟨there, own⟩), same⟩
  obtain ⟨top, topInside, topNamed, topKey⟩ := woven.headed
  have topThere : top ∈ s.dag e := woven.mem_dag.mpr ⟨topInside, topKey⟩
  have notBehind : ¬ h.Anc rev.revisionId head := by
    intro path
    rw [← topNamed] at path
    obtain ⟨held, member, same, _⟩ := woven.behind line topInside topKey path
    exact unknown held member same
  have automatic : ∀ held ∈ s.dag e ++ [rev], Automatic mode held := by
    intro held member
    obtain ⟨made, found, same⟩ := recorded held member
    have itsKey : held.key = k := by
      rcases mem_append.mp member with old | new
      · exact (woven.mem_dag.mp old).2
      · rw [mem_singleton.mp new]
        exact key
    obtain ⟨value, payload, array⟩ := line.automatic _ made found (same.key.symm.trans itsKey)
    exact ⟨value, same.payload.trans payload, array⟩
  unfold StateStore.advance at done
  rw [dag, headed] at done
  by_cases ahead : isAncestorInDag head rev.revisionId (s.dag e ++ [rev]) = true
  · have taken : course (s.dag e ++ [rev]) head rev = .fastForward := by
      unfold course
      rw [if_pos ahead]
    rw [taken] at done
    have same := Except.ok.inj done
    subst same
    exact ⟨h, rev.revisionId, woven.fastForward line records key named parents itsKey ((isAncestorInDag_iff.mp ahead).anc recorded) unknown⟩
  · have behind : ¬ isAncestorInDag rev.revisionId head (s.dag e ++ [rev]) = true :=
      fun path => notBehind ((isAncestorInDag_iff.mp path).anc recorded)
    have notAhead : ¬ h.Anc head rev.revisionId := by
      intro path
      obtain ⟨within, _⟩ := path.ancestor recorded closed ⟨rev, mem_append_right _ (mem_singleton.mpr rfl), rfl⟩
      exact ahead (isAncestorInDag_iff.mpr within)
    obtain ⟨ours, found⟩ : ∃ ours, (s.dag e ++ [rev]).find? (fun held => decide (held.revisionId = head)) = some ours := by
      cases found : (s.dag e ++ [rev]).find? fun held => decide (held.revisionId = head) with
      | some ours => exact ⟨ours, rfl⟩
      | none =>
        rw [find?_eq_none] at found
        exact absurd (decide_eq_true topNamed) (found top (mem_append_left _ topThere))
    have oursThere := mem_of_find?_eq_some found
    let base := (lowestCommonAncestorInDag head rev.revisionId (s.dag e ++ [rev])).bind fun id =>
      (s.dag e ++ [rev]).find? fun held => decide (held.revisionId = id)
    have shared : ∀ held, base = some held → Automatic mode held := by
      intro held same
      obtain ⟨id, _, there⟩ := bind_eq_some_iff.mp same
      exact automatic held (mem_of_find?_eq_some there)
    obtain ⟨payload, merges, ofMode⟩ := autoMerged_line line.merges (automatic ours oursThere)
      (automatic rev (mem_append_right _ (mem_singleton.mpr rfl))) shared
    have taken : course (s.dag e ++ [rev]) head rev = .merge ours payload := by
      unfold course
      rw [if_neg ahead, if_neg behind, found]
      dsimp only
      rw [show autoMerged ours rev ((lowestCommonAncestorInDag head rev.revisionId (s.dag e ++ [rev])).bind fun id =>
        (s.dag e ++ [rev]).find? fun held => decide (held.revisionId = id)) = some payload from merges]
    rw [taken] at done
    have same := Except.ok.inj done
    subst same
    obtain ⟨more, advances⟩ := woven.merge line records key named parents headed itsKey notAhead notBehind fresh ofMode
    exact ⟨more, minted, advances⟩

end

theorem adoptId_held (s : StateStore) (rev : StateRevision) {held : StateRevision} (member : held ∈ s.revisions) :
    ∃ moved ∈ (s.adoptId rev).revisions, moved.Same held :=
  (adoptId_logs s rev).holds ⟨held, member, .refl held⟩

theorem Woven.rename (woven : Woven h own k s e head) {new : Iri} (stands : own new) (apart : e ≠ new) :
    Woven h own k (s.rename k e new) new head := by
  have logs := @rename_logs s k e new
  have moves : ∀ held ∈ s.revisions, ∃ moved ∈ (s.rename k e new).revisions, moved.Same held :=
    fun held member => logs.holds ⟨held, member, .refl held⟩
  have conflicts : (s.rename k e new).conflicts = s.conflicts := by
    simp only [StateStore.rename, woven.clear e woven.owned]
  obtain ⟨entry, there, itsKey, headed⟩ := woven.entry
  refine ⟨?_, ?_, ?_, ?_, ⟨{ entry with id := new }, ?_, itsKey, headed⟩, ?_, ?_, ?_, ?_, stands, ?_, ?_, ?_⟩
  · intro rev member
    rcases logs.from member with ⟨held, inside, same⟩ | added
    · exact (woven.recorded held inside).same same.symm
    · cases added
  · intro rev member
    rcases mem_rename member with ⟨before, inside, named, rfl⟩ | ⟨inside, named⟩
    · exact iff_of_true ((woven.line before inside).mpr named) rfl
    · refine iff_of_false (fun key => named ((woven.line rev inside).mp key)) ?_
      intro same
      exact named ((woven.line rev inside).mp (woven.only rev inside (same ▸ stands)))
  · intro rev member stands
    rcases mem_rename member with ⟨before, inside, named, rfl⟩ | ⟨inside, _⟩
    · exact (woven.line before inside).mpr named
    · exact woven.only rev inside stands
  · intro rev member key parent listed
    rcases logs.from member with ⟨held, inside, same⟩ | added
    · obtain ⟨before, inside', named⟩ := woven.closed held inside (same.key.trans key) parent (same.parents ▸ listed)
      obtain ⟨moved, there', equal⟩ := moves before inside'
      exact ⟨moved, there', equal.id.trans named⟩
    · cases added
  · rw [rename_entries there, if_pos rfl]
  · obtain ⟨top, inside, named, key⟩ := woven.headed
    obtain ⟨moved, there', equal⟩ := moves top inside
    exact ⟨moved, there', equal.id.trans named, equal.key.trans key⟩
  · intro rev member key
    rcases logs.from member with ⟨held, inside, same⟩ | added
    · rw [← same.id]
      exact woven.tight held inside (same.key.trans key)
    · cases added
  · rw [rename_keys, if_pos rfl]
  · intro other e' held stands
    rw [rename_keys] at held
    split at held
    · exact (‹k = other›).symm
    · exact woven.alone other e' held stands
  · change (s.ids.aliasUnpublished .state e new).rows[new]? = _
    rw [Ids.aliasUnpublished_rows apart, if_pos rfl]
  · intro id primary aliased stands
    change (s.ids.aliasUnpublished .state e new).aliases[id]? = _ at aliased
    rw [Ids.aliasUnpublished_aliases apart] at aliased
    split at aliased
    · exact (some.inj aliased).symm
    rcases before : s.ids.aliases[id]? with _ | target
    · rw [before] at aliased
      cases aliased
    rw [before, map_some] at aliased
    split at aliased
    · exact (some.inj aliased).symm
    rename_i differs
    have same := some.inj aliased
    rw [same] at before differs
    exact absurd (woven.aimed id primary before stands) differs
  · rw [conflicts]
    exact woven.clear

theorem Woven.adoptId (woven : Woven h own k s e head) (key : rev.key = k) (stands : own rev.entryId) :
    Woven h own k (s.adoptId rev) rev.entryId head := by
  unfold StateStore.adoptId
  rw [key, woven.keyed]
  dsimp only
  split
  · rename_i same
    exact same ▸ woven
  · exact woven.rename stands ‹_›

theorem Advances.of_adopted (advances : Advances h own k mode (s.adoptId rev) head more t next) :
    Advances h own k mode s head more t next := by
  refine { advances with kept := ?_, forced := ?_ }
  · intro held member
    obtain ⟨moved, there, same⟩ := adoptId_held s rev member
    obtain ⟨last, inside, equal⟩ := advances.kept moved there
    exact ⟨last, inside, equal.trans same.id⟩
  · intro held member itsKey unknown
    exact advances.forced held member itsKey (adoptId_fresh unknown)

theorem checkParents_ok (done : s.checkParents rev = .ok ()) :
    ∀ parent ∈ rev.parentRevisions, ∃ held ∈ s.revisions, held.revisionId = parent := by
  unfold checkParents at done
  split at done
  · cases done
  rename_i none
  rw [find?_eq_none] at none
  intro parent listed
  have there := none parent listed
  cases found : s.revision? parent with
  | none =>
    rw [found] at there
    exact absurd rfl there
  | some held =>
    have matched := find?_some found
    exact ⟨held, mem_of_find?_eq_some found, of_decide_eq_true matched⟩

section

variable (woven : Woven h own k s e head)

include woven

theorem Woven.applyImported (line : h.Line k mode) (records : h.Records rev) (key : rev.key = k)
    (stands : own rev.entryId) (unknown : Fresh s rev.revisionId) (fresh : h minted = none)
    (checked : s.checkParents rev = .ok ()) (done : (s.adoptId rev).fileImported rev mergeAt minted = .ok t) :
    ∃ more next, Advances h own k mode s head more t next := by
  have adopted := woven.adoptId key stands
  have parents : ∀ parent ∈ rev.parentRevisions, ∃ held ∈ (s.adoptId rev).revisions, held.revisionId = parent := by
    intro parent listed
    obtain ⟨held, member, named⟩ := checkParents_ok checked parent listed
    obtain ⟨moved, there, same⟩ := adoptId_held s rev member
    exact ⟨moved, there, same.id.trans named⟩
  obtain ⟨resolved, ids, found, imported, outcome⟩ := fileImported_ok done
  have itself : resolved = rev.entryId := by
    rw [Ids.resolve_of_kind adopted.primary] at found
    exact (Except.ok.inj found).symm
  subst itself
  have kept : ids = (s.adoptId rev).ids := by
    unfold Ids.indexImported at imported
    rw [adopted.primary] at imported
    exact (Except.ok.inj imported).symm
  subst kept
  obtain ⟨entry, there, itsKey, headed⟩ := adopted.entry
  obtain ⟨existing, held, _, done⟩ | ⟨free, _⟩ := outcome
  rotate_left
  · rw [there] at free
    cases free
  rw [there] at held
  cases held
  obtain ⟨more, next, advances⟩ := adopted.advance line records key rfl parents headed itsKey (adoptId_fresh unknown) fresh done
  exact ⟨more, next, advances.of_adopted⟩

/-! ### A revision of another key arrives -/

theorem Woven.elsewhere (line : h.Line k mode) (extended : h.Extends more)
    (same : ∀ rev : StateRevision, rev.key = k → (rev ∈ t.revisions ↔ rev ∈ s.revisions)) (recorded : ∀ rev ∈ t.revisions, more.Records rev)
    (only : ∀ rev ∈ t.revisions, own rev.entryId → rev.key = k) (entry : t.entries[e]? = s.entries[e]?) (keyed : t.keys[k]? = s.keys[k]?)
    (alone : ∀ (other : Key) e', t.keys[other]? = some e' → own e' → other = k) (primary : t.ids.rows[e]? = s.ids.rows[e]?)
    (aimed : ∀ id primary : Iri, t.ids.aliases[id]? = some primary → own primary → primary = e)
    (clear : ∀ e', own e' → t.conflicts[e']? = none) : Woven more own k t e head := by
  refine ⟨recorded, ?_, only, ?_, entry ▸ woven.entry, ?_, ?_, keyed ▸ woven.keyed, alone, woven.owned, primary ▸ woven.primary, aimed, clear⟩
  · intro rev member
    constructor
    · intro key
      exact (woven.line rev ((same rev key).mp member)).mp key
    · intro named
      exact only rev member (named ▸ woven.owned)
  · intro rev member key parent listed
    have before := (same rev key).mp member
    obtain ⟨held, there, named, own⟩ :=
      woven.parent line (woven.recorded rev before) key listed (woven.closed rev before key parent listed)
    exact ⟨held, (same held own).mpr there, named⟩
  · obtain ⟨top, there, named, key⟩ := woven.headed
    exact ⟨top, (same top key).mpr there, named, key⟩
  · intro rev member key
    exact (woven.tight rev ((same rev key).mp member) key).grow extended

theorem Woven.rename_other (line : h.Line k mode) {other : Key} {old new : Iri} (differs : other ≠ k)
    (notOld : ¬ own old) (notNew : ¬ own new) (apart : old ≠ new) : Woven h own k (s.rename other old new) e head := by
  have logs := @rename_logs s other old new
  have eOld : e ≠ old := fun same => notOld (same ▸ woven.owned)
  have eNew : e ≠ new := fun same => notNew (same ▸ woven.owned)
  refine woven.elsewhere line (fun _ _ found => found) ?_ ?_ ?_ ?_ ?_ ?_ ?_ ?_ ?_
  · intro rev key
    constructor
    · intro member
      rcases mem_rename member with ⟨before, inside, named, rfl⟩ | ⟨inside, _⟩
      · have mine := (woven.line before inside).mp key
        exact absurd (mine.symm.trans named) eOld
      · exact inside
    · intro member
      refine mem_map.mpr ⟨rev, member, if_neg ?_⟩
      intro named
      exact eOld (((woven.line rev member).mp key).symm.trans named)
  · intro rev member
    rcases logs.from member with ⟨held, inside, same⟩ | added
    · exact (woven.recorded held inside).same same.symm
    · cases added
  · intro rev member stands
    rcases mem_rename member with ⟨before, inside, named, rfl⟩ | ⟨inside, _⟩
    · exact absurd stands notNew
    · exact woven.only rev inside stands
  · simp only [StateStore.rename]
    split
    · rw [insert_other _ _ e eNew, erase_other _ e eOld]
    · rfl
  · rw [rename_keys, if_neg differs]
  · intro key e' held stands
    rw [rename_keys] at held
    split at held
    · exact absurd (some.inj held ▸ stands) notNew
    · exact woven.alone key e' held stands
  · change (s.ids.aliasUnpublished .state old new).rows[e]? = _
    rw [Ids.aliasUnpublished_rows apart, if_neg (Ne.symm eNew), if_neg (Ne.symm eOld)]
  · intro id primary aliased stands
    change (s.ids.aliasUnpublished .state old new).aliases[id]? = _ at aliased
    rw [Ids.aliasUnpublished_aliases apart] at aliased
    split at aliased
    · exact absurd (some.inj aliased ▸ stands) notNew
    rcases before : s.ids.aliases[id]? with _ | target
    · rw [before] at aliased
      cases aliased
    rw [before, map_some] at aliased
    split at aliased
    · exact absurd (some.inj aliased ▸ stands) notNew
    · have same := some.inj aliased
      exact woven.aimed id primary (same ▸ before) stands
  · intro e' stands
    have fromOld : e' ≠ old := fun same => notOld (same ▸ stands)
    have fromNew : e' ≠ new := fun same => notNew (same ▸ stands)
    rw [rename_conflicts_other fromOld fromNew]
    exact woven.clear e' stands

theorem Woven.adoptId_other (line : h.Line k mode) (differs : rev.key ≠ k) (notOwn : ¬ own rev.entryId) :
    Woven h own k (s.adoptId rev) e head := by
  unfold StateStore.adoptId
  split
  · rename_i existing keyed
    split
    · exact woven
    · exact woven.rename_other line differs (fun stands => differs (woven.alone _ _ keyed stands)) notOwn ‹_›
  · exact woven

end

theorem advance_frame (done : (s.append rev).advance existing rev mergeAt minted = .ok t) :
    t.keys = s.keys ∧ t.ids = s.ids ∧ ∀ other, other ≠ rev.entryId → t.conflicts[other]? = s.conflicts[other]? := by
  unfold StateStore.advance at done
  split at done
  · have same := Except.ok.inj done
    subst same
    obtain ⟨_, keys, _, ids⟩ := @fastForward_shape (s.append rev) existing rev
    refine ⟨keys, ids, ?_⟩
    intro other apart
    unfold StateStore.fastForward
    dsimp only
    split
    · split
      · exact erase_other _ other apart
      · rfl
    · rfl
  · cases done
    exact ⟨rfl, rfl, fun _ _ => rfl⟩
  · cases done
  · have same := Except.ok.inj done
    subst same
    exact ⟨rfl, rfl, fun _ _ => rfl⟩
  · have same := Except.ok.inj done
    subst same
    exact ⟨rfl, rfl, fun other apart => insert_other _ _ other apart⟩

theorem Woven.append_other (woven : Woven h own k s e head) (line : h.Line k mode) (extended : h.Extends more)
    (revisions : t.revisions = s.revisions ++ added) (each : ∀ rev ∈ added, more.Records rev ∧ rev.key ≠ k ∧ ¬ own rev.entryId)
    (entry : t.entries[e]? = s.entries[e]?) (keyed : t.keys[k]? = s.keys[k]?)
    (alone : ∀ (other : Key) e', t.keys[other]? = some e' → own e' → other = k) (primary : t.ids.rows[e]? = s.ids.rows[e]?)
    (aliases : t.ids.aliases = s.ids.aliases) (conflicts : ∀ e', own e' → t.conflicts[e']? = s.conflicts[e']?) :
    Woven more own k t e head := by
  refine woven.elsewhere line extended ?_ ?_ ?_ entry keyed alone primary (aliases ▸ woven.aimed) ?_
  · intro rev key
    rw [revisions, mem_append]
    exact or_iff_left fun new => (each rev new).2.1 key
  · intro rev member
    rw [revisions] at member
    rcases mem_append.mp member with old | new
    · exact (woven.recorded rev old).grow extended
    · exact (each rev new).1
  · intro rev member stands
    rw [revisions] at member
    rcases mem_append.mp member with old | new
    · exact woven.only rev old stands
    · exact absurd stands (each rev new).2.2
  · intro e' stands
    rw [conflicts e' stands]
    exact woven.clear e' stands

theorem Advances.of_other (woven : Woven more own k t e head) (line : more.Line k mode) (extended : h.Extends more)
    (revisions : t.revisions = s.revisions ++ added) (each : ∀ rev ∈ added, rev.key ≠ k)
    (origin : ∀ id made, more id = some made → h id = some made ∨ ∃ rev ∈ t.revisions, rev.revisionId = id) :
    Advances h own k mode s head more t head := by
  refine ⟨extended, line, ⟨e, woven⟩, .self _, origin, ?_, ?_⟩
  · intro rev member
    exact ⟨rev, revisions ▸ mem_append_left _ member, rfl⟩
  intro rev member key unknown
  rw [revisions] at member
  rcases mem_append.mp member with old | new
  · exact absurd rfl (unknown rev old)
  · exact absurd key (each rev new)

theorem resolve_cases {ids : Ids} {id primary : Iri} (found : ids.resolve id = .ok primary) :
    primary = id ∨ ids.aliases[id]? = some primary := by
  unfold Ids.resolve at found
  split at found
  · rename_i located
    cases found
    unfold Ids.locate at located
    split at located
    · cases located
    · cases located
      exact .inl rfl
    obtain ⟨⟨target, row⟩, read, located⟩ := bind_ok located
    unfold Ids.aliasPrimary at read
    split at read
    · cases read
    split at read
    · cases read
    cases read
    cases row with
    | kind kind =>
      cases located
      exact .inr ‹_›
    | aliased => cases located
  · cases found
    exact .inl rfl
  · cases found

variable {made : StateRevision}

section

variable (woven : Woven h own k s e head)

include woven

section

variable (line : h.Line k mode) (records : h.Records rev) (differs : rev.key ≠ k) (notOwn : ¬ own rev.entryId) (fresh : h minted = none)

include line records differs notOwn fresh

/-- A revision of another key is filed behind its checks, under an id that does not stand for the line. -/
theorem Woven.fileImported_other (done : s.fileImported rev mergeAt minted = .ok t) :
    ∃ more next, Advances h own k mode s head more t next := by
  obtain ⟨resolved, ids, found, imported, outcome⟩ := fileImported_ok done
  obtain ⟨aliases, _, rows⟩ := Ids.indexImported_ok imported
  have primary : ids.rows[e]? = s.ids.rows[e]? := (rows e _ woven.primary).trans woven.primary.symm
  have outside : ¬ own resolved := by
    intro stands
    -- An alias of the line's id leads to its entry, which has another key than the revision.
    have here : resolved = e := by
      rcases resolve_cases found with same | aliased
      · exact absurd (same ▸ stands) notOwn
      · exact woven.aimed _ _ aliased stands
    obtain ⟨entry, there, itsKey, _⟩ := woven.entry
    subst here
    rcases outcome with ⟨existing, held, equal, _⟩ | ⟨free, _⟩
    · rw [there] at held
      cases held
      exact differs (equal.symm.trans itsKey)
    · rw [there] at free
      cases free
  have apart : e ≠ resolved := fun same => outside (same ▸ woven.owned)
  have own' : h.Records { rev with entryId := resolved } := records.same rfl
  have each : ∀ held ∈ [{ rev with entryId := resolved }], h.Records held ∧ held.key ≠ k ∧ ¬ own held.entryId := by
    intro held member
    rw [mem_singleton.mp member]
    exact ⟨own', differs, outside⟩
  have same : h.Extends h := fun _ _ found => found
  rcases outcome with ⟨existing, there, itsKey, done⟩ | ⟨_, rfl⟩
  · obtain ⟨keys, sameIds, conflicts⟩ := advance_frame done
    have entry : t.entries[e]? = s.entries[e]? := advance_elsewhere done apart
    have keyed : t.keys[k]? = s.keys[k]? := congrArg (fun keys : ExtTreeMap Key Iri compare => keys[k]?) keys
    have alone : ∀ (other : Key) e', t.keys[other]? = some e' → own e' → other = k := by
      rw [keys]
      exact woven.alone
    have row : t.ids.rows[e]? = s.ids.rows[e]? := by
      rw [sameIds]
      exact primary
    have aliased : t.ids.aliases = s.ids.aliases := by
      rw [sameIds]
      exact aliases
    have quiet : ∀ e', own e' → t.conflicts[e']? = s.conflicts[e']? :=
      fun e' stands => conflicts e' fun same => outside ((show e' = resolved from same) ▸ stands)
    rcases advance_logs done with revisions | ⟨ours, payload, _, revisions⟩
    · exact ⟨h, head, .of_other (woven.append_other line same revisions each entry keyed alone row aliased quiet) line same revisions
        (fun held member => (each held member).2.1) fun _ _ found => .inl found⟩
    · generalize made : mergeRevision existing ours { rev with entryId := resolved } payload mergeAt minted = merged at revisions
      have mergedId : merged.revisionId = minted := by
        rw [← made]
        rfl
      have mergedKey : merged.key ≠ k := by
        rw [← made]
        exact fun same => differs (itsKey.symm.trans same)
      have mergedEntry : merged.entryId = resolved := by
        rw [← made]
        rfl
      have freshId : h merged.revisionId = none := by
        rw [mergedId]
        exact fresh
      have extended := add_extends freshId
      have each : ∀ held ∈ [{ rev with entryId := resolved }, merged], (h.add merged).Records held ∧ held.key ≠ k ∧ ¬ own held.entryId := by
        intro held member
        rcases mem_cons.mp member with first | second
        · rw [first]
          exact ⟨own'.grow extended, differs, outside⟩
        · rw [mem_singleton.mp second]
          exact ⟨⟨merged, add_same h merged, .refl _⟩, mergedKey, mergedEntry ▸ outside⟩
      have line' : (h.add merged).Line k mode := line.add freshId (fun same => absurd same mergedKey) fun same => absurd same mergedKey
      refine ⟨h.add merged, head, .of_other (woven.append_other line extended revisions each entry keyed alone row aliased quiet) line' extended
        revisions (fun held member => (each held member).2.1) ?_⟩
      intro id before known
      unfold add at known
      split at known
      · rename_i same
        refine .inr ⟨merged, ?_, same.symm⟩
        rw [revisions]
        exact mem_append_right _ (mem_cons_of_mem _ mem_cons_self)
      · exact .inl known
  · refine ⟨h, head, .of_other (woven.append_other line same rfl each ?_ ?_ ?_ primary aliases fun _ _ => rfl) line same rfl
      (fun held member => (each held member).2.1) fun _ _ found => .inl found⟩
    · exact insert_other _ _ e apart
    · change (s.keys.insert _ _)[k]? = _
      rw [Map.getElem?_insert, if_neg]
      exact differs
    intro other e' held stands
    change (s.keys.insert _ _)[other]? = _ at held
    rw [Map.getElem?_insert] at held
    split at held
    · have same : resolved = e' := some.inj held
      exact absurd (same ▸ stands) outside
    · exact woven.alone other e' held stands

theorem Woven.applyImported_other (done : (s.adoptId rev).fileImported rev mergeAt minted = .ok t) :
    ∃ more next, Advances h own k mode s head more t next := by
  obtain ⟨more, next, advances⟩ := (woven.adoptId_other line differs notOwn).fileImported_other line records differs notOwn fresh done
  exact ⟨more, next, advances.of_adopted⟩

end

theorem Woven.importRevision (line : h.Line k mode) (records : h.Records rev)
    (kin : own rev.entryId ↔ rev.key = k) (fresh : h minted = none) (done : s.importRevision rev mergeAt minted = .ok t) :
    ∃ more next, Advances h own k mode s head more t next := by
  obtain ⟨rfl, _⟩ | ⟨unknown, checked, done⟩ := importRevision_ok done
  · exact ⟨h, head, .refl woven line⟩
  · by_cases key : rev.key = k
    · exact woven.applyImported line records key (kin.mpr key) (fresh_iff.mp unknown) fresh checked done
    · exact woven.applyImported_other line records key (fun stands => key (kin.mp stands)) fresh done

theorem Woven.importStateRevisions {revs : List (StateRevision × Iri)} {used : Iri → Prop} (line : h.Line k mode)
    (known : ∀ id made, h id = some made → used id ∨ ∃ rev ∈ s.revisions, rev.revisionId = id)
    (records : ∀ pair ∈ revs, h.Records pair.1 ∧ (own pair.1.entryId ↔ pair.1.key = k))
    (anew : Importing (fun s _ minted => Fresh s minted ∧ ¬ used minted) mergeAt s revs)
    (done : s.importStateRevisions mergeAt revs = .ok t) : ∃ more next, Advances h own k mode s head more t next := by
  induction revs generalizing s h e head with
  | nil =>
    cases done
    exact ⟨h, head, .refl woven line⟩
  | cons first rest ih =>
    obtain ⟨rev, minted⟩ := first
    obtain ⟨mid, one, done⟩ := bind_ok done
    have fresh : h minted = none := by
      rcases found : h minted with _ | made
      · rfl
      rcases known minted made found with taken | ⟨held, member, named⟩
      · exact absurd taken anew.1.2
      · exact absurd named (anew.1.1 held member)
    obtain ⟨recorded, kin⟩ := records _ mem_cons_self
    obtain ⟨more, next, advances⟩ := woven.importRevision line recorded kin fresh one
    obtain ⟨e', woven'⟩ := advances.woven
    have knownNext : ∀ id made, more id = some made → used id ∨ ∃ rev ∈ mid.revisions, rev.revisionId = id := by
      intro id made found
      rcases advances.origin id made found with before | now
      · refine (known id made before).imp_right ?_
        rintro ⟨held, member, named⟩
        obtain ⟨later, there, same⟩ := advances.kept held member
        exact ⟨later, there, same.trans named⟩
      · exact .inr now
    obtain ⟨last, final, rest⟩ := ih woven' advances.line knownNext (fun pair member =>
      ⟨(records pair (mem_cons_of_mem _ member)).1.grow advances.extended, (records pair (mem_cons_of_mem _ member)).2⟩)
      (anew.2 mid one) done
    exact ⟨last, final, advances.trans line rest⟩

theorem Woven.unknown {id : Iri} (new : h id = none) : Fresh s id := by
  intro rev member named
  obtain ⟨made, found, _⟩ := woven.recorded rev member
  rw [named, new] at found
  cases found

theorem Woven.behind_head (line : h.Line k mode) {a : Iri} (path : h.Anc a head) :
    ∃ held ∈ s.revisions, held.revisionId = a ∧ held.key = k := by
  obtain ⟨top, inside, named, key⟩ := woven.headed
  rw [← named] at path
  exact woven.behind line inside key path

theorem Woven.head_on : h.On k head := by
  obtain ⟨top, inside, named, key⟩ := woven.headed
  exact named ▸ woven.on inside key

theorem Woven.graft_behind (member : made ∈ s.revisions)
    (graft : h.Graft k made.revisionId) : h.Anc made.revisionId head :=
  woven.tight made member (woven.key member graft.on)

end

theorem Woven.not_met (woven : Woven more own k t e head) (line : h.Line k mode) (extended : h.Extends more) {other : Iri}
    (on : h.On k other) (member : made ∈ t.revisions) (new : h made.revisionId = none)
    (graft : more.Graft k made.revisionId) : other ≠ head := by
  rintro rfl
  obtain ⟨before, found, _⟩ := ((woven.graft_behind member graft).back line extended on).2
  rw [new] at found
  cases found

/-- Two stores with heads beside each other import in turn, twice each: their heads are never the same. Each store
makes a graft when it gets the other's head, and another one for each graft of the other's. -/
theorem heads_never_meet {h₀ h₁ h₂ h₃ h₄ : History} {a₀ a₁ a₃ b₀ b₂ b₄ : StateStore} {idA idB headA headB headA₁ headA₃ headB₂ headB₄ : Iri}
    (line : h₀.Line k mode) (here : Woven h₀ own k a₀ idA headA) (there : Woven h₀ own k b₀ idB headB) (notBehind : ¬ h₀.Anc headA headB)
    (notAhead : ¬ h₀.Anc headB headA) (first : Advances h₀ own k mode a₀ headA h₁ a₁ headA₁)
    (second : Advances h₁ own k mode b₀ headB h₂ b₂ headB₂) (third : Advances h₂ own k mode a₁ headA₁ h₃ a₃ headA₃)
    (fourth : Advances h₃ own k mode b₂ headB₂ h₄ b₄ headB₄) : headA₃ ≠ headB₄ := by
  intro same
  obtain ⟨_, wovenA₁⟩ := first.woven
  obtain ⟨_, wovenB₂⟩ := second.woven
  obtain ⟨_, wovenA₃⟩ := third.woven
  obtain ⟨_, wovenB₄⟩ := fourth.woven
  have to₂ := first.extended.trans second.extended
  have to₃ := to₂.trans third.extended
  -- Nothing that the fourth import makes is behind the head that the third one left.
  have nothing : ∀ made ∈ b₄.revisions, h₃ made.revisionId = none → ¬ h₄.Graft k made.revisionId :=
    fun made member new graft => wovenB₄.not_met third.line fourth.extended wovenA₃.head_on member new graft same
  have startOn : h₀.On k headA := here.head_on
  have startBehind : h₄.Anc headA headB₄ := by
    have until₃ : h₃.Anc headA headA₃ := ((first.ahead.grow second.extended).grow third.extended).trans third.ahead
    rw [← same]
    exact until₃.grow fourth.extended
  by_cases early : ∃ held ∈ b₂.revisions, held.revisionId = headA
  · obtain ⟨held, member, named⟩ := early
    have unknown : Fresh b₀ held.revisionId := by
      intro before inside equal
      rw [named] at equal
      have key : before.key = k := there.key inside (equal.symm ▸ startOn)
      exact notBehind (equal ▸ there.tight before inside key)
    have on₁ : h₁.On k held.revisionId := named.symm ▸ startOn.grow first.extended
    have beside : ¬ h₁.Anc headB held.revisionId := by
      rw [named]
      exact fun path => notAhead (path.back line first.extended startOn).1
    have key : held.key = k := wovenB₂.key member (on₁.grow second.extended)
    obtain ⟨made₂, inB₂, new₂, graft₂⟩ := second.forced held member key unknown on₁ (.inr beside)
    have reaches : h₄.Anc made₂.revisionId headA₃ := by
      have until₂ := (wovenB₂.graft_behind inB₂ graft₂).grow (third.extended.trans fourth.extended)
      rw [same]
      exact until₂.trans (fourth.ahead)
    obtain ⟨got₂, inA₃, named₂, key₂⟩ := (wovenA₃.grow fourth.extended).behind_head fourth.line reaches
    rw [← named₂] at new₂ graft₂
    obtain ⟨made₃, inA₃, new₃, graft₃⟩ := third.forced got₂ inA₃ key₂ (wovenA₁.unknown new₂) graft₂.on (.inl graft₂)
    have reaches₃ : h₄.Anc made₃.revisionId headB₄ := same ▸ (wovenA₃.graft_behind inA₃ graft₃).grow fourth.extended
    obtain ⟨got₃, inB₄, named₃, key₃⟩ := wovenB₄.behind_head fourth.line reaches₃
    rw [← named₃] at new₃ graft₃
    obtain ⟨made₄, inB₄, new₄, graft₄⟩ := fourth.forced got₃ inB₄ key₃ (wovenB₂.unknown new₃) graft₃.on (.inl graft₃)
    exact nothing made₄ inB₄ new₄ graft₄
  · obtain ⟨held, member, named, key⟩ := wovenB₄.behind_head fourth.line startBehind
    have unknown : Fresh b₂ held.revisionId := fun before inside equal => early ⟨before, inside, equal.trans named⟩
    have on₃ : h₃.On k held.revisionId := named.symm ▸ startOn.grow to₃
    have beside : ¬ h₃.Anc headB₂ held.revisionId := by
      rw [named]
      intro path
      exact notAhead (((second.ahead.grow third.extended).trans path).back line to₃ startOn).1
    obtain ⟨made₄, inB₄, new₄, graft₄⟩ := fourth.forced held member key unknown on₃ (.inr beside)
    exact nothing made₄ inB₄ new₄ graft₄

end StateStore

end FerroLoop.FerroState

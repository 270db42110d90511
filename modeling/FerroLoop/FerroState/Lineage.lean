import FerroLoop.FerroState.Log

namespace FerroLoop.FerroState

open Std Checked List
open Workflow (At)

/-- Every revision that was ever made, by its id. -/
def History := Iri → Option StateRevision

namespace History

variable {h more : History} {rev : StateRevision}

def Extends (h more : History) : Prop := ∀ id made, h id = some made → more id = some made

theorem Extends.trans {last : History} (first : Extends h more) (second : Extends more last) : Extends h last :=
  fun id made found => second id made (first id made found)

def Records (h : History) (rev : StateRevision) : Prop := ∃ made, h rev.revisionId = some made ∧ rev.Same made

theorem Records.grow (records : Records h rev) (extended : Extends h more) : Records more rev := by
  obtain ⟨made, found, same⟩ := records
  exact ⟨made, extended _ made found, same⟩

theorem Records.same {other : StateRevision} (records : Records h rev) (same : other.Same rev) : Records h other := by
  obtain ⟨made, found, equal⟩ := records
  exact ⟨made, same.id ▸ found, same.trans equal⟩

/-- A sensitive revision and every revision made below one was ever sensitive. -/
structure Sticky (h : History) : Prop where
  sensitive : ∀ id made, h id = some made → made.sensitive = true → made.everSensitive = true
  inherited : ∀ id made, h id = some made → ∀ parent ∈ made.parentRevisions,
    ∃ before, h parent = some before ∧ (before.everSensitive = true → made.everSensitive = true)

theorem Sticky.empty : Sticky fun _ => none := by
  refine ⟨?_, ?_⟩
  · intro id made found
    cases found
  · intro id made found
    cases found

def add (h : History) (rev : StateRevision) : History := fun id => if id = rev.revisionId then some rev else h id

theorem add_same (h : History) (rev : StateRevision) : h.add rev rev.revisionId = some rev := if_pos rfl

theorem add_extends (fresh : h rev.revisionId = none) : Extends h (h.add rev) := by
  intro id made found
  unfold add
  split
  · rename_i same
    rw [same, fresh] at found
    cases found
  · exact found

theorem add_sticky (sticky : Sticky h) (fresh : h rev.revisionId = none)
    (marks : rev.sensitive = true → rev.everSensitive = true)
    (parents : ∀ parent ∈ rev.parentRevisions,
      ∃ before, h parent = some before ∧ (before.everSensitive = true → rev.everSensitive = true)) : Sticky (h.add rev) := by
  have extended := add_extends fresh
  refine ⟨?_, ?_⟩
  · intro id made found
    unfold add at found
    split at found
    · cases found
      exact marks
    · exact sticky.sensitive id made found
  · intro id made found parent listed
    unfold add at found
    split at found
    · cases found
      obtain ⟨before, known, goes⟩ := parents parent listed
      exact ⟨before, extended _ _ known, goes⟩
    · obtain ⟨before, known, goes⟩ := sticky.inherited id made found parent listed
      exact ⟨before, extended _ _ known, goes⟩

end History

namespace StateStore

variable {s t : StateStore} {h more : History} {rev : StateRevision} {mergeAt : At} {minted : Iri}

def Heads (h : History) (entry : StateEntry) : Prop :=
  ∃ made, h entry.headRevision = some made ∧ (made.everSensitive = true → entry.everSensitive = true)

/-- A store whose revisions and heads are of the history. -/
structure Follows (h : History) (s : StateStore) : Prop where
  revisions : ∀ rev ∈ s.revisions, h.Records rev
  heads : ∀ (e : Iri) entry, s.entries[e]? = some entry → Heads h entry

theorem Follows.empty : Follows h .empty := by
  refine ⟨fun _ member => absurd member not_mem_nil, ?_⟩
  intro e entry found
  change (∅ : ExtTreeMap Iri StateEntry compare)[e]? = some entry at found
  cases found

section

variable (follows : Follows h s)

include follows

theorem Follows.grow (extended : h.Extends more) : Follows more s := by
  refine ⟨fun rev member => (follows.revisions rev member).grow extended, ?_⟩
  intro e entry found
  obtain ⟨made, known, marks⟩ := follows.heads e entry found
  exact ⟨made, extended _ made known, marks⟩

theorem Follows.of_same (revisions : t.revisions = s.revisions) (entries : t.entries = s.entries) :
    Follows h t :=
  ⟨fun rev member => follows.revisions rev (revisions ▸ member), fun e entry found => follows.heads e entry (entries ▸ found)⟩

theorem Follows.append (records : h.Records rev) : Follows h (s.append rev) := by
  refine ⟨?_, follows.heads⟩
  intro held member
  rcases mem_append.mp member with old | new
  · exact follows.revisions held old
  · rw [mem_singleton.mp new]
    exact records

theorem Follows.put {entry : StateEntry} {e : Iri} (head : Heads h entry)
    (revisions : t.revisions = s.revisions) (entries : t.entries = s.entries.insert e entry) : Follows h t := by
  refine ⟨fun held member => follows.revisions held (revisions ▸ member), ?_⟩
  intro e' other found
  by_cases same : e' = e
  · subst same
    rw [entries, insert_same] at found
    cases found
    exact head
  · rw [entries, insert_other _ _ e' same] at found
    exact follows.heads e' other found

theorem Follows.rename (key : Key) (old new : Iri) : Follows h (s.rename key old new) := by
  refine ⟨?_, ?_⟩
  · intro held member
    obtain ⟨moved, same, revisions⟩ := @rename_logs s key old new
    rw [revisions, append_nil] at member
    obtain ⟨before, inside, rfl⟩ := mem_map.mp member
    exact (follows.revisions before inside).same (same before)
  · intro e entry found
    unfold StateStore.rename at found
    rcases there : s.entries[old]? with _ | moved
    · simp only [there] at found
      exact follows.heads e entry found
    simp only [there] at found
    by_cases here : e = new
    · subst here
      rw [insert_same] at found
      cases found
      exact follows.heads old moved there
    · rw [insert_other _ _ e here] at found
      by_cases gone : e = old
      · subst gone
        rw [ExtTreeMap.getElem?_erase_self] at found
        cases found
      · rw [erase_other _ e gone] at found
        exact follows.heads e entry found

theorem Follows.adoptId (rev : StateRevision) : Follows h (s.adoptId rev) := by
  unfold StateStore.adoptId
  split
  · split
    · exact follows
    · exact follows.rename _ _ _
  · exact follows

/-! ### What a write adds to the history -/

end

/-- The store goes on from the history `h`: whatever is new in it was made since and is in the store. -/
def Carries (h : History) (t : StateStore) : Prop :=
  ∃ more : History, h.Extends more ∧ more.Sticky ∧ t.Follows more ∧
    ∀ id made, more id = some made → h id = some made ∨ ∃ rev ∈ t.revisions, rev.revisionId = id

theorem Follows.carries (follows : Follows h s) (sticky : h.Sticky) : Carries h s :=
  ⟨h, fun _ _ found => found, sticky, follows, fun _ _ found => .inl found⟩

theorem Follows.written (follows : Follows h s) (sticky : h.Sticky) {entry : StateEntry} {e : Iri}
    (fresh : h rev.revisionId = none) (marks : rev.sensitive = true → rev.everSensitive = true)
    (parents : ∀ parent ∈ rev.parentRevisions,
      ∃ before, h parent = some before ∧ (before.everSensitive = true → rev.everSensitive = true))
    (revisions : t.revisions = s.revisions ++ [rev]) (entries : t.entries = s.entries.insert e entry)
    (head : entry.headRevision = rev.revisionId) (ever : entry.everSensitive = rev.everSensitive) : Carries h t := by
  have extended := History.add_extends fresh
  refine ⟨h.add rev, extended, History.add_sticky sticky fresh marks parents, ?_, ?_⟩
  · have appended : Follows (h.add rev) (s.append rev) :=
      (follows.grow extended).append ⟨rev, History.add_same h rev, .refl rev⟩
    refine appended.put ⟨rev, ?_, ?_⟩ revisions entries
    · rw [head]
      exact History.add_same h rev
    · rw [ever]
      exact id
  · intro id made found
    unfold History.add at found
    split at found
    · rename_i same
      refine .inr ⟨rev, ?_, same.symm⟩
      rw [revisions]
      exact mem_append_right _ (mem_singleton.mpr rfl)
    · exact .inl found

theorem Follows.parent (follows : Follows h s) {held : StateRevision} (member : held ∈ s.revisions) {marked : Bool}
    (goes : held.everSensitive = true → marked = true) :
    ∃ before, h held.revisionId = some before ∧ (before.everSensitive = true → marked = true) := by
  obtain ⟨made, known, same⟩ := follows.revisions held member
  exact ⟨made, known, fun set => goes (same.everSensitive.trans set)⟩

variable {ours own remote before : Bool} {written : StateEntry}

theorem inherits_own (set : own = true) : (before || ours || remote || own) = true := by
  rw [set, Bool.or_true]

theorem inherits_ours (set : ours = true) : (before || ours || remote || own) = true := by
  rw [set, Bool.or_true, Bool.true_or, Bool.true_or]

theorem inherits_remote (set : remote = true) : (before || ours || remote || own) = true := by
  rw [set, Bool.or_true, Bool.true_or]

theorem Follows.entryOf (follows : Follows h s) {key : Key} {entry : StateEntry} (found : s.entryOf key = some entry) : Heads h entry := by
  unfold StateStore.entryOf at found
  split at found
  · exact follows.heads _ entry found
  · cases found

theorem course_ours {dag : List StateRevision} {head : Iri} {ours : StateRevision} {payload : StatePayload}
    (taken : course dag head rev = .merge ours payload) : ours ∈ dag ∧ ours.revisionId = head := by
  unfold course at taken
  split at taken
  · cases taken
  split at taken
  · cases taken
  split at taken
  · cases taken
  rename_i held found
  dsimp only at taken
  split at taken
  · cases taken
    have named := find?_some found
    exact ⟨mem_of_find?_eq_some found, of_decide_eq_true named⟩
  · cases taken

variable {by_ : String}

section

variable (follows : Follows h s)

include follows

theorem Follows.advance (sticky : h.Sticky) {existing : StateEntry} (member : rev ∈ s.revisions)
    (fresh : h minted = none) (done : s.advance existing rev mergeAt minted = .ok t) : Carries h t := by
  unfold StateStore.advance at done
  cases taken : course (s.dag rev.entryId) existing.headRevision rev with
  | fastForward =>
    rw [taken] at done
    have same := Except.ok.inj done
    subst same
    obtain ⟨entries, _, revisions, _⟩ := @fastForward_shape s existing rev
    obtain ⟨made, known, equal⟩ := follows.revisions rev member
    have forward : Heads h (forwarded existing rev) := by
      refine ⟨made, known, ?_⟩
      intro set
      change (existing.everSensitive || rev.everSensitive || rev.sensitive) = true
      rw [equal.everSensitive, set, Bool.or_true, Bool.true_or]
    exact (follows.put forward revisions entries).carries sticky
  | alreadyAhead =>
    rw [taken] at done
    cases done
    exact follows.carries sticky
  | missingLocalHead =>
    rw [taken] at done
    cases done
  | merge ours payload =>
    rw [taken] at done
    have same := Except.ok.inj done
    subst same
    obtain ⟨inside, own⟩ := course_ours taken
    have mine := (mem_dag.mp inside).1
    refine follows.written sticky fresh ?_ ?_ rfl rfl rfl rfl
    · exact inherits_own
    intro parent listed
    rcases mem_sortedParents.mp listed with rfl | rfl
    · rw [← own]
      exact follows.parent mine inherits_ours
    · exact follows.parent member inherits_remote
  | conflict =>
    rw [taken] at done
    cases done
    exact Follows.carries (Follows.of_same follows rfl rfl) sticky

theorem Follows.applyImported (sticky : h.Sticky) (records : h.Records rev) (fresh : h minted = none)
    (done : (s.adoptId rev).fileImported rev mergeAt minted = .ok t) : Carries h t := by
  have adopted := follows.adoptId rev
  obtain ⟨resolved, ids, _, _, outcome⟩ := fileImported_ok done
  have indexed : Follows h { s.adoptId rev with ids } := Follows.of_same adopted rfl rfl
  have own : h.Records { rev with entryId := resolved } := records.same rfl
  have appended := indexed.append own
  rcases outcome with ⟨existing, _, _, done⟩ | ⟨_, rfl⟩
  · exact appended.advance sticky (mem_append_right _ (mem_singleton.mpr rfl)) fresh done
  obtain ⟨made, known, equal⟩ := own
  have head : Heads h (created { rev with entryId := resolved }) := by
    refine ⟨made, known, ?_⟩
    intro set
    change (rev.everSensitive || rev.sensitive) = true
    rw [show rev.everSensitive = true from equal.everSensitive.trans set, Bool.true_or]
  exact Follows.carries (Follows.put appended head rfl rfl) sticky

theorem Follows.importRevision (sticky : h.Sticky) (records : h.Records rev) (fresh : h minted = none)
    (done : s.importRevision rev mergeAt minted = .ok t) : Carries h t := by
  obtain ⟨rfl, _⟩ | ⟨_, _, done⟩ := importRevision_ok done
  · exact follows.carries sticky
  · exact follows.applyImported sticky records fresh done

theorem Follows.importStateRevisions {revs : List (StateRevision × Iri)} {used : Iri → Prop} (sticky : h.Sticky)
    (known : ∀ id made, h id = some made → used id ∨ ∃ rev ∈ s.revisions, rev.revisionId = id)
    (records : ∀ pair ∈ revs, h.Records pair.1)
    (anew : Importing (fun s _ minted => Fresh s minted ∧ ¬ used minted) mergeAt s revs)
    (done : s.importStateRevisions mergeAt revs = .ok t) : Carries h t := by
  induction revs generalizing s h with
  | nil =>
    cases done
    exact follows.carries sticky
  | cons first rest ih =>
    obtain ⟨rev, minted⟩ := first
    obtain ⟨next, one, done⟩ := bind_ok done
    have fresh : h minted = none := by
      rcases found : h minted with _ | made
      · rfl
      rcases known minted made found with taken | ⟨held, member, named⟩
      · exact absurd taken anew.1.2
      · exact absurd named (anew.1.1 held member)
    obtain ⟨more, extended, stuck, followed, origin⟩ := follows.importRevision sticky (records _ mem_cons_self) fresh one
    have kept : ∀ id, (∃ rev ∈ s.revisions, rev.revisionId = id) → ∃ rev ∈ next.revisions, rev.revisionId = id := by
      rintro id ⟨held, member, rfl⟩
      obtain ⟨added, logs⟩ := (importRevision_holds one).2
      obtain ⟨own, inside, same⟩ := logs.holds ⟨held, member, .refl held⟩
      exact ⟨own, inside, same.id⟩
    have knownNext : ∀ id made, more id = some made → used id ∨ ∃ rev ∈ next.revisions, rev.revisionId = id := by
      intro id made found
      rcases origin id made found with before | now
      · exact (known id made before).imp_right (kept id)
      · exact .inr now
    obtain ⟨last, extendedLast, stuckLast, followedLast, originLast⟩ := ih followed stuck knownNext
      (fun pair member => (records pair (mem_cons_of_mem _ member)).grow extended) (anew.2 next one) done
    refine ⟨last, extended.trans extendedLast, stuckLast, followedLast, ?_⟩
    intro id made found
    rcases originLast id made found with before | now
    · rcases origin id made before with older | ⟨held, member, named⟩
      · exact .inl older
      · obtain ⟨added, logs⟩ := (importStateRevisions_holds done).2
        obtain ⟨own, inside, same⟩ := logs.holds ⟨held, member, .refl held⟩
        exact .inr ⟨own, inside, same.id.trans named⟩
    · exact .inr now

theorem Follows.upsertState (sticky : h.Sticky) {args : UpsertStateArgs} {newId : Iri}
    (fresh : h minted = none) (done : s.upsertState args newId minted = .ok (t, written)) : Carries h t := by
  obtain ⟨slug, ids, entryId, rfl, _⟩ := upsertState_ok done
  generalize found : s.entryOf ⟨args.scope, args.payload.concern, slug⟩ = existing
  refine @Follows.written s _ h (writtenRevision existing args slug entryId minted) follows sticky
    (entryWritten (writtenRevision existing args slug entryId minted)) entryId fresh ?_ ?_ rfl rfl rfl rfl
  · intro set
    change ((existing.map StateEntry.everSensitive).getD false || _) = true
    exact Bool.or_eq_true _ _ ▸ .inr set
  · intro parent listed
    rcases existing with _ | entry
    · cases listed
    have head : parent = entry.headRevision := mem_singleton.mp listed
    obtain ⟨made, known, marks⟩ := follows.entryOf found
    refine ⟨made, head ▸ known, ?_⟩
    intro set
    change (entry.everSensitive || _) = true
    rw [marks set, Bool.true_or]

end

theorem revisionAt_ok {id : Iri} (done : s.revisionAt id = .ok rev) : rev ∈ s.revisions ∧ rev.revisionId = id := by
  unfold StateStore.revisionAt at done
  split at done
  · rename_i held found
    cases done
    have named := find?_some found
    exact ⟨mem_of_find?_eq_some found, of_decide_eq_true named⟩
  · cases done

theorem Follows.resolveConflict (follows : Follows h s) (sticky : h.Sticky) {id keep : Iri} {at_ : At}
    (fresh : h minted = none) (done : s.resolveConflict id keep at_ by_ minted = .ok (t, written)) :
    Carries h t := by
  obtain ⟨_, _, _, _, ours, remote, _, _, _, first, second, _, rfl⟩ := resolveConflict_ok done
  obtain ⟨mine, own⟩ := revisionAt_ok first
  obtain ⟨theirs, other⟩ := revisionAt_ok second
  refine Follows.written follows sticky fresh ?_ ?_ rfl rfl rfl rfl
  · exact inherits_own
  intro parent listed
  rcases mem_sortedParents.mp listed with rfl | rfl
  · rw [← own]
    exact follows.parent mine inherits_ours
  · rw [← other]
    exact follows.parent theirs inherits_remote

end StateStore

end FerroLoop.FerroState

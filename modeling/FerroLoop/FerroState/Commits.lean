import FerroLoop.FerroState.Log

namespace FerroLoop.FerroState

open List hiding getElem?_eq_some_iff getElem?_insert
open Std Checked Map BranchSnapshot

section Files

variable {α : Type} {line : α → List UInt8}

def FilesExtend (before after : List (List α)) : Prop :=
  ∀ (n : Nat) file, before[n]? = some file → ∃ later, after[n]? = some later ∧ file <+: later

variable (files : List (List α))

theorem FilesExtend.refl : FilesExtend files files :=
  fun _ file held => ⟨file, held, prefix_rfl⟩

theorem FilesExtend.trans {first second third : List (List α)} (front : FilesExtend first second)
    (back : FilesExtend second third) : FilesExtend first third := by
  intro n file held
  obtain ⟨mid, there, one⟩ := front n file held
  obtain ⟨later, here, two⟩ := back n mid there
  exact ⟨later, here, one.trans two⟩

theorem render_append (first second : List α) : render line (first ++ second) = render line first ++ render line second := by
  unfold render
  rw [flatMap_append]

theorem render_grows {before after : List α} (grown : before <+: after) : render line before <+: render line after := by
  obtain ⟨more, rfl⟩ := grown
  exact ⟨render line more, (render_append before more).symm⟩

theorem getLast?_split {files : List (List α)} {last : List α} (found : files.getLast? = some last) :
    files = files.dropLast ++ [last] := by
  have filled : files ≠ [] := by
    intro empty
    rw [empty] at found
    cases found
  rw [getLast?_eq_getLast_of_ne_nil filled] at found
  rw [← Option.some.inj found]
  exact (dropLast_append_getLast filled).symm

theorem appendToSegments_flatten (item : α) :
    (appendToSegments line files item).flatten = files.flatten ++ [item] := by
  unfold appendToSegments
  rcases found : files.getLast? with _ | last
  · rw [getLast?_eq_none_iff.mp found]
    rfl
  dsimp only
  split
  · rw [flatten_append]
    rfl
  · conv => rhs; rw [getLast?_split found, flatten_append]
    simp

theorem appendToSegments_extends (item : α) : FilesExtend files (appendToSegments line files item) := by
  intro n file held
  unfold appendToSegments
  rcases found : files.getLast? with _ | last
  · rw [getLast?_eq_none_iff.mp found] at held
    cases held
  dsimp only
  have within : n < files.length := (List.getElem?_eq_some_iff.mp held).1
  split
  · exact ⟨file, by rw [getElem?_append_left within]; exact held, prefix_rfl⟩
  rw [getLast?_split found] at held within
  rw [length_append, length_singleton] at within
  by_cases before : n < files.dropLast.length
  · rw [getElem?_append_left before] at held ⊢
    exact ⟨file, held, prefix_rfl⟩
  have at_ : n = files.dropLast.length := by omega
  subst at_
  rw [getElem?_concat_length] at held ⊢
  cases held
  exact ⟨_, rfl, prefix_append _ _⟩

theorem foldl_appendToSegments_extends (items : List α) (files : List (List α)) :
    FilesExtend files (items.foldl (appendToSegments line) files) := by
  induction items generalizing files with
  | nil => exact .refl files
  | cons item rest ih => exact (appendToSegments_extends files item).trans (ih _)

end Files

/-! ### Revisions and events of a snapshot -/

variable {snap : BranchSnapshot} {rev : StateRevision}

namespace BranchSnapshot

theorem mem_revisions :
    rev ∈ snap.revisions ↔ ∃ (hash : String) (files : List (List StateRevision)), snap.segments[hash]? = some files ∧ rev ∈ files.flatten := by
  unfold revisions
  rw [mem_flatMap]
  constructor
  · rintro ⟨⟨hash, files⟩, member, inside⟩
    exact ⟨hash, files, ExtTreeMap.mem_toList_iff_getElem?_eq_some.mp member, inside⟩
  · rintro ⟨hash, files, held, inside⟩
    exact ⟨(hash, files), ExtTreeMap.mem_toList_iff_getElem?_eq_some.mpr held, inside⟩

end BranchSnapshot

def revisionsOf (segments : ExtTreeMap String (List (List StateRevision)) compare) : List StateRevision :=
  segments.toList.flatMap fun files => files.2.flatten

variable {base : BranchSnapshot} {ev : RegistryEvent}

section Publish

variable {codec : Codec}

theorem appendRevision_perm (segments : ExtTreeMap String (List (List StateRevision)) compare) (rev : StateRevision) :
    (revisionsOf (appendRevisionToSegments codec segments rev)).Perm (revisionsOf segments ++ [rev]) := by
  unfold appendRevisionToSegments revisionsOf
  generalize codec.entryIdHash rev.entryId = hash
  have after := (toList_insert segments hash
    (appendToSegments codec.revisionLine (segments[hash]?.getD []) rev)).flatMap_right fun files => files.2.flatten
  refine after.trans ?_
  rw [flatMap_cons, appendToSegments_flatten]
  have before : (segments.toList.flatMap fun files => files.2.flatten).Perm
      ((segments[hash]?.getD []).flatten ++ (segments.erase hash).toList.flatMap fun files => files.2.flatten) := by
    cases held : segments[hash]? with
    | some files =>
      have perm := (toList_held held).flatMap_right fun files => files.2.flatten
      exact perm
    | none =>
      rw [erase_absent held]
      exact List.Perm.refl _
  refine List.Perm.trans ?_ (before.append_right [rev]).symm
  rw [append_assoc, append_assoc]
  exact List.Perm.append_left _ perm_append_comm

theorem foldl_appendRevision_perm (revs : List StateRevision)
    (segments : ExtTreeMap String (List (List StateRevision)) compare) :
    (revisionsOf (revs.foldl (appendRevisionToSegments codec) segments)).Perm (revisionsOf segments ++ revs) := by
  induction revs generalizing segments with
  | nil =>
    rw [append_nil]
    exact List.Perm.refl _
  | cons rev rest ih =>
    refine (ih _).trans ?_
    refine ((appendRevision_perm segments rev).append_right rest).trans ?_
    rw [append_assoc]
    exact List.Perm.refl _

theorem publish_revisions (base : BranchSnapshot) (revs : List StateRevision) (events : List RegistryEvent)
    (receipts : List (List UInt8)) :
    (publishSnapshot codec base revs events receipts).revisions.Perm (base.revisions ++ revs) :=
  foldl_appendRevision_perm revs base.segments

theorem mem_publish_events {revs : List StateRevision} {events : List RegistryEvent}
    {receipts : List (List UInt8)} :
    ev ∈ (publishSnapshot codec base revs events receipts).registryEvents ↔ ev ∈ base.registryEvents ∨ ev ∈ events := by
  unfold registryEvents publishSnapshot
  simp only [mem_append, mem_filter]
  constructor
  · rintro ((old | new) | (old | new))
    · exact .inl (.inl old)
    · exact .inr new.1
    · exact .inl (.inr old)
    · exact .inr new.1
  · rintro ((old | old) | new)
    · exact .inl (.inl old)
    · exact .inr (.inl old)
    cases kind : ev.kind with
    | areaUpsert area | areaDelete key => exact .inr (.inr ⟨new, rfl⟩)
    | agentUpsert record | agentRetire id => exact .inl (.inr ⟨new, rfl⟩)

end Publish

/-- Every append-only file of a commit is in a later one with what it had in front. -/
structure Extends (a b : BranchSnapshot) : Prop where
  areas : a.areas <+: b.areas
  agents : a.agents <+: b.agents
  segments : ∀ hash : String, FilesExtend (a.segments[hash]?.getD []) (b.segments[hash]?.getD [])
  receipts : FilesExtend a.receipts b.receipts

section Extends

variable {a b c : BranchSnapshot} {codec : Codec}

theorem Extends.refl (a : BranchSnapshot) : Extends a a :=
  ⟨prefix_rfl, prefix_rfl, fun _ => .refl _, .refl _⟩

theorem Extends.trans (first : Extends a b) (second : Extends b c) : Extends a c :=
  ⟨first.areas.trans second.areas, first.agents.trans second.agents,
    fun hash => (first.segments hash).trans (second.segments hash), first.receipts.trans second.receipts⟩

theorem appendRevision_extends (segments : ExtTreeMap String (List (List StateRevision)) compare) (rev : StateRevision)
    (hash : String) :
    FilesExtend (segments[hash]?.getD []) ((appendRevisionToSegments codec segments rev)[hash]?.getD []) := by
  unfold appendRevisionToSegments
  rw [getElem?_insert]
  split
  · rename_i same
    rw [← same]
    exact appendToSegments_extends _ _
  · exact .refl _

theorem foldl_appendRevision_extends (revs : List StateRevision)
    (segments : ExtTreeMap String (List (List StateRevision)) compare) (hash : String) :
    FilesExtend (segments[hash]?.getD []) ((revs.foldl (appendRevisionToSegments codec) segments)[hash]?.getD []) := by
  induction revs generalizing segments with
  | nil => exact .refl _
  | cons rev rest ih => exact (appendRevision_extends segments rev hash).trans (ih _)

theorem publish_extends (base : BranchSnapshot) (revs : List StateRevision) (events : List RegistryEvent)
    (receipts : List (List UInt8)) : Extends base (publishSnapshot codec base revs events receipts) :=
  ⟨prefix_append _ _, prefix_append _ _, foldl_appendRevision_extends revs base.segments,
    foldl_appendToSegments_extends receipts base.receipts⟩

theorem Extends.revisions (extended : Extends a b) (member : rev ∈ a.revisions) : rev ∈ b.revisions := by
  obtain ⟨hash, files, held, inside⟩ := mem_revisions.mp member
  obtain ⟨file, listed, within⟩ := mem_flatten.mp inside
  obtain ⟨n, at_⟩ := mem_iff_getElem?.mp listed
  have grown := extended.segments hash
  rw [held] at grown
  obtain ⟨later, there, front⟩ := grown n file at_
  rcases after : b.segments[hash]? with _ | files'
  · rw [after] at there
    cases there
  rw [after] at there
  exact mem_revisions.mpr ⟨hash, files', after,
    mem_flatten.mpr ⟨later, mem_of_getElem? there, front.subset within⟩⟩

theorem Extends.events (extended : Extends a b) (member : ev ∈ a.registryEvents) :
    ev ∈ b.registryEvents := by
  rcases mem_append.mp member with agent | area
  · exact mem_append_left _ (extended.agents.subset agent)
  · exact mem_append_right _ (extended.areas.subset area)

end Extends

/-- No file of the commit has a number that the reader passes over. -/
def BranchSnapshot.Fits (snap : BranchSnapshot) : Prop :=
  (∀ (hash : String) (files : List (List StateRevision)), snap.segments[hash]? = some files → files.length ≤ readableSegments) ∧
    snap.receipts.length ≤ readableSegments

theorem BranchSnapshot.Fits.empty : Fits .empty := by
  refine ⟨?_, Nat.zero_le _⟩
  intro hash files held
  change (∅ : ExtTreeMap String (List (List StateRevision)) compare)[hash]? = some files at held
  cases held

variable {tree : BranchSnapshot}

theorem readable_eq (fits : tree.Fits) : readable tree = tree := by
  have segments : (tree.segments.map fun _ files => files.take readableSegments) = tree.segments := by
    apply ExtTreeMap.ext_getElem?
    intro hash
    rw [ExtTreeMap.getElem?_map]
    cases held : tree.segments[hash]? with
    | none => rfl
    | some files => rw [Option.map_some, take_of_length_le (fits.1 hash files held)]
  unfold readable
  rw [segments, take_of_length_le fits.2]

variable {codec : Codec} {rev : StateRevision} {revs : List StateRevision}

theorem loadSnapshot_ok (done : loadSnapshot codec tree = .ok snap) :
    snap = readable tree := by
  obtain ⟨_, _, done⟩ := bind_ok done
  obtain ⟨_, _, done⟩ := bind_ok done
  obtain ⟨_, _, done⟩ := bind_ok done
  exact (Except.ok.inj done).symm

def headOf (branch : List BranchSnapshot) : BranchSnapshot := branch.getLast?.getD .empty

theorem headOf_append (branch : List BranchSnapshot) (tree : BranchSnapshot) : headOf (branch ++ [tree]) = tree := by
  unfold headOf
  rw [getLast?_concat]
  rfl

theorem headOf_cases (branch : List BranchSnapshot) : headOf branch = .empty ∧ branch = [] ∨ headOf branch ∈ branch := by
  unfold headOf
  cases found : branch.getLast? with
  | none => exact .inl ⟨rfl, getLast?_eq_none_iff.mp found⟩
  | some tree => exact .inr (mem_of_getLast? found)

theorem readable_empty : readable .empty = .empty := readable_eq .empty

theorem verifyCommits_ok {prev : BranchSnapshot} {trees front : List BranchSnapshot}
    (start : prev = readable (headOf front)) (done : verifyCommits codec prev trees = .ok base) :
    base = readable (headOf (front ++ trees)) := by
  induction trees generalizing prev front with
  | nil =>
    cases done
    rw [append_nil]
    exact start
  | cons tree rest ih =>
    obtain ⟨next, loaded, done⟩ := bind_ok done
    obtain ⟨_, _, done⟩ := bind_ok done
    have read : next = readable (headOf (front ++ [tree])) := by
      rw [headOf_append]
      exact loadSnapshot_ok loaded
    have whole := ih read done
    rw [append_assoc] at whole
    exact whole

theorem fetchBranch_ok {branch : List BranchSnapshot} {lastPushed : Nat}
    (done : fetchBranch codec branch lastPushed = .ok base) : base = readable (headOf branch) := by
  obtain ⟨_, _, done⟩ := bind_ok done
  obtain ⟨known, loaded, done⟩ := bind_ok done
  have start : known = readable (headOf (branch.take lastPushed)) := by
    unfold loadPushed at loaded
    unfold headOf
    cases found : (branch.take lastPushed).getLast? with
    | none =>
      rw [found] at loaded
      cases loaded
      exact readable_empty.symm
    | some tree =>
      rw [found] at loaded
      exact loadSnapshot_ok loaded
  have whole := verifyCommits_ok start done
  rw [take_append_drop] at whole
  exact whole

theorem mem_topoRounds {fuel : Nat} {remaining : List StateRevision} :
    rev ∈ topoRounds fuel remaining ↔ rev ∈ remaining := by
  induction fuel generalizing remaining with
  | zero => exact Iff.rfl
  | succ fuel ih =>
    unfold topoRounds
    dsimp only
    split
    · exact Iff.rfl
    rw [mem_append, ih, mem_filter, mem_filter]
    generalize (rev.parentRevisions.any fun parent => remaining.any fun held => held.revisionId == parent) = waits
    cases waits with
    | true => simp
    | false => simp

section ById

variable {revs : List StateRevision} {held : ExtTreeMap Iri StateRevision compare} {id : Iri} {rev : StateRevision}

theorem byId_from (found : (revs.foldl (fun (held : ExtTreeMap Iri StateRevision compare) rev => held.insert rev.revisionId rev) held)[id]? =
    some rev) : rev ∈ revs ∧ rev.revisionId = id ∨ held[id]? = some rev := by
  induction revs generalizing held with
  | nil => exact .inr found
  | cons first rest ih =>
    rcases ih found with ⟨member, named⟩ | before
    · exact .inl ⟨mem_cons_of_mem _ member, named⟩
    rcases insert_cases before with ⟨same, rfl⟩ | ⟨_, before⟩
    · exact .inl ⟨mem_cons_self, same⟩
    · exact .inr before

theorem byId_has (member : (∃ rev ∈ revs, rev.revisionId = id) ∨ (held[id]?).isSome = true) :
    ((revs.foldl (fun (held : ExtTreeMap Iri StateRevision compare) rev => held.insert rev.revisionId rev) held)[id]?).isSome = true := by
  induction revs generalizing held with
  | nil =>
    rcases member with ⟨_, inside, _⟩ | before
    · cases inside
    · exact before
  | cons first rest ih =>
    refine ih ?_
    rw [getElem?_insert]
    rcases member with ⟨rev, inside, named⟩ | before
    · rcases mem_cons.mp inside with same | later
      · rw [← same, if_pos named]
        exact .inr rfl
      · exact .inl ⟨rev, later, named⟩
    · split
      · exact .inr rfl
      · exact .inr before

end ById

theorem mem_of_mem_topoSort (member : rev ∈ topoSortRevisions revs) :
    rev ∈ revs := by
  unfold topoSortRevisions at member
  rw [mem_topoRounds] at member
  obtain ⟨⟨id, held⟩, listed, rfl⟩ := List.mem_map.mp member
  rcases byId_from (ExtTreeMap.mem_toList_iff_getElem?_eq_some.mp listed) with ⟨inside, _⟩ | none
  · exact inside
  · cases none

theorem topoSort_has (member : rev ∈ revs) :
    ∃ listed ∈ topoSortRevisions revs, listed.revisionId = rev.revisionId := by
  have has := @byId_has revs ∅ rev.revisionId (.inl ⟨rev, member, rfl⟩)
  obtain ⟨held, found⟩ := Option.isSome_iff_exists.mp has
  have named : held.revisionId = rev.revisionId := by
    rcases byId_from found with ⟨_, named⟩ | none
    · exact named
    · cases none
  refine ⟨held, ?_, named⟩
  unfold topoSortRevisions
  rw [mem_topoRounds]
  exact List.mem_map.mpr ⟨(rev.revisionId, held), ExtTreeMap.mem_toList_iff_getElem?_eq_some.mpr found, rfl⟩

theorem mem_topoSort (distinct : (revs.map StateRevision.revisionId).Nodup)
    (member : rev ∈ revs) : rev ∈ topoSortRevisions revs := by
  obtain ⟨listed, inside, named⟩ := topoSort_has member
  have same := inj_on_of_nodup_map distinct (mem_of_mem_topoSort inside) member named
  exact same ▸ inside

end FerroLoop.FerroState

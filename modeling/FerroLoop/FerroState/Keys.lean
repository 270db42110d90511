import FerroLoop.FerroState.StateStore
import FerroLoop.Lib.Machine

namespace FerroLoop.FerroState

open List hiding getElem?_insert
open Std Checked Machine Map
open Workflow (At)

namespace StateStore

structure Filed (s : StateStore) : Prop where
  owner : ∀ (e : Iri) entry, s.entries[e]? = some entry → entry.id = e
  keyed : ∀ (k : Key) e, s.keys[k]? = some e → ∃ entry, s.entries[e]? = some entry ∧ entry.key = k
  listed : ∀ (e : Iri) entry, s.entries[e]? = some entry → s.keys[entry.key]? = some e
  headed : ∀ (e : Iri) entry, s.entries[e]? = some entry →
    ∃ rev ∈ s.revisions, rev.revisionId = entry.headRevision ∧ rev.entryId = e
  primary : ∀ (e : Iri) entry, s.entries[e]? = some entry → s.ids.rows[e]? = some (.kind .state)
  located : ∀ rev ∈ s.revisions, ∃ entry, s.entries[rev.entryId]? = some entry

structure Keeps (s t : StateStore) : Prop where
  key : ∀ (e : Iri) before after, s.entries[e]? = some before → t.entries[e]? = some after → after.key = before.key
  stays : ∀ (k : Key) e, s.keys[k]? = some e → ∃ e', t.keys[k]? = some e'

theorem Keeps.refl (s : StateStore) : Keeps s s := by
  refine ⟨?_, fun k e held => ⟨e, held⟩⟩
  intro e before after first second
  rw [first] at second
  cases second
  rfl

theorem Filed.empty : Filed .empty := by
  constructor <;> simp [StateStore.empty]

structure Writes (s : StateStore) (entry : StateEntry) (added : List StateRevision) (t : StateStore) : Prop where
  entries : ∀ e : Iri, t.entries[e]? = if entry.id = e then some entry else s.entries[e]?
  keys : ∀ k : Key, t.keys[k]? = if entry.key = k then some entry.id else s.keys[k]?
  revisions : t.revisions = s.revisions ++ added
  own : ∀ rev ∈ added, rev.entryId = entry.id
  head : ∃ rev ∈ added, rev.revisionId = entry.headRevision
  primary : t.ids.rows[entry.id]? = some (.kind .state)
  rows : ∀ (e : Iri) row, s.ids.rows[e]? = some row → t.ids.rows[e]? = some row

variable {s t : StateStore} {entry : StateEntry} {added : List StateRevision}

def Owns (s : StateStore) (entry : StateEntry) : Prop :=
  (∀ before, s.entries[entry.id]? = some before → before.key = entry.key) ∧
    ∀ e, s.keys[entry.key]? = some e → e = entry.id

theorem Filed.owns (filed : Filed s) {before : StateEntry} {e : Iri} (held : s.entries[e]? = some before)
    (same : entry.id = e) (key : entry.key = before.key) : Owns s entry := by
  subst same
  refine ⟨?_, ?_⟩
  · intro found there
    rw [held] at there
    cases there
    exact key.symm
  · intro e keyed
    rw [key, filed.listed _ _ held] at keyed
    cases keyed
    rfl

theorem Filed.write (filed : Filed s) (owns : Owns s entry) (writes : Writes s entry added t) : Filed t := by
  obtain ⟨ownKey, ownId⟩ := owns
  constructor
  · intro e held there
    rw [writes.entries] at there
    split at there
    · cases there
      assumption
    · exact filed.owner e held there
  · intro k e there
    rw [writes.keys] at there
    split at there
    · cases there
      exact ⟨entry, by rw [writes.entries, if_pos rfl], ‹_›⟩
    rename_i other
    obtain ⟨held, found, key⟩ := filed.keyed k e there
    refine ⟨held, ?_, key⟩
    rw [writes.entries, if_neg, found]
    intro same
    subst same
    exact other ((ownKey held found).symm.trans key)
  · intro e held there
    rw [writes.entries] at there
    rw [writes.keys]
    split at there
    · rename_i same
      cases there
      rw [if_pos rfl, same]
    rename_i other
    have listed := filed.listed e held there
    rw [if_neg, listed]
    intro same
    rw [← same] at listed
    exact other (ownId e listed).symm
  · intro e held there
    rw [writes.entries] at there
    rw [writes.revisions]
    split at there
    · rename_i same
      cases there
      obtain ⟨rev, member, named⟩ := writes.head
      exact ⟨rev, mem_append_right _ member, named, (writes.own rev member).trans same⟩
    · obtain ⟨rev, member, named⟩ := filed.headed e held there
      exact ⟨rev, mem_append_left _ member, named⟩
  · intro e held there
    rw [writes.entries] at there
    split at there
    · rename_i same
      exact same ▸ writes.primary
    · exact writes.rows e _ (filed.primary e held there)
  · intro rev member
    rw [writes.revisions] at member
    rw [writes.entries]
    split
    · exact ⟨entry, rfl⟩
    rename_i other
    rcases mem_append.mp member with old | new
    · exact filed.located rev old
    · exact absurd (writes.own rev new).symm other

theorem Writes.keeps (owns : Owns s entry) (writes : Writes s entry added t) : Keeps s t := by
  constructor
  · intro e before after first second
    rw [writes.entries] at second
    split at second
    · rename_i same
      cases second
      subst same
      exact (owns.1 before first).symm
    · rw [first] at second
      cases second
      rfl
  · intro k e keyed
    rw [writes.keys]
    split
    · exact ⟨_, rfl⟩
    · exact ⟨e, keyed⟩

theorem Filed.append_only (filed : Filed s) (entries : t.entries = s.entries) (keys : t.keys = s.keys)
    (rows : t.ids = s.ids) (revisions : t.revisions = s.revisions ++ added) {e : Iri} {held : StateEntry}
    (there : s.entries[e]? = some held) (own : ∀ rev ∈ added, rev.entryId = e) : Filed t := by
  constructor
  · rw [entries]
    exact filed.owner
  · rw [keys, entries]
    exact filed.keyed
  · rw [keys, entries]
    exact filed.listed
  · rw [entries, revisions]
    intro e entry found
    obtain ⟨rev, member, named⟩ := filed.headed e entry found
    exact ⟨rev, mem_append_left _ member, named⟩
  · rw [entries, rows]
    exact filed.primary
  · rw [entries, revisions]
    intro rev member
    rcases mem_append.mp member with old | new
    · exact filed.located rev old
    · exact ⟨held, own rev new ▸ there⟩

theorem keeps_of_same (entries : t.entries = s.entries) (keys : t.keys = s.keys) : Keeps s t := by
  constructor
  · rw [entries]
    exact (Keeps.refl s).key
  · rw [keys]
    exact (Keeps.refl s).stays

section Rename

variable {key : Key} {old new : Iri} {held : StateEntry}

theorem rename_entries (there : s.entries[old]? = some held) (e : Iri) :
    (s.rename key old new).entries[e]? =
      if new = e then some { held with id := new } else if old = e then none else s.entries[e]? := by
  simp only [rename, there, getElem?_insert, getElem?_erase]

theorem rename_keys (k : Key) : (s.rename key old new).keys[k]? = if key = k then some new else s.keys[k]? :=
  getElem?_insert _ _ _ _

theorem mem_rename {rev : StateRevision} (member : rev ∈ (s.rename key old new).revisions) :
    (∃ before ∈ s.revisions, before.entryId = old ∧ rev = { before with entryId := new }) ∨
      (rev ∈ s.revisions ∧ rev.entryId ≠ old) := by
  obtain ⟨before, inside, same⟩ := mem_map.mp member
  split at same
  · exact .inl ⟨before, inside, ‹_›, same.symm⟩
  · exact .inr ⟨same ▸ inside, same ▸ ‹_›⟩

theorem Filed.rename (filed : Filed s) (keyed : s.keys[key]? = some old) (apart : old ≠ new)
    (free : s.entries[new]? = none) : Filed (s.rename key old new) := by
  obtain ⟨held, there, itsKey⟩ := filed.keyed key old keyed
  have entries := fun e => @rename_entries s key old new held there e
  have other : ∀ (e : Iri) entry, s.entries[e]? = some entry → e ≠ old → entry.key ≠ key := by
    intro e entry found differs same
    have listed := filed.listed e entry found
    rw [same, keyed] at listed
    cases listed
    exact differs rfl
  have rows := fun e => @Ids.aliasUnpublished_rows s.ids .state new old apart e
  constructor
  · intro e entry found
    rw [entries] at found
    split at found
    · cases found
      assumption
    · split at found
      · cases found
      · exact filed.owner e entry found
  · intro k e found
    rw [rename_keys] at found
    split at found
    · rename_i same
      cases found
      exact ⟨{ held with id := new }, by rw [entries, if_pos rfl], itsKey.trans same⟩
    rename_i differs
    obtain ⟨entry, inside, its⟩ := filed.keyed k e found
    refine ⟨entry, ?_, its⟩
    have notNew : new ≠ e := by
      intro same
      rw [← same, free] at inside
      cases inside
    have notOld : old ≠ e := by
      intro same
      rw [← same, there] at inside
      cases inside
      exact differs (itsKey.symm.trans its)
    rw [entries, if_neg notNew, if_neg notOld, inside]
  · intro e entry found
    rw [rename_keys]
    rw [entries] at found
    split at found
    · rename_i same
      cases found
      have its : ({ held with id := new } : StateEntry).key = key := itsKey
      rw [if_pos its.symm, same]
    · split at found
      · cases found
      · rename_i differs
        rw [if_neg (other e entry found (Ne.symm differs)).symm]
        exact filed.listed e entry found
  · intro e entry found
    rw [entries] at found
    have moved : ∀ rev ∈ s.revisions,
        (if rev.entryId = old then { rev with entryId := new } else rev) ∈ (s.rename key old new).revisions :=
      fun rev member => mem_map_of_mem member
    split at found
    · rename_i same
      cases found
      obtain ⟨rev, member, named, own⟩ := filed.headed old held there
      have inside := moved rev member
      rw [if_pos own] at inside
      exact ⟨_, inside, named, same⟩
    · split at found
      · cases found
      rename_i differs
      obtain ⟨rev, member, named, own⟩ := filed.headed e entry found
      have inside := moved rev member
      rw [if_neg (fun same => differs (same.symm.trans own))] at inside
      exact ⟨rev, inside, named, own⟩
  · intro e entry found
    rw [entries] at found
    change (s.ids.aliasUnpublished .state old new).rows[e]? = _
    rw [rows]
    split at found
    · rw [if_pos ‹_›]
    rename_i notNew
    split at found
    · cases found
    · rename_i notOld
      rw [if_neg notNew, if_neg notOld]
      exact filed.primary e entry found
  · intro rev member
    rw [entries]
    rcases mem_rename member with ⟨before, inside, own, same⟩ | ⟨inside, own⟩
    · subst same
      rw [if_pos rfl]
      exact ⟨_, rfl⟩
    split
    · exact ⟨_, rfl⟩
    · rw [if_neg (Ne.symm own)]
      exact filed.located rev inside

theorem Filed.rename_keeps (filed : Filed s) (keyed : s.keys[key]? = some old) (free : s.entries[new]? = none) : Keeps s (s.rename key old new) := by
  obtain ⟨held, there, _⟩ := filed.keyed key old keyed
  constructor
  · intro e before after first second
    rw [rename_entries there] at second
    split at second
    · rename_i same
      rw [← same, free] at first
      cases first
    split at second
    · cases second
    · rw [first] at second
      cases second
      rfl
  · intro k e found
    rw [rename_keys]
    split
    · exact ⟨_, rfl⟩
    · exact ⟨e, found⟩

end Rename

variable {rev : StateRevision} {mergeAt : At} {minted : Iri}

def Untaken (s : StateStore) (rev : StateRevision) : Prop :=
  ∀ existing, s.keys[rev.key]? = some existing → existing ≠ rev.entryId → s.entries[rev.entryId]? = none

theorem Filed.adoptId (filed : Filed s) (untaken : Untaken s rev) :
    Filed (s.adoptId rev) ∧ Keeps s (s.adoptId rev) := by
  unfold StateStore.adoptId
  split
  · rename_i existing keyed
    split
    · exact ⟨filed, Keeps.refl s⟩
    · rename_i apart
      have free := untaken existing keyed apart
      exact ⟨filed.rename keyed apart free, filed.rename_keeps keyed free⟩
  · exact ⟨filed, Keeps.refl s⟩

theorem Filed.rewrites (filed : Filed s) {existing : StateEntry} (there : s.entries[entry.id]? = some existing)
    (key : entry.key = existing.key) (own : ∀ rev ∈ added, rev.entryId = entry.id)
    (head : ∃ rev ∈ added, rev.revisionId = entry.headRevision) (entries : t.entries = s.entries.insert entry.id entry)
    (keys : t.keys = s.keys) (revisions : t.revisions = s.revisions ++ added) (rows : t.ids = s.ids) :
    Filed t ∧ Keeps s t := by
  have owns : Owns s entry := filed.owns there rfl key
  have writes : Writes s entry added t := by
    refine ⟨fun e => by rw [entries, getElem?_insert], ?_, revisions, own, head, ?_, ?_⟩
    · intro k
      rw [keys]
      split
      · rename_i same
        rw [← same, key]
        exact filed.listed _ _ there
      · rfl
    · rw [rows]
      exact filed.primary _ _ there
    · rw [rows]
      exact fun _ _ held => held
  exact ⟨filed.write owns writes, writes.keeps owns⟩

theorem fastForward_shape (existing : StateEntry) (rev : StateRevision) :
    (s.fastForward existing rev).entries = s.entries.insert rev.entryId (forwarded existing rev) ∧
      (s.fastForward existing rev).keys = s.keys ∧ (s.fastForward existing rev).revisions = s.revisions ∧
      (s.fastForward existing rev).ids = s.ids := by
  unfold fastForward
  simp only
  split
  · split
    · exact ⟨rfl, rfl, rfl, rfl⟩
    · exact ⟨rfl, rfl, rfl, rfl⟩
  · exact ⟨rfl, rfl, rfl, rfl⟩

/-- A revision of an entry that is there, with the entry's key, keeps the table whatever course it takes. -/
theorem Filed.advance (filed : Filed s) {existing : StateEntry} (there : s.entries[rev.entryId]? = some existing)
    (done : (s.append rev).advance existing rev mergeAt minted = .ok t) : Filed t ∧ Keeps s t := by
  unfold StateStore.advance at done
  split at done
  · cases done
    obtain ⟨entries, keys, revisions, rows⟩ := @fastForward_shape (s.append rev) existing rev
    refine @Filed.rewrites s _ (forwarded existing rev) [rev] filed existing there rfl ?_ ⟨rev, mem_singleton.mpr rfl, rfl⟩
      entries keys revisions rows
    intro held member
    rw [mem_singleton.mp member]
    rfl
  · cases done
    refine ⟨filed.append_only rfl rfl rfl rfl there ?_, keeps_of_same rfl rfl⟩
    intro held member
    rw [mem_singleton.mp member]
  · cases done
  · rename_i ours payload _
    cases done
    let merged := mergeRevision existing ours rev payload mergeAt minted
    refine @Filed.rewrites s _ (headedBy existing merged) [rev, merged] filed existing there rfl ?_
      ⟨merged, mem_cons_of_mem _ (mem_singleton.mpr rfl), rfl⟩ rfl rfl ?_ rfl
    · intro held member
      rcases mem_cons.mp member with first | second
      · rw [first]
        rfl
      · rw [mem_singleton.mp second]
        rfl
    · exact append_assoc _ _ _
  · cases done
    refine ⟨filed.append_only rfl rfl rfl rfl there ?_, keeps_of_same rfl rfl⟩
    intro held member
    rw [mem_singleton.mp member]

theorem advance_elsewhere {existing : StateEntry} (done : (s.append rev).advance existing rev mergeAt minted = .ok t)
    {e : Iri} (other : e ≠ rev.entryId) : t.entries[e]? = s.entries[e]? := by
  have apart : ∀ entry : StateEntry, entry.id = rev.entryId → (s.entries.insert entry.id entry)[e]? = s.entries[e]? := by
    intro entry own
    rw [getElem?_insert, if_neg (own ▸ Ne.symm other)]
  unfold StateStore.advance at done
  split at done
  · cases done
    rw [(@fastForward_shape (s.append rev) existing rev).1]
    exact apart (forwarded existing rev) rfl
  · cases done
    rfl
  · cases done
  · cases done
    exact apart _ rfl
  · cases done
    rfl

theorem Filed.indexed (filed : Filed s) {ids : Ids} (kept : ∀ (e : Iri) row, s.ids.rows[e]? = some row → ids.rows[e]? = some row) :
    Filed { s with ids } :=
  ⟨filed.owner, filed.keyed, filed.listed, filed.headed, fun e entry held => kept e _ (filed.primary e entry held),
    filed.located⟩

theorem Filed.creates (filed : Filed s) {ids : Ids} (free : s.entries[entry.id]? = none) (unkeyed : s.keys[entry.key]? = none)
    (primary : ids.rows[entry.id]? = some (.kind .state))
    (kept : ∀ (e : Iri) row, s.ids.rows[e]? = some row → ids.rows[e]? = some row)
    (own : ∀ rev ∈ added, rev.entryId = entry.id) (head : ∃ rev ∈ added, rev.revisionId = entry.headRevision)
    (entries : t.entries = s.entries.insert entry.id entry) (keys : t.keys = s.keys.insert entry.key entry.id)
    (revisions : t.revisions = s.revisions ++ added) (rows : t.ids = ids) : Filed t ∧ Keeps s t := by
  have owns : Owns s entry := by
    refine ⟨?_, ?_⟩
    · intro before held
      rw [free] at held
      cases held
    · intro e held
      rw [unkeyed] at held
      cases held
  have writes : Writes s entry added t := by
    refine ⟨fun e => by rw [entries, getElem?_insert], fun k => by rw [keys, getElem?_insert], revisions, own, head,
      ?_, ?_⟩
    · rw [rows]
      exact primary
    · rw [rows]
      exact kept
  exact ⟨filed.write owns writes, writes.keeps owns⟩

theorem Keeps.trans {u : StateStore} (first : Keeps s t) (second : Keeps t u)
    (only : ∀ (e : Iri) before after, s.entries[e]? = some before → u.entries[e]? = some after → ∃ mid, t.entries[e]? = some mid) :
    Keeps s u := by
  constructor
  · intro e before after one two
    obtain ⟨mid, there⟩ := only e before after one two
    exact (second.key e mid after there two).trans (first.key e before mid one there)
  · intro k e keyed
    obtain ⟨e', keyed'⟩ := first.stays k e keyed
    exact second.stays k e' keyed'

theorem Filed.fileImported (filed : Filed s) (settled : ∀ e, s.keys[rev.key]? = some e → e = rev.entryId)
    (done : s.fileImported rev mergeAt minted = .ok t) : Filed t ∧ Keeps s t := by
  obtain ⟨resolved, ids, resolves, imported, outcome⟩ := fileImported_ok done
  obtain ⟨_, row, kept⟩ := Ids.indexImported_ok imported
  have indexed := filed.indexed kept
  rcases outcome with ⟨existing, there, _, done⟩ | ⟨free, rfl⟩
  · have next := indexed.advance there done
    exact ⟨next.1, next.2.key, next.2.stays⟩
  have unkeyed : s.keys[rev.key]? = none := by
    rcases keyed : s.keys[rev.key]? with _ | e
    · rfl
    -- The key's entry is under the revision's own id, which is a primary, so it would be found.
    obtain ⟨entry, there, _⟩ := filed.keyed _ _ keyed
    have same := settled e keyed
    subst same
    have primary := Ids.resolve_of_kind (filed.primary _ _ there)
    rw [resolves] at primary
    cases primary
    rw [there] at free
    cases free
  have primary : ids.rows[resolved]? = some (.kind .state) := by
    rcases row with own | aliased
    · exact own
    · exact absurd aliased (Ids.resolve_not_aliased resolves)
  let own : StateRevision := { rev with entryId := resolved }
  refine @Filed.creates s _ (created own) [own] filed ids free unkeyed primary kept ?_
    ⟨own, mem_singleton.mpr rfl, rfl⟩ rfl rfl rfl rfl
  intro held member
  rw [mem_singleton.mp member]
  rfl

theorem fileImported_elsewhere {resolved : Iri} (resolves : s.ids.resolve rev.entryId = .ok resolved)
    (done : s.fileImported rev mergeAt minted = .ok t) {e : Iri} (other : e ≠ resolved) : t.entries[e]? = s.entries[e]? := by
  obtain ⟨found, ids, same, _, ⟨existing, _, _, done⟩ | ⟨_, rfl⟩⟩ := fileImported_ok done
  · rw [same] at resolves
    cases resolves
    exact advance_elsewhere done other
  · rw [same] at resolves
    cases resolves
    exact (getElem?_insert _ _ _ _).trans (if_neg (Ne.symm other))

theorem adoptId_settled (s : StateStore) (rev : StateRevision) :
    ∀ e, (s.adoptId rev).keys[rev.key]? = some e → e = rev.entryId := by
  intro e keyed
  unfold StateStore.adoptId at keyed
  split at keyed
  · rename_i existing before
    split at keyed
    · rename_i same
      rw [before] at keyed
      cases keyed
      exact same
    · rw [rename_keys, if_pos rfl] at keyed
      cases keyed
      rfl
  · rename_i before
    rw [before] at keyed
    cases keyed

theorem Filed.applyImported (filed : Filed s) (untaken : Untaken s rev)
    (done : (s.adoptId rev).fileImported rev mergeAt minted = .ok t) : Filed t ∧ Keeps s t := by
  obtain ⟨adopted, keptFirst⟩ := filed.adoptId untaken
  obtain ⟨next, keptThen⟩ := adopted.fileImported (adoptId_settled s rev) done
  refine ⟨next, keptFirst.trans keptThen ?_⟩
  intro e before after first second
  cases mid : (s.adoptId rev).entries[e]? with
  | some entry => exact ⟨entry, rfl⟩
  | none =>
    -- Only the renamed entry's old id is gone, and the import writes to its new one.
    exfalso
    unfold StateStore.adoptId at mid done
    cases keyed : s.keys[rev.key]? with
    | none =>
      rw [keyed] at mid
      rw [first] at mid
      cases mid
    | some existing =>
      simp only [keyed] at mid done
      split at mid
      · rw [first] at mid
        cases mid
      rename_i apart
      rw [if_neg apart] at done
      obtain ⟨held, there, _⟩ := filed.keyed _ _ keyed
      rw [rename_entries there] at mid
      split at mid
      · cases mid
      rename_i notNew
      have primary : (s.rename rev.key existing rev.entryId).ids.rows[rev.entryId]? = some (.kind .state) := by
        change (s.ids.aliasUnpublished .state existing rev.entryId).rows[rev.entryId]? = _
        rw [Ids.aliasUnpublished_rows apart, if_pos rfl]
      rw [fileImported_elsewhere (Ids.resolve_of_kind primary) done (Ne.symm notNew), rename_entries there,
        if_neg notNew, mid] at second
      cases second

def Importing (holds : StateStore → StateRevision → Iri → Prop) (mergeAt : At) : StateStore → List (StateRevision × Iri) → Prop
  | _, [] => True
  | s, (rev, minted) :: rest =>
    holds s rev minted ∧ ∀ next, s.importRevision rev mergeAt minted = .ok next → Importing holds mergeAt next rest

def Arrives (s : StateStore) (rev : StateRevision) (_ : Iri) : Prop := s.revision? rev.revisionId = none → s.Untaken rev

section

variable (filed : Filed s)

include filed

theorem Filed.importRevision (arrives : s.Arrives rev minted)
    (done : s.importRevision rev mergeAt minted = .ok t) : Filed t ∧ Keeps s t := by
  obtain ⟨rfl, _⟩ | ⟨new, _, done⟩ := importRevision_ok done
  · exact ⟨filed, Keeps.refl t⟩
  · exact filed.applyImported (arrives new) done

theorem Filed.importStateRevisions {revs : List (StateRevision × Iri)} (arriving : Importing Arrives mergeAt s revs) :
    (∀ t, s.importStateRevisions mergeAt revs = .ok t → Filed t) ∧
      Importing (fun s rev minted => ∀ next, s.importRevision rev mergeAt minted = .ok next → Filed next ∧ Keeps s next)
        mergeAt s revs := by
  induction revs generalizing s with
  | nil =>
    refine ⟨?_, trivial⟩
    intro t done
    cases done
    exact filed
  | cons first rest ih =>
    obtain ⟨here, later⟩ := arriving
    refine ⟨?_, fun next done => filed.importRevision here done, ?_⟩
    · intro t done
      obtain ⟨next, one, done⟩ := bind_ok done
      exact (ih (filed.importRevision here one).1 (later next one)).1 t done
    · intro next one
      exact (ih (filed.importRevision here one).1 (later next one)).2

theorem entryOf_some {key : Key} {existing : StateEntry} (held : s.entryOf key = some existing) :
    s.entries[existing.id]? = some existing ∧ existing.key = key := by
  unfold entryOf at held
  split at held
  · rename_i id keyed
    obtain ⟨entry, there, its⟩ := filed.keyed _ _ keyed
    rw [held] at there
    cases there
    have own := filed.owner _ _ held
    subst own
    exact ⟨held, its⟩
  · cases held

theorem entryOf_none {key : Key} (held : s.entryOf key = none) : s.keys[key]? = none := by
  unfold entryOf at held
  split at held
  · rename_i id keyed
    obtain ⟨entry, there, _⟩ := filed.keyed _ _ keyed
    rw [held] at there
    cases there
  · assumption

theorem Filed.wrote {ids : Ids} (rev : StateRevision) (owns : Owns s (entryWritten rev))
    (primary : ids.rows[rev.entryId]? = some (.kind .state))
    (kept : ∀ (e : Iri) row, s.ids.rows[e]? = some row → ids.rows[e]? = some row) :
    Filed (s.wrote ids rev) ∧ Keeps s (s.wrote ids rev) := by
  have writes : Writes s (entryWritten rev) [rev] (s.wrote ids rev) := by
    refine ⟨fun e => getElem?_insert _ _ _ _, fun k => getElem?_insert _ _ _ _, rfl, ?_,
      ⟨rev, mem_singleton.mpr rfl, rfl⟩, primary, kept⟩
    intro held member
    rw [mem_singleton.mp member]
    rfl
  exact ⟨filed.write owns writes, writes.keeps owns⟩

variable {written : StateEntry}

theorem Filed.upsertState {args : UpsertStateArgs} {newId : Iri}
    (done : s.upsertState args newId minted = .ok (t, written)) : Filed t ∧ Keeps s t := by
  obtain ⟨slug, ids, entryId, rfl, ⟨existing, held, rfl, rfl, _⟩ | ⟨held, rfl, indexed⟩⟩ := upsertState_ok done
  · obtain ⟨there, its⟩ := entryOf_some filed held
    exact filed.wrote _ (filed.owns there rfl its.symm) (filed.primary _ _ there) fun _ _ row => row
  · obtain ⟨unused, _, rows⟩ := Ids.indexNew_ok indexed
    refine filed.wrote _ ⟨?_, ?_⟩ ?_ ?_
    · intro before there
      have primary := filed.primary _ _ there
      change s.ids.rows[entryId]? = _ at primary
      rw [unused] at primary
      cases primary
    · intro e keyed
      have unkeyed := entryOf_none filed held
      change s.keys[(⟨args.scope, args.payload.concern, slug⟩ : Key)]? = some e at keyed
      rw [unkeyed] at keyed
      cases keyed
    · change ids.rows[entryId]? = _
      rw [rows, if_pos rfl]
    · intro e row there
      rw [rows, if_neg, there]
      intro same
      rw [← same, unused] at there
      cases there

variable {by_ : String}

theorem Filed.resolveConflict {id keep : Iri} {at_ : At}
    (done : s.resolveConflict id keep at_ by_ minted = .ok (t, written)) : Filed t ∧ Keeps s t := by
  obtain ⟨resolved, _, conflict, chosen, ours, remote, existing, _, _, _, _, there, rfl⟩ := resolveConflict_ok done
  let rev := resolvedRevision existing conflict chosen ours remote at_ by_ resolved minted
  refine @Filed.rewrites s _ (headedBy existing rev) [rev] filed existing there rfl ?_
    ⟨rev, mem_singleton.mpr rfl, rfl⟩ rfl rfl rfl rfl
  intro held member
  rw [mem_singleton.mp member]
  rfl

end

end StateStore

def Event.Arrives (s : StateStore) : Event → Prop
  | .importStateRevisions revs mergeAt => StateStore.Importing StateStore.Arrives mergeAt s revs
  | _ => True

def Event.KeepsKeys (s : StateStore) : Event → Prop
  | .importStateRevisions revs mergeAt =>
    StateStore.Importing
      (fun s rev minted => ∀ next, s.importRevision rev mergeAt minted = .ok next → next.Filed ∧ s.Keeps next) mergeAt s revs
  | e => s.Keeps (step s e).1

variable {s : StateStore} {e : Event}

theorem apply_local {t : StateStore} (filed : s.Filed) (here : ∀ revs mergeAt, e ≠ .importStateRevisions revs mergeAt)
    (accepted : s.apply e = .ok t) : t.Filed ∧ s.Keeps t := by
  cases e with
  | upsertState args newId minted =>
    obtain ⟨⟨t, written⟩, done, rfl⟩ := map_ok accepted
    exact filed.upsertState done
  | retireMemory =>
    obtain ⟨⟨t, written⟩, done, rfl⟩ := map_ok accepted
    obtain ⟨_, done⟩ := StateStore.retireMemory_ok done
    exact filed.upsertState done
  | resolveConflict =>
    obtain ⟨⟨t, written⟩, done, rfl⟩ := map_ok accepted
    exact filed.resolveConflict done
  | importStateRevisions revs mergeAt => exact absurd rfl (here revs mergeAt)

theorem step_local (filed : s.Filed) (here : ∀ revs mergeAt, e ≠ .importStateRevisions revs mergeAt) :
    (step s e).1.Filed ∧ s.Keeps (step s e).1 := by
  unfold step
  split
  · exact apply_local filed here ‹_›
  · exact ⟨filed, .refl s⟩

theorem step_filed (filed : s.Filed) (arrives : e.Arrives s) :
    (step s e).1.Filed ∧ e.KeepsKeys s := by
  cases e with
  | upsertState | retireMemory | resolveConflict => exact step_local filed nofun
  | importStateRevisions revs mergeAt =>
    obtain ⟨next, each⟩ := filed.importStateRevisions arrives
    refine ⟨?_, each⟩
    unfold step
    split
    · exact next _ ‹_›
    · exact filed

/-- In every run whose imports find their ids free, the key table and the entries agree at every moment, and no
accepted write changes an entry's key or takes an entry away. -/
theorem keys_one_to_one (events : List Event) (arriving : Machine.Throughout step (fun s e => e.Arrives s) .empty events) :
    Machine.Throughout step (fun s e => s.Filed ∧ e.KeepsKeys s ∧ (step s e).1.Filed) .empty events := by
  have preserved : ∀ s e, StateStore.Filed s → Event.Arrives s e → (step s e).1.Filed :=
    fun s e filed arrives => (step_filed filed arrives).1
  refine Machine.Throughout.mono preserved ?_ StateStore.Filed.empty arriving
  intro s e filed arrives
  obtain ⟨next, kept⟩ := step_filed filed arrives
  exact ⟨filed, kept, next⟩

def counterArgs (slug : String) : UpsertStateArgs := ⟨.workspace, slug, .inherit, .runtime ⟨.array [], .append⟩, "t0", "fl"⟩

def counterRevision (id entryId slug : Iri) (parents : List Iri) : StateRevision :=
  ⟨id, entryId, parents, .workspace, .runtime, slug, false, false, .runtime ⟨.array [], .append⟩, "t0", "fl"⟩

/-- A counter written here, and the one another store made of the same key. -/
def adoption : List Event :=
  [.upsertState (counterArgs "one") "e1" "r1", .importStateRevisions [(counterRevision "x1" "e9" "one" [], "m1")] "t0"]

theorem adoption_keys :
    Machine.Throughout step (fun s e => e.Arrives s) .empty adoption ∧
      Machine.Throughout step (fun s e => s.Filed ∧ e.KeepsKeys s ∧ (step s e).1.Filed) .empty adoption := by
  have arriving : Machine.Throughout step (fun s e => e.Arrives s) .empty adoption := by
    refine ⟨trivial, ⟨fun _ _ _ _ => ?_, fun _ _ => trivial⟩, trivial⟩
    decide +kernel
  exact ⟨arriving, keys_one_to_one adoption arriving⟩

def takeover : List Event :=
  [.upsertState (counterArgs "one") "e1" "r1", .upsertState (counterArgs "two") "e2" "r2",
    .importStateRevisions [(counterRevision "x1" "e2" "one" [], "m1")] "t0"]

/-- The import is accepted: the second counter's entry is gone, its id has the key of the first one, and its own
key still leads to it. -/
theorem takeover_overwrites :
    (trace step .empty takeover).map Prod.snd = [none, none, none] ∧
      ((run step .empty (takeover.take 2)).entries["e2"]?).map StateEntry.key = some ⟨.workspace, .runtime, "two"⟩ ∧
      ((run step .empty takeover).entries["e2"]?).map StateEntry.key = some ⟨.workspace, .runtime, "one"⟩ ∧
      (run step .empty takeover).keys[(⟨.workspace, .runtime, "two"⟩ : Key)]? = some "e2" ∧
      ¬ (run step .empty takeover).Filed := by
  have moved : ((run step .empty takeover).entries["e2"]?).map StateEntry.key = some ⟨.workspace, .runtime, "one"⟩ := by
    decide +kernel
  have keyed : (run step .empty takeover).keys[(⟨.workspace, .runtime, "two"⟩ : Key)]? = some "e2" := by
    decide +kernel
  refine ⟨by decide +kernel, by decide +kernel, moved, keyed, ?_⟩
  intro filed
  obtain ⟨entry, there, its⟩ := filed.keyed _ _ keyed
  rw [there] at moved
  rw [Option.map_some, its] at moved
  revert moved
  decide

end FerroLoop.FerroState

import FerroLoop.FerroState.Branch
import FerroLoop.FerroState.Heads
import Mathlib.Data.List.Nodup

namespace FerroLoop.FerroState

open Std Checked List StateStore StateRevision
open Workflow (At)

def StateRevision.Same (held rev : StateRevision) : Prop := { held with entryId := rev.entryId } = rev

section Same

variable {a b c : StateRevision}

theorem StateRevision.Same.refl (a : StateRevision) : a.Same a := rfl

theorem StateRevision.Same.symm (same : a.Same b) : b.Same a := by
  unfold Same at same ⊢
  rw [← same]

theorem StateRevision.Same.trans (first : a.Same b) (second : b.Same c) : a.Same c := by
  unfold Same at first second ⊢
  rw [← second, ← first]

theorem StateRevision.Same.id (same : a.Same b) : a.revisionId = b.revisionId := by
  rw [← same]

theorem StateRevision.Same.parents (same : a.Same b) : a.parentRevisions = b.parentRevisions := by
  rw [← same]

theorem StateRevision.Same.sensitive (same : a.Same b) : a.sensitive = b.sensitive := by
  rw [← same]

theorem StateRevision.Same.everSensitive (same : a.Same b) : a.everSensitive = b.everSensitive := by
  rw [← same]

end Same

namespace StateStore

variable {s t u : StateStore} {added : List StateRevision} {rev : StateRevision} {mergeAt : At} {minted : Iri}

/-- The log of `s`, its entries perhaps renamed, with `added` behind it. -/
def Logs (s : StateStore) (added : List StateRevision) (t : StateStore) : Prop :=
  ∃ moved : StateRevision → StateRevision, (∀ rev, (moved rev).Same rev) ∧ t.revisions = s.revisions.map moved ++ added

theorem Logs.of_append (revisions : t.revisions = s.revisions ++ added) : Logs s added t :=
  ⟨fun rev => rev, Same.refl, by rw [map_id', revisions]⟩

theorem Logs.refl (s : StateStore) : Logs s [] s := .of_append (append_nil _).symm

def Holds (s : StateStore) (rev : StateRevision) : Prop := ∃ held ∈ s.revisions, held.Same rev

theorem Logs.holds (logs : Logs s added t) (held : Holds s rev) : Holds t rev := by
  obtain ⟨moved, same, revisions⟩ := logs
  obtain ⟨before, member, equal⟩ := held
  refine ⟨moved before, ?_, (same before).trans equal⟩
  rw [revisions]
  exact mem_append_left _ (mem_map_of_mem member)

theorem Logs.member (logs : Logs s added t) (member : rev ∈ added) : rev ∈ t.revisions := by
  obtain ⟨moved, same, revisions⟩ := logs
  rw [revisions]
  exact mem_append_right _ member

theorem Logs.from (logs : Logs s added t) (member : rev ∈ t.revisions) : Holds s rev ∨ rev ∈ added := by
  obtain ⟨moved, same, revisions⟩ := logs
  rw [revisions] at member
  rcases mem_append.mp member with old | new
  · obtain ⟨before, inside, rfl⟩ := mem_map.mp old
    exact .inl ⟨before, inside, (same before).symm⟩
  · exact .inr new

theorem Logs.trans {more : List StateRevision} (first : Logs s added t) (second : Logs t more u) :
    ∃ moved : StateRevision → StateRevision, (∀ rev, (moved rev).Same rev) ∧ Logs s (added.map moved ++ more) u := by
  obtain ⟨f, sameF, front⟩ := first
  obtain ⟨g, sameG, back⟩ := second
  refine ⟨g, sameG, fun rev => g (f rev), fun rev => (sameG _).trans (sameF rev), ?_⟩
  rw [back, front, map_append, map_map, append_assoc]
  rfl

theorem Logs.ids (logs : Logs s added t) :
    t.revisions.map revisionId = s.revisions.map revisionId ++ added.map revisionId := by
  obtain ⟨moved, same, revisions⟩ := logs
  rw [revisions, map_append, map_map]
  congr 1
  exact map_congr_left fun rev _ => (same rev).id

def Unique (s : StateStore) : Prop := (s.revisions.map revisionId).Nodup

theorem Logs.unique (logs : Logs s added t) (unique : Unique s) (distinct : (added.map revisionId).Nodup)
    (fresh : ∀ rev ∈ added, Fresh s rev.revisionId) : Unique t := by
  unfold Unique
  rw [logs.ids, nodup_append]
  refine ⟨unique, distinct, ?_⟩
  intro id inside other outside same
  obtain ⟨held, member, rfl⟩ := mem_map.mp inside
  obtain ⟨rev, new, rfl⟩ := mem_map.mp outside
  exact fresh rev new held member same

theorem Unique.same (unique : Unique s) {a b : StateRevision} (first : a ∈ s.revisions) (second : b ∈ s.revisions)
    (id : a.revisionId = b.revisionId) : a = b :=
  inj_on_of_nodup_map unique first second id

theorem rename_logs (key : Key) (old new : Iri) : Logs s [] (s.rename key old new) := by
  refine ⟨fun rev => if rev.entryId = old then { rev with entryId := new } else rev, ?_, (append_nil _).symm⟩
  intro rev
  dsimp only
  split
  · rfl
  · rfl

theorem adoptId_logs (s : StateStore) (rev : StateRevision) : Logs s [] (s.adoptId rev) := by
  unfold adoptId
  split
  · split
    · exact .refl s
    · exact rename_logs _ _ _
  · exact .refl s

theorem advance_logs {existing : StateEntry} (done : (s.append rev).advance existing rev mergeAt minted = .ok t) :
    t.revisions = s.revisions ++ [rev] ∨
      ∃ ours payload, course ((s.append rev).dag rev.entryId) existing.headRevision rev = .merge ours payload ∧
        t.revisions = s.revisions ++ [rev, mergeRevision existing ours rev payload mergeAt minted] := by
  unfold advance at done
  cases taken : course ((s.append rev).dag rev.entryId) existing.headRevision rev with
  | fastForward =>
    rw [taken] at done
    cases done
    exact .inl (@fastForward_shape (s.append rev) existing rev).2.2.1
  | alreadyAhead =>
    rw [taken] at done
    cases done
    exact .inl rfl
  | missingLocalHead =>
    rw [taken] at done
    cases done
  | merge ours payload =>
    rw [taken] at done
    cases done
    exact .inr ⟨ours, payload, rfl, append_assoc _ _ _⟩
  | conflict =>
    rw [taken] at done
    cases done
    exact .inl rfl

/-- What an import of a new revision appends: the revision, filed where its entry id leads, and perhaps a merge
under the minted id. -/
theorem applyImported_logs (done : (s.adoptId rev).fileImported rev mergeAt minted = .ok t) :
    ∃ own : StateRevision, own.Same rev ∧
      (Logs s [own] t ∨ ∃ merged : StateRevision, merged.revisionId = minted ∧ Logs s [own, merged] t) := by
  have adopted := adoptId_logs s rev
  obtain ⟨resolved, ids, _, _, outcome⟩ := fileImported_ok done
  refine ⟨{ rev with entryId := resolved }, rfl, ?_⟩
  have after : ∀ more, t.revisions = (s.adoptId rev).revisions ++ more → Logs s more t := by
    intro more revisions
    obtain ⟨moved, same, before⟩ := adopted
    refine ⟨moved, same, ?_⟩
    rw [revisions, before, append_nil]
  rcases outcome with ⟨_, _, _, done⟩ | ⟨_, rfl⟩
  · rcases advance_logs done with alone | ⟨ours, payload, _, both⟩
    · exact .inl (after _ alone)
    · exact .inr ⟨_, rfl, after _ both⟩
  · exact .inl (after _ rfl)

theorem importRevision_holds (done : s.importRevision rev mergeAt minted = .ok t) :
    Holds t rev ∧ ∃ added, Logs s added t := by
  obtain ⟨rfl, resolved, found⟩ | ⟨_, _, done⟩ := importRevision_ok done
  · exact ⟨⟨_, mem_of_find?_eq_some found, rfl⟩, [], .refl t⟩
  · obtain ⟨own, same, alone | ⟨merged, _, both⟩⟩ := applyImported_logs done
    · exact ⟨⟨own, alone.member mem_cons_self, same⟩, _, alone⟩
    · exact ⟨⟨own, both.member mem_cons_self, same⟩, _, both⟩

theorem importRevision_unique (unique : Unique s) (mints : Mints s rev minted)
    (done : s.importRevision rev mergeAt minted = .ok t) : Unique t := by
  obtain ⟨rfl, _⟩ | ⟨new, _, done⟩ := importRevision_ok done
  · exact unique
  have fresh := fresh_iff.mp new
  obtain ⟨own, same, alone | ⟨merged, named, both⟩⟩ := applyImported_logs done
  · refine alone.unique unique (by simp) ?_
    intro held member
    rw [mem_singleton.mp member, same.id]
    exact fresh
  refine both.unique unique ?_ ?_
  · have apart : own.revisionId ≠ merged.revisionId := by
      rw [same.id, named]
      exact mints.2
    simpa using apart
  · intro held member
    rcases mem_cons.mp member with first | second
    · rw [first, same.id]
      exact fresh
    · rw [mem_singleton.mp second, named]
      exact mints.1

variable {revs : List (StateRevision × Iri)}

theorem importStateRevisions_holds (done : s.importStateRevisions mergeAt revs = .ok t) :
    (∀ pair ∈ revs, Holds t pair.1) ∧ ∃ added, Logs s added t := by
  induction revs generalizing s with
  | nil =>
    cases done
    exact ⟨fun _ member => absurd member not_mem_nil, [], .refl _⟩
  | cons first rest ih =>
    obtain ⟨next, one, done⟩ := bind_ok done
    obtain ⟨held, firstAdded, front⟩ := importRevision_holds one
    obtain ⟨later, moreAdded, back⟩ := ih done
    obtain ⟨moved, _, whole⟩ := front.trans back
    refine ⟨?_, _, whole⟩
    intro pair member
    rcases mem_cons.mp member with here | inside
    · rw [here]
      exact back.holds held
    · exact later pair inside

theorem importStateRevisions_unique (unique : Unique s)
    (minting : Importing Mints mergeAt s revs) (done : s.importStateRevisions mergeAt revs = .ok t) : Unique t := by
  induction revs generalizing s with
  | nil =>
    cases done
    exact unique
  | cons first rest ih =>
    obtain ⟨next, one, done⟩ := bind_ok done
    exact ih (importRevision_unique unique minting.1 one) (minting.2 next one) done

variable {newId : Iri} {written : StateEntry}

theorem upsertState_logs {args : UpsertStateArgs}
    (done : s.upsertState args newId minted = .ok (t, written)) :
    ∃ rev, rev.revisionId = minted ∧ t.revisions = s.revisions ++ [rev] := by
  obtain ⟨slug, ids, entryId, rfl, _⟩ := upsertState_ok done
  exact ⟨_, rfl, rfl⟩

variable {by_ : String}

theorem resolveConflict_logs {id keep : Iri} {at_ : At}
    (done : s.resolveConflict id keep at_ by_ minted = .ok (t, written)) :
    ∃ rev, rev.revisionId = minted ∧ t.revisions = s.revisions ++ [rev] := by
  obtain ⟨_, _, _, _, _, _, _, _, _, _, _, _, rfl⟩ := resolveConflict_ok done
  exact ⟨_, rfl, rfl⟩

theorem written_kept (unique : Unique s) (fresh : Fresh s minted)
    (written : ∃ rev, rev.revisionId = minted ∧ t.revisions = s.revisions ++ [rev]) :
    (∃ added, Logs s added t) ∧ Unique t := by
  obtain ⟨rev, named, revisions⟩ := written
  have logs : Logs s [rev] t := .of_append revisions
  refine ⟨⟨_, logs⟩, logs.unique unique (by simp) ?_⟩
  intro held member
  rw [mem_singleton.mp member, named]
  exact fresh

end StateStore

theorem step_logs {s : StateStore} (e : Event) (unique : s.Unique) (mints : e.Mints s) :
    (∃ added, Logs s added (step s e).1) ∧ (step s e).1.Unique := by
  unfold step
  split
  · rename_i next accepted
    cases e with
    | upsertState args newId minted =>
      obtain ⟨⟨t, written⟩, done, rfl⟩ := map_ok accepted
      exact written_kept unique mints (upsertState_logs done)
    | retireMemory =>
      obtain ⟨⟨t, written⟩, done, rfl⟩ := map_ok accepted
      obtain ⟨_, done⟩ := retireMemory_ok done
      exact written_kept unique mints (upsertState_logs done)
    | resolveConflict =>
      obtain ⟨⟨t, written⟩, done, rfl⟩ := map_ok accepted
      exact written_kept unique mints (resolveConflict_logs done)
    | importStateRevisions revs mergeAt =>
      exact ⟨(importStateRevisions_holds accepted).2, importStateRevisions_unique unique mints accepted⟩
  · exact ⟨⟨[], .refl s⟩, unique⟩

end FerroLoop.FerroState

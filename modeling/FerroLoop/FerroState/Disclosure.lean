import FerroLoop.FerroState.Lineage
import FerroLoop.FerroState.Lossless
import Mathlib.Data.List.Flatten

namespace FerroLoop.FerroState

open Std Checked List StateStore Machine
open Workflow (At)

def World.Has (w : World) (rev : StateRevision) : Prop :=
  (∃ i, rev ∈ (w.peers i).store.state.revisions) ∨ ∃ b, ∃ tree ∈ w.branches b, rev ∈ tree.revisions

inductive World.Descends (w : World) (root : StateRevision) : StateRevision → Prop where
  | self : w.Descends root root
  | child {parent rev : StateRevision} (behind : w.Descends root parent) (there : w.Has rev)
      (listed : parent.revisionId ∈ rev.parentRevisions) : w.Descends root rev

def World.Marks (w : World) : Prop :=
  ∀ root rev, w.Has root → root.sensitive = true → w.Descends root rev → rev.everSensitive = true

def Action.Guarded (codec : Codec) (w : World) (a : Action) : Prop :=
  ∀ i receipts otherFiles job seen tree, a = .push i receipts otherFiles → (w.peers i).phase = .collected job seen →
    job.target.isPrivate = false → (w.step codec a).1.branches job.branch = w.branches job.branch ++ [tree] →
      ∀ rev ∈ tree.revisions, rev.sensitive = false ∧ rev.everSensitive = false

def World.Unused (w : World) (id : Iri) : Prop := ∀ i, (w.peers i).store.state.Fresh id

def World.Anew (w : World) (mergeAt : At) (s : StateStore) (revs : List (StateRevision × Iri)) : Prop :=
  Importing (fun s rev minted => s.Mints rev minted ∧ w.Unused minted) mergeAt s revs

def Event.Lawful (w : World) (s : StateStore) : Event → Prop
  | .upsertState _ _ minted => w.Unused minted
  | .retireMemory _ _ _ _ _ _ _ minted => w.Unused minted
  | .resolveConflict _ _ _ _ minted => w.Unused minted
  | .importStateRevisions revs mergeAt => (∀ pair ∈ revs, ∃ held, w.Has held ∧ pair.1.Same held) ∧ w.Anew mergeAt s revs

def Action.Lawful (w : World) : Action → Prop
  | .write i event => event.Lawful w (w.peers i).store.state
  | .importState i now mint => ∀ job, (w.peers i).phase = .registered job →
    w.Anew now (w.peers i).store.state ((topoSortRevisions job.base.revisions).map fun rev => (rev, mint rev.revisionId))
  | _ => True

def BranchSnapshot.Traced (h : History) (snap : BranchSnapshot) : Prop :=
  (∀ rev ∈ snap.revisions, h.Records rev) ∧ (snap.revisions.map StateRevision.revisionId).Nodup

def Job.Clean (job : Job) : Prop := job.target.isPrivate = false → ∀ rev ∈ job.base.revisions, rev.marked = false

def Phase.Traced (h : History) : Phase → Prop
  | .idle => True
  | .ready _ _ _ => True
  | .fetched job => job.base.Traced h
  | .registered job => job.base.Traced h
  | .imported job => job.base.Traced h ∧ job.Clean
  | .collected job seen =>
    job.base.Traced h ∧ job.Clean ∧ ((∀ rev ∈ seen.state.revisions, h.Records rev) ∧ seen.state.Unique) ∧
      (job.target.isPrivate = false → ∀ rev ∈ unpublishedRevisions seen job.target job.base, rev.marked = false)

structure World.Traced (h : History) (w : World) : Prop where
  sticky : h.Sticky
  stores : ∀ i, (w.peers i).store.state.Follows h
  unique : ∀ i, (w.peers i).store.state.Unique
  known : ∀ id made, h id = some made → ∃ i, ∃ rev ∈ (w.peers i).store.state.revisions, rev.revisionId = id
  commits : ∀ b, ∀ tree ∈ w.branches b, tree.Traced h
  phases : ∀ i, (w.peers i).phase.Traced h

section Invariant

variable {codec : Codec} {w : World} {h more : History} {i : Nat}

theorem BranchSnapshot.Traced.grow {snap : BranchSnapshot} (traced : snap.Traced h) (extended : h.Extends more) : snap.Traced more :=
  ⟨fun rev member => (traced.1 rev member).grow extended, traced.2⟩

theorem Phase.Traced.grow {phase : Phase} (traced : phase.Traced h) (extended : h.Extends more) : phase.Traced more := by
  cases phase with
  | idle => trivial
  | ready target branch tries => trivial
  | fetched job | registered job => exact BranchSnapshot.Traced.grow traced extended
  | imported job => exact ⟨traced.1.grow extended, traced.2⟩
  | collected job seen =>
    obtain ⟨base, clean, ⟨records, unique⟩, unmarked⟩ := traced
    exact ⟨base.grow extended, clean, ⟨fun rev member => (records rev member).grow extended, unique⟩, unmarked⟩

theorem World.Traced.empty : World.Traced (fun _ => none) .empty := by
  refine ⟨.empty, fun _ => .empty, fun _ => nodup_nil, ?_, ?_, fun _ => trivial⟩
  · intro id made found
    cases found
  · intro b tree member
    cases member

variable {rev : StateRevision}

section

variable (traced : w.Traced h)

include traced

theorem World.Traced.records (has : w.Has rev) : h.Records rev := by
  rcases has with ⟨i, member⟩ | ⟨b, tree, inside, member⟩
  · exact (traced.stores i).revisions rev member
  · exact (traced.commits b tree inside).1 rev member

theorem World.Traced.marks : w.Marks := by
  intro root rev has sensitive descends
  suffices marked : h.Records rev ∧ rev.everSensitive = true from marked.2
  induction descends with
  | self =>
    obtain ⟨made, found, same⟩ := traced.records has
    refine ⟨⟨made, found, same⟩, ?_⟩
    rw [same.everSensitive]
    exact traced.sticky.sensitive _ made found (same.sensitive ▸ sensitive)
  | child behind there listed ih =>
    obtain ⟨⟨before, known, equal⟩, set⟩ := ih
    obtain ⟨made, found, same⟩ := traced.records there
    refine ⟨⟨made, found, same⟩, ?_⟩
    obtain ⟨parent, here, goes⟩ := traced.sticky.inherited _ made found _ (same.parents ▸ listed)
    cases known.symm.trans here
    rw [same.everSensitive]
    exact goes (equal.everSensitive ▸ set)

theorem World.Traced.unused {id : Iri} (unused : w.Unused id) : h id = none := by
  cases found : h id with
  | none => rfl
  | some made =>
    obtain ⟨i, rev, member, named⟩ := traced.known id made found
    exact absurd named (unused i rev member)

theorem World.Traced.setPeer {peer : Peer} (logs : ∃ added, (w.peers i).store.state.Logs added peer.store.state)
    (unique : peer.store.state.Unique) (carries : Carries h peer.store.state) (phase : peer.phase.Traced h) :
    ∃ more, (w.setPeer i peer).Traced more := by
  obtain ⟨more, extended, sticky, follows, origin⟩ := carries
  have held : ∀ j id, (∃ rev ∈ (w.peers j).store.state.revisions, rev.revisionId = id) →
      ∃ rev ∈ ((w.setPeer i peer).peers j).store.state.revisions, rev.revisionId = id := by
    rintro j id ⟨rev, member, named⟩
    change ∃ rev ∈ (if j = i then peer else w.peers j).store.state.revisions, rev.revisionId = id
    split
    · rename_i same
      subst same
      obtain ⟨added, logs⟩ := logs
      obtain ⟨own, inside, equal⟩ := logs.holds ⟨rev, member, .refl rev⟩
      exact ⟨own, inside, equal.id.trans named⟩
    · exact ⟨rev, member, named⟩
  refine ⟨more, sticky, ?_, ?_, ?_, fun b tree member => (traced.commits b tree member).grow extended, ?_⟩
  · intro j
    change (if j = i then peer else w.peers j).store.state.Follows more
    split
    · exact follows
    · exact (traced.stores j).grow extended
  · intro j
    change (if j = i then peer else w.peers j).store.state.Unique
    split
    · exact unique
    · exact traced.unique j
  · intro id made found
    rcases origin id made found with before | here
    · obtain ⟨j, there⟩ := traced.known id made before
      exact ⟨j, held j id there⟩
    refine ⟨i, ?_⟩
    change ∃ rev ∈ (if i = i then peer else w.peers i).store.state.revisions, rev.revisionId = id
    rw [if_pos rfl]
    exact here
  · intro j
    change (if j = i then peer else w.peers j).phase.Traced more
    split
    · exact phase.grow extended
    · exact (traced.phases j).grow extended

theorem World.Traced.keep {peer : Peer} (state : peer.store.state = (w.peers i).store.state)
    (phase : peer.phase.Traced h) : ∃ more, (w.setPeer i peer).Traced more := by
  refine traced.setPeer ⟨[], ?_⟩ ?_ ?_ phase
  · rw [state]
    exact .refl _
  · rw [state]
    exact traced.unique i
  · rw [state]
    exact (traced.stores i).carries traced.sticky

theorem World.Traced.proceed {α : Type} {x : Except StateSyncError α} {next : α → Peer}
    (done : ∀ a, x = .ok a → ∃ more, (w.setPeer i (next a)).Traced more) : ∃ more, (w.proceed i x next).1.Traced more := by
  unfold World.proceed
  split
  · exact done _ rfl
  · exact traced.keep rfl trivial

end

variable {tree : BranchSnapshot}

theorem readable_traced (traced : tree.Traced h) : (readable tree).Traced h := by
  have part : (readable tree).revisions.Sublist tree.revisions := by
    change ((tree.segments.map fun _ files => files.take readableSegments).toList.flatMap fun files => files.2.flatten).Sublist
      (tree.segments.toList.flatMap fun files => files.2.flatten)
    rw [ExtTreeMap.toList_map]
    generalize tree.segments.toList = segments
    induction segments with
    | nil => exact List.Sublist.refl _
    | cons files rest ih => exact (take_sublist _ _).flatten.append ih
  exact ⟨fun rev member => traced.1 rev (part.subset member), (part.map _).nodup traced.2⟩

theorem headOf_traced (traced : w.Traced h) (b : Nat) : (headOf (w.branches b)).Traced h := by
  rcases headOf_cases (w.branches b) with ⟨none, _⟩ | member
  · rw [none]
    exact ⟨fun rev member => absurd member not_mem_nil, nodup_nil⟩
  · exact traced.commits b _ member

variable {mergeAt : At} {revs : List (StateRevision × Iri)}

theorem StateStore.Importing.mono {holds shown : StateStore → StateRevision → Iri → Prop} {s : StateStore}
    (follows : ∀ s rev minted, holds s rev minted → shown s rev minted)
    (all : Importing holds mergeAt s revs) : Importing shown mergeAt s revs := by
  induction revs generalizing s with
  | nil => trivial
  | cons first rest ih => exact ⟨follows s first.1 first.2 all.1, fun next one => ih (all.2 next one)⟩

theorem World.Traced.importBatch (traced : w.Traced h) {t : StateStore}
    (records : ∀ pair ∈ revs, h.Records pair.1) (anew : w.Anew mergeAt (w.peers i).store.state revs)
    (done : (w.peers i).store.state.importStateRevisions mergeAt revs = .ok t) :
    (∃ added, (w.peers i).store.state.Logs added t) ∧ t.Unique ∧ Carries h t := by
  refine ⟨(importStateRevisions_holds done).2, ?_, ?_⟩
  · exact importStateRevisions_unique (traced.unique i) (anew.mono fun _ _ _ both => both.1) done
  refine @Follows.importStateRevisions _ _ _ _ (traced.stores i) revs
    (fun id => ¬ w.Unused id) traced.sticky ?_ records ?_ done
  · intro id made found
    refine .inl fun unused => ?_
    rw [traced.unused unused] at found
    cases found
  · exact anew.mono fun _ _ _ both => ⟨both.1.1, not_not.mpr both.2⟩

theorem World.Traced.write (traced : w.Traced h) (event : Event) (lawful : event.Lawful w (w.peers i).store.state) :
    ∃ more, (w.step codec (.write i event)).1.Traced more := by
  have phase := traced.phases i
  unfold World.step
  dsimp only
  unfold FerroState.step
  split
  · rename_i next accepted
    cases event with
    | upsertState args newId minted =>
      obtain ⟨⟨t, written⟩, done, rfl⟩ := map_ok accepted
      obtain ⟨logs, unique⟩ := written_kept (traced.unique i) (lawful i) (upsertState_logs done)
      exact traced.setPeer logs unique ((traced.stores i).upsertState traced.sticky (traced.unused lawful) done) phase
    | retireMemory scope slug lifecycle supersededBy at_ by_ newId minted =>
      obtain ⟨⟨t, written⟩, done, rfl⟩ := map_ok accepted
      obtain ⟨_, done⟩ := retireMemory_ok done
      obtain ⟨logs, unique⟩ := written_kept (traced.unique i) (lawful i) (upsertState_logs done)
      exact traced.setPeer logs unique ((traced.stores i).upsertState traced.sticky (traced.unused lawful) done) phase
    | resolveConflict id keep at_ by_ minted =>
      obtain ⟨⟨t, written⟩, done, rfl⟩ := map_ok accepted
      obtain ⟨logs, unique⟩ := written_kept (traced.unique i) (lawful i) (resolveConflict_logs done)
      exact traced.setPeer logs unique ((traced.stores i).resolveConflict traced.sticky (traced.unused lawful) done) phase
    | importStateRevisions revs mergeAt =>
      have records : ∀ pair ∈ revs, h.Records pair.1 := by
        intro pair member
        obtain ⟨held, has, same⟩ := lawful.1 pair member
        exact (traced.records has).same same
      obtain ⟨logs, unique, carries⟩ := traced.importBatch records lawful.2 accepted
      exact traced.setPeer logs unique carries phase
  · exact traced.keep rfl phase

theorem World.Traced.fetch (traced : w.Traced h) : ∃ more, (w.step codec (.fetch i)).1.Traced more := by
  unfold World.step
  dsimp only
  split
  · rename_i target branch tries phase
    refine traced.proceed fun base done => traced.keep rfl ?_
    change base.Traced h
    rw [fetchBranch_ok done]
    exact readable_traced (headOf_traced traced branch)
  · exact ⟨h, traced⟩

theorem World.Traced.importRegistry (traced : w.Traced h) : ∃ more, (w.step codec (.importRegistry i)).1.Traced more := by
  unfold World.step
  dsimp only
  split
  · rename_i job phase
    have before := traced.phases i
    rw [phase] at before
    exact traced.proceed fun store done => traced.keep (importRegistry_state done) before
  · exact ⟨h, traced⟩

theorem refuseSensitive_ok {target : StateSyncTarget} {revs : List StateRevision} (done : refuseSensitive target revs = .ok ())
    (shared : target.isPrivate = false) : ∀ rev ∈ revs, rev.marked = false := by
  unfold refuseSensitive at done
  rw [shared] at done
  simp only [Bool.false_eq_true, if_false] at done
  split at done
  · cases done
  · rename_i none
    intro rev member
    exact Bool.eq_false_iff.mpr (find?_eq_none.mp none rev member)

theorem World.Traced.importState (traced : w.Traced h) (now : At) (mint : Iri → Iri)
    (lawful : Action.Lawful w (.importState i now mint)) : ∃ more, (w.step codec (.importState i now mint)).1.Traced more := by
  unfold World.step
  dsimp only
  split
  · rename_i job phase
    have before := traced.phases i
    rw [phase] at before
    refine traced.proceed fun store done => ?_
    obtain ⟨checked, imported, _⟩ := importState_ok done
    have records : ∀ pair ∈ (topoSortRevisions job.base.revisions).map fun rev => (rev, mint rev.revisionId), h.Records pair.1 := by
      intro pair member
      obtain ⟨rev, inside, rfl⟩ := mem_map.mp member
      exact before.1 rev (mem_of_mem_topoSort inside)
    obtain ⟨logs, unique, carries⟩ := traced.importBatch records (lawful job phase) imported
    refine traced.setPeer logs unique carries ⟨before, ?_⟩
    intro shared rev member
    exact refuseSensitive_ok checked shared rev (mem_topoSort before.2 member)
  · exact ⟨h, traced⟩

theorem World.Traced.collect (traced : w.Traced h) : ∃ more, (w.step codec (.collect i)).1.Traced more := by
  unfold World.step
  dsimp only
  split
  · rename_i job phase
    have before := traced.phases i
    rw [phase] at before
    refine traced.proceed fun found done => traced.keep rfl ?_
    refine ⟨before.1, before.2, ⟨(traced.stores i).revisions, traced.unique i⟩, ?_⟩
    obtain ⟨_, _, done⟩ := Checked.bind_ok done
    obtain ⟨_, checked, done⟩ := Checked.bind_ok done
    exact refuseSensitive_ok checked
  · exact ⟨h, traced⟩

theorem World.Traced.commit (traced : w.Traced h) {b : Nat} (made : tree.Traced h) :
    (w.commit b tree).Traced h := by
  refine ⟨traced.sticky, traced.stores, traced.unique, traced.known, ?_, traced.phases⟩
  intro c later inside
  change later ∈ (if c = b then w.branches c ++ [tree] else w.branches c) at inside
  split at inside
  · rcases mem_append.mp inside with old | new
    · exact traced.commits c later old
    · rw [mem_singleton.mp new]
      exact made
  · exact traced.commits c later inside

theorem mem_publishes {job : Job} {seen : Store} {receipts : List (List UInt8)} :
    rev ∈ (job.publishes codec seen receipts).revisions ↔
      rev ∈ job.base.revisions ∨ rev ∈ unpublishedRevisions seen job.target job.base := by
  have perm := @publish_revisions codec job.base (unpublishedRevisions seen job.target job.base)
    (unpublishedEvents seen job.target job.base) receipts
  rw [← mem_append]
  exact perm.mem_iff

theorem World.Traced.push (traced : w.Traced h) (receipts : List (List UInt8)) (otherFiles : Bool) :
    ∃ more, (w.step codec (.push i receipts otherFiles)).1.Traced more := by
  unfold World.step
  dsimp only
  split
  · rename_i job seen phase
    have before := traced.phases i
    rw [phase] at before
    obtain ⟨base, _, ⟨records, unique⟩, _⟩ := before
    have made : (job.publishes codec seen receipts).Traced h := by
      refine ⟨?_, publishes_distinct unique receipts base.2⟩
      intro rev member
      rcases mem_publishes.mp member with old | new
      · exact base.1 rev old
      · exact records rev (mem_of_mem_filter new)
    unfold pushJob
    split
    · exact traced.keep rfl trivial
    split
    · exact (traced.commit made).keep rfl trivial
    · split
      · exact traced.keep rfl trivial
      · exact traced.keep rfl trivial
  · exact ⟨h, traced⟩

theorem World.Traced.step (traced : w.Traced h) (a : Action) (lawful : a.Lawful w) : ∃ more, (w.step codec a).1.Traced more := by
  cases a with
  | write i event => exact traced.write event lawful
  | register i op => exact traced.keep rfl (traced.phases i)
  | begin i branch target =>
    unfold World.step
    dsimp only
    split
    · exact traced.keep rfl trivial
    · exact ⟨h, traced⟩
  | fetch i => exact traced.fetch
  | importRegistry i => exact traced.importRegistry
  | importState i now mint => exact traced.importState now mint lawful
  | collect i => exact traced.collect
  | push i receipts otherFiles => exact traced.push receipts otherFiles

theorem World.Traced.guarded (traced : w.Traced h) (a : Action) : a.Guarded codec w := by
  intro i receipts otherFiles job seen tree pushed phase shared landed
  subst pushed
  have before := traced.phases i
  rw [phase] at before
  obtain ⟨_, clean, _, unmarked⟩ := before
  have longer : w.branches job.branch ≠ w.branches job.branch ++ [tree] := by
    intro same
    have lengths := congrArg List.length same
    rw [length_append, length_singleton] at lengths
    omega
  have committed : tree = job.publishes codec seen receipts := by
    have shape : w.step codec (.push i receipts otherFiles) = pushJob codec w i job seen receipts otherFiles := by
      unfold World.step
      dsimp only
      rw [phase]
    rw [shape] at landed
    unfold pushJob at landed
    split at landed
    · exact absurd landed longer
    split at landed
    · change (if job.branch = job.branch then w.branches job.branch ++ [job.publishes codec seen receipts] else _) = _ at landed
      rw [if_pos rfl] at landed
      exact (List.cons.inj (append_cancel_left landed)).1.symm
    · split at landed
      · exact absurd landed longer
      · exact absurd landed longer
  intro rev member
  rw [committed] at member
  have plain : rev.marked = false := (mem_publishes.mp member).elim (clean shared rev) (unmarked shared rev)
  exact Bool.or_eq_false_iff.mp plain

end Invariant

/-- In every run of any number of stores that write under new ids, import what some store made, and synchronise with
private and other targets: marks are never lost, and no commit for a target that is not private has a marked revision. -/
theorem sensitive_stays_private (codec : Codec) (actions : List Action)
    (lawful : Throughout (World.step codec) (fun w a => a.Lawful w) .empty actions) :
    Throughout (World.step codec) (fun w a => w.Marks ∧ a.Guarded codec w ∧ (w.step codec a).1.Marks) .empty actions := by
  have preserved : ∀ w a, (∃ h, World.Traced h w) → Action.Lawful w a → ∃ h, (w.step codec a).1.Traced h :=
    fun w a ⟨h, traced⟩ allowed => traced.step a allowed
  refine Throughout.mono preserved ?_ ⟨_, World.Traced.empty⟩ lawful
  intro w a ⟨h, traced⟩ allowed
  obtain ⟨more, next⟩ := @World.Traced.step codec w h traced a allowed
  exact ⟨traced.marks, traced.guarded a, next.marks⟩

def secretKept : List Action :=
  [.write 0 (.upsertState ⟨.workspace, "one", .setSensitive, .runtime ⟨.array [], .append⟩, "t0", "fl"⟩ "e1" "r1"),
    .write 0 (.upsertState ⟨.workspace, "one", .clearSensitive, .runtime ⟨.array [], .append⟩, "t1", "fl"⟩ "e1" "r2"),
    .begin 0 0 ⟨false, none, false⟩, .fetch 0, .importRegistry 0, .importState 0 "t2" id, .collect 0,
    .write 1 (.upsertState (counterArgs "two") "e2" "r3"),
    .begin 1 0 ⟨false, none, false⟩, .fetch 1, .importRegistry 1, .importState 1 "t2" id, .collect 1, .push 1 [] false]

theorem unused_of_two {w : World} {id : Iri} (first : (w.peers 0).store.state.Fresh id) (second : (w.peers 1).store.state.Fresh id)
    (others : ∀ n, (w.peers (n + 2)).store.state.revisions = []) : w.Unused id := by
  intro i
  match i with
  | 0 => exact first
  | 1 => exact second
  | n + 2 =>
    intro held member
    rw [others n] at member
    cases member

theorem lawful_nothing {w : World} {i : Nat} {now : At} {mint : Iri → Iri} (none : (w.peers i).phase.imports = []) :
    Action.Lawful w (.importState i now mint) := by
  intro job phase
  rw [phase] at none
  change topoSortRevisions job.base.revisions = [] at none
  rw [none]
  trivial

theorem secretKept_private :
    Throughout (World.step sampleCodec) (fun w a => a.Lawful w) .empty secretKept ∧
      Throughout (World.step sampleCodec)
        (fun w a => w.Marks ∧ a.Guarded sampleCodec w ∧ (w.step sampleCodec a).1.Marks) .empty secretKept ∧
      (trace (World.step sampleCodec) .empty secretKept).filterMap Prod.snd =
        [.error (.sensitiveDisclosure "e1"), .ok ()] ∧
      ((run (World.step sampleCodec) .empty secretKept).branches 0).map (fun tree => tree.revisions.map StateRevision.revisionId) =
        [["r3"]] := by
  have lawful : Throughout (World.step sampleCodec) (fun w a => a.Lawful w) .empty secretKept := by
    refine ⟨?_, ?_, trivial, trivial, trivial, ?_, trivial, ?_, trivial, trivial, trivial, ?_, trivial, trivial, trivial⟩
    · exact unused_of_two (fresh_iff.mp (by decide +kernel)) (fresh_iff.mp (by decide +kernel)) fun _ => rfl
    · exact unused_of_two (fresh_iff.mp (by decide +kernel)) (fresh_iff.mp (by decide +kernel)) fun _ => rfl
    · exact lawful_nothing (by decide +kernel)
    · exact unused_of_two (fresh_iff.mp (by decide +kernel)) (fresh_iff.mp (by decide +kernel)) fun _ => rfl
    · exact lawful_nothing (by decide +kernel)
  refine ⟨lawful, sensitive_stays_private sampleCodec secretKept lawful, ?_, ?_⟩
  · decide +kernel
  · decide +kernel

end FerroLoop.FerroState

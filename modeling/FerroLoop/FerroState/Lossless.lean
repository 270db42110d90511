import FerroLoop.FerroState.Sync

namespace FerroLoop.FerroState

open Std Checked Machine List StateRevision StateStore Machine

structure World.Recorded (w : World) : Prop where
  chain : ∀ b, (w.branches b).Pairwise Extends
  fits : ∀ b, ∀ tree ∈ w.branches b, tree.Fits
  distinct : ∀ b, ∀ tree ∈ w.branches b, (tree.revisions.map revisionId).Nodup

def Job.Current (job : Job) (branches : Nat → List BranchSnapshot) : Prop :=
  job.tip ≤ (branches job.branch).length ∧ job.base = headOf ((branches job.branch).take job.tip)

def Phase.Holds (branches : Nat → List BranchSnapshot) (state : StateStore) : Phase → Prop
  | .idle => True
  | .ready _ _ _ => True
  | .fetched job => job.Current branches
  | .registered job => job.Current branches
  | .imported job => job.Current branches ∧ ∀ rev ∈ job.base.revisions, state.Holds rev
  | .collected job seen =>
    job.Current branches ∧ seen.state.Unique ∧ ∀ rev ∈ job.base.revisions, state.Holds rev ∧ seen.state.Holds rev

structure World.Lossless (w : World) : Prop where
  recorded : w.Recorded
  unique : ∀ i, (w.peers i).store.state.Unique
  phases : ∀ i, (w.peers i).phase.Holds w.branches (w.peers i).store.state

theorem World.Lossless.empty : World.Lossless .empty :=
  ⟨⟨fun _ => List.Pairwise.nil, fun _ _ member => absurd member not_mem_nil, fun _ _ member => absurd member not_mem_nil⟩,
    fun _ => nodup_nil, fun _ => trivial⟩

variable {after : Nat → List BranchSnapshot}

theorem Job.Current.grow {job : Job} {before : Nat → List BranchSnapshot} (current : job.Current before)
    (grown : ∀ b, ∃ more, after b = before b ++ more) : job.Current after := by
  obtain ⟨within, base⟩ := current
  obtain ⟨more, same⟩ := grown job.branch
  refine ⟨?_, ?_⟩
  · rw [same, length_append]
    omega
  · rw [same, take_append_of_le_length within]
    exact base

theorem Phase.Holds.grow {phase : Phase} {before : Nat → List BranchSnapshot} {s t : StateStore}
    (holds : phase.Holds before s) (grown : ∀ b, ∃ more, after b = before b ++ more)
    (kept : ∀ rev, s.Holds rev → t.Holds rev) : phase.Holds after t := by
  cases phase with
  | idle => trivial
  | ready target branch tries => trivial
  | fetched job | registered job => exact Job.Current.grow holds grown
  | imported job => exact ⟨holds.1.grow grown, fun rev member => kept rev (holds.2 rev member)⟩
  | collected job seen =>
    exact ⟨holds.1.grow grown, holds.2.1, fun rev member => ⟨kept rev (holds.2.2 rev member).1, (holds.2.2 rev member).2⟩⟩

variable {tree : BranchSnapshot} {now : Workflow.At} {mint : Iri → Iri}

section Step

variable {codec : Codec} {w : World} {i : Nat}

theorem World.Lossless.setPeer (good : w.Lossless) {peer : Peer} (unique : peer.store.state.Unique)
    (holds : peer.phase.Holds w.branches peer.store.state) : (w.setPeer i peer).Lossless := by
  refine ⟨⟨good.recorded.chain, good.recorded.fits, good.recorded.distinct⟩, ?_, ?_⟩
  · intro j
    change (if j = i then peer else w.peers j).store.state.Unique
    split
    · exact unique
    · exact good.unique j
  · intro j
    change (if j = i then peer else w.peers j).phase.Holds w.branches (if j = i then peer else w.peers j).store.state
    split
    · exact holds
    · exact good.phases j

theorem World.Lossless.proceed (good : w.Lossless) {α : Type} {x : Except StateSyncError α} {next : α → Peer}
    (done : ∀ a, x = .ok a → (next a).store.state.Unique ∧ (next a).phase.Holds w.branches (next a).store.state) :
    (w.proceed i x next).1.Lossless := by
  unfold World.proceed
  split
  · rename_i a
    obtain ⟨unique, holds⟩ := done a rfl
    exact good.setPeer unique holds
  · exact good.setPeer (good.unique i) trivial

theorem headOf_fits (good : w.Lossless) (b : Nat) : (headOf (w.branches b)).Fits := by
  rcases headOf_cases (w.branches b) with ⟨none, _⟩ | member
  · rw [none]
    exact .empty
  · exact good.recorded.fits b _ member

theorem headOf_distinct (good : w.Lossless) (b : Nat) :
    ((headOf (w.branches b)).revisions.map revisionId).Nodup := by
  rcases headOf_cases (w.branches b) with ⟨none, _⟩ | member
  · rw [none]
    exact nodup_nil
  · exact good.recorded.distinct b _ member

theorem extends_head (good : w.Lossless) (b : Nat) (member : tree ∈ w.branches b) :
    Extends tree (headOf (w.branches b)) := by
  have chain := good.recorded.chain b
  generalize w.branches b = branch at chain member
  have filled : branch ≠ [] := ne_nil_of_mem member
  have split := dropLast_append_getLast filled
  have last : headOf branch = branch.getLast filled := by
    unfold headOf
    rw [getLast?_eq_getLast_of_ne_nil filled]
    rfl
  rw [last]
  rw [← split, pairwise_append] at chain
  rw [← split] at member
  rcases mem_append.mp member with before | same
  · exact chain.2.2 tree before _ (mem_singleton.mpr rfl)
  · rw [mem_singleton.mp same]
    exact .refl _

def Action.Mints (w : World) : Action → Prop
  | .write i event => event.Mints (w.peers i).store.state
  | .importState i now mint => ∀ job, (w.peers i).phase = .registered job →
    StateStore.Importing StateStore.Mints now (w.peers i).store.state
      ((topoSortRevisions job.base.revisions).map fun rev => (rev, mint rev.revisionId))
  | _ => True

def Action.Fits (codec : Codec) (w : World) : Action → Prop
  | .push i receipts _ => ∀ job seen, (w.peers i).phase = .collected job seen → (job.publishes codec seen receipts).Fits
  | _ => True

theorem write_lossless (good : w.Lossless) (event : Event) (mints : event.Mints (w.peers i).store.state) :
    (w.step codec (.write i event)).1.Lossless := by
  obtain ⟨⟨added, logs⟩, unique⟩ := step_logs event (good.unique i) mints
  exact good.setPeer unique ((good.phases i).grow (fun b => ⟨[], (append_nil _).symm⟩) fun rev held => logs.holds held)

theorem fetch_lossless (good : w.Lossless) : (w.step codec (.fetch i)).1.Lossless := by
  unfold World.step
  dsimp only
  split
  · rename_i target branch tries phase
    refine good.proceed ?_
    intro base done
    refine ⟨good.unique i, Nat.le_refl _, ?_⟩
    change base = headOf ((w.branches branch).take (w.branches branch).length)
    rw [take_length, fetchBranch_ok done, readable_eq (headOf_fits good branch)]
  · exact good

variable {target : StateSyncTarget} {base : BranchSnapshot} {store next : Store}

theorem importRegistry_state
    (done : importRegistry store target base = .ok next) : next.state = store.state := by
  unfold importRegistry at done
  split at done
  · obtain ⟨registry, _, done⟩ := bind_ok done
    cases done
    rfl
  · cases done
    rfl

theorem importRegistry_lossless (good : w.Lossless) : (w.step codec (.importRegistry i)).1.Lossless := by
  unfold World.step
  dsimp only
  split
  · rename_i job phase
    refine good.proceed ?_
    intro store done
    have same := importRegistry_state done
    have before := good.phases i
    rw [phase] at before
    refine ⟨?_, before⟩
    change store.state.Unique
    rw [same]
    exact good.unique i
  · exact good

theorem importState_ok
    (done : importState store target base now mint = .ok next) :
    refuseSensitive target (topoSortRevisions base.revisions) = .ok () ∧
      store.state.importStateRevisions now ((topoSortRevisions base.revisions).map fun rev => (rev, mint rev.revisionId)) =
        .ok next.state ∧ next.registry = store.registry := by
  obtain ⟨_, passed, done⟩ := bind_ok done
  obtain ⟨state, imported, done⟩ := bind_ok done
  cases done
  exact ⟨passed, mapError_ok imported, rfl⟩

theorem importState_lossless (good : w.Lossless) (now : Workflow.At) (mint : Iri → Iri)
    (mints : Action.Mints w (.importState i now mint)) : (w.step codec (.importState i now mint)).1.Lossless := by
  unfold World.step
  dsimp only
  split
  · rename_i job phase
    refine good.proceed ?_
    intro store done
    obtain ⟨_, imported, _⟩ := importState_ok done
    obtain ⟨every, added, logs⟩ := importStateRevisions_holds imported
    have before := good.phases i
    rw [phase] at before
    refine ⟨importStateRevisions_unique (good.unique i) (mints job phase) imported, before, ?_⟩
    intro rev member
    have distinct : (job.base.revisions.map revisionId).Nodup := by
      rw [before.2]
      rcases headOf_cases ((w.branches job.branch).take job.tip) with ⟨none, _⟩ | inside
      · rw [none]
        exact nodup_nil
      · exact good.recorded.distinct job.branch _ (mem_of_mem_take inside)
    exact every (rev, mint rev.revisionId) (mem_map_of_mem (mem_topoSort distinct member))
  · exact good

theorem collect_lossless (good : w.Lossless) : (w.step codec (.collect i)).1.Lossless := by
  unfold World.step
  dsimp only
  split
  · rename_i job phase
    refine good.proceed ?_
    intro _ _
    have before := good.phases i
    rw [phase] at before
    exact ⟨good.unique i, before.1, good.unique i, fun rev member => ⟨before.2 rev member, before.2 rev member⟩⟩
  · exact good

theorem World.Lossless.commit (good : w.Lossless) {b : Nat} (extended : Extends (headOf (w.branches b)) tree)
    (fits : tree.Fits) (distinct : (tree.revisions.map revisionId).Nodup) : (w.commit b tree).Lossless := by
  have grown : ∀ c, ∃ more, (w.commit b tree).branches c = w.branches c ++ more := by
    intro c
    change ∃ more, (if c = b then w.branches c ++ [tree] else w.branches c) = w.branches c ++ more
    split
    · exact ⟨_, rfl⟩
    · exact ⟨[], (append_nil _).symm⟩
  have member : ∀ c later, later ∈ (w.commit b tree).branches c → later ∈ w.branches c ∨ later = tree := by
    intro c later inside
    change later ∈ (if c = b then w.branches c ++ [tree] else w.branches c) at inside
    split at inside
    · exact (mem_append.mp inside).imp id fun new => mem_singleton.mp new
    · exact .inl inside
  refine ⟨⟨?_, ?_, ?_⟩, good.unique, ?_⟩
  · intro c
    change (if c = b then w.branches c ++ [tree] else w.branches c).Pairwise Extends
    split
    · rename_i same
      rw [same, pairwise_append]
      refine ⟨good.recorded.chain b, pairwise_singleton _ _, ?_⟩
      intro earlier before later new
      rw [mem_singleton.mp new]
      exact (extends_head good b before).trans extended
    · exact good.recorded.chain c
  · intro c later inside
    rcases member c later inside with old | new
    · exact good.recorded.fits c later old
    · rw [new]
      exact fits
  · intro c later inside
    rcases member c later inside with old | new
    · exact good.recorded.distinct c later old
    · rw [new]
      exact distinct
  · intro j
    exact (good.phases j).grow grown fun _ held => held

theorem unpublished_distinct {seen : Store} (unique : seen.state.Unique)
    (distinct : (base.revisions.map revisionId).Nodup) :
    ((base.revisions ++ unpublishedRevisions seen target base).map revisionId).Nodup := by
  rw [map_append, nodup_append]
  refine ⟨distinct, (filter_sublist.map _).nodup unique, ?_⟩
  intro id inside other outside same
  obtain ⟨held, member, rfl⟩ := mem_map.mp inside
  obtain ⟨rev, kept, rfl⟩ := mem_map.mp outside
  obtain ⟨_, passed⟩ := mem_filter.mp kept
  rw [Bool.and_eq_true, Bool.not_eq_true', any_eq_false] at passed
  exact passed.2 held member (beq_iff_eq.mpr same)

theorem publishes_distinct {job : Job} {seen : Store} (unique : seen.state.Unique) (receipts : List (List UInt8))
    (distinct : (job.base.revisions.map revisionId).Nodup) :
    ((job.publishes codec seen receipts).revisions.map revisionId).Nodup := by
  have perm := (@publish_revisions codec job.base (unpublishedRevisions seen job.target job.base)
    (unpublishedEvents seen job.target job.base) receipts).map revisionId
  exact perm.nodup_iff.mpr (unpublished_distinct unique distinct)

theorem push_lossless (good : w.Lossless) (receipts : List (List UInt8)) (otherFiles : Bool)
    (fits : Action.Fits codec w (.push i receipts otherFiles)) : (w.step codec (.push i receipts otherFiles)).1.Lossless := by
  unfold World.step
  dsimp only
  split
  · rename_i job seen phase
    have before := good.phases i
    rw [phase] at before
    obtain ⟨⟨_, base⟩, unique, _⟩ := before
    unfold pushJob
    split
    · exact good.setPeer (good.unique i) trivial
    split
    · rename_i landed
      rw [← landed, take_length] at base
      have committed : (w.commit job.branch (job.publishes codec seen receipts)).Lossless := by
        refine good.commit ?_ (fits job seen phase) (publishes_distinct unique receipts ?_)
        · rw [← base]
          exact publish_extends _ _ _ _
        · rw [base]
          exact headOf_distinct good job.branch
      exact committed.setPeer (good.unique i) trivial
    · split
      · exact good.setPeer (good.unique i) trivial
      · exact good.setPeer (good.unique i) trivial
  · exact good

theorem step_lossless (good : w.Lossless) (a : Action) (mints : a.Mints w) (fits : a.Fits codec w) :
    (w.step codec a).1.Lossless := by
  cases a with
  | write i event => exact write_lossless good event mints
  | register i op => exact good.setPeer (good.unique i) (good.phases i)
  | begin i branch target =>
    unfold World.step
    dsimp only
    split
    · exact good.setPeer (good.unique i) trivial
    · exact good
  | fetch i => exact fetch_lossless good
  | importRegistry i => exact importRegistry_lossless good
  | importState i now mint => exact importState_lossless good now mint mints
  | collect i => exact collect_lossless good
  | push i receipts otherFiles => exact push_lossless good receipts otherFiles fits

end Step

structure AppendOnly (codec : Codec) (a b : BranchSnapshot) : Prop where
  areas : render codec.eventLine a.areas <+: render codec.eventLine b.areas
  agents : render codec.eventLine a.agents <+: render codec.eventLine b.agents
  segments : ∀ (hash : String) (n : Nat) file, (a.segments[hash]?.getD [])[n]? = some file →
    ∃ later, (b.segments[hash]?.getD [])[n]? = some later ∧ render codec.revisionLine file <+: render codec.revisionLine later
  receipts : ∀ (n : Nat) file, a.receipts[n]? = some file →
    ∃ later, b.receipts[n]? = some later ∧ render id file <+: render id later
  revisions : ∀ rev ∈ a.revisions, rev ∈ b.revisions
  events : ∀ ev ∈ a.registryEvents, ev ∈ b.registryEvents

def World.OnlyGrows (codec : Codec) (w : World) : Prop :=
  ∀ b, (w.branches b).Pairwise (AppendOnly codec) ∧
    ∀ tree ∈ w.branches b, (tree.revisions.map revisionId).Nodup

/-- Where a sync returns without an error, its branch has all of the scope that its store had when it collected, and
its store has all of the commit it read. -/
def Action.Delivers (codec : Codec) (w : World) (a : Action) : Prop :=
  ∀ i receipts otherFiles job seen, a = .push i receipts otherFiles → (w.peers i).phase = .collected job seen →
    (w.step codec a).2 = some (.ok ()) →
      (∀ rev ∈ seen.state.revisions, job.target.covers rev.scope = true →
        ∃ held ∈ (headOf ((w.step codec a).1.branches job.branch)).revisions, held.Same rev) ∧
      (job.target.syncRegistry = true → ∀ ev ∈ seen.registry.events,
        ∃ held ∈ (headOf ((w.step codec a).1.branches job.branch)).registryEvents, held.eventId = ev.eventId) ∧
      ∀ rev ∈ (headOf ((w.branches job.branch).take job.tip)).revisions, ((w.step codec a).1.peers i).store.state.Holds rev

section Runs

variable {codec : Codec} {w : World}

theorem Extends.appendOnly {a b : BranchSnapshot} (extended : Extends a b) : AppendOnly codec a b := by
  refine ⟨render_grows extended.areas, render_grows extended.agents, ?_, ?_, fun _ => extended.revisions, fun _ => extended.events⟩
  · intro hash n file held
    obtain ⟨later, there, front⟩ := extended.segments hash n file held
    exact ⟨later, there, render_grows front⟩
  · intro n file held
    obtain ⟨later, there, front⟩ := extended.receipts n file held
    exact ⟨later, there, render_grows front⟩

theorem World.Lossless.onlyGrows (good : w.Lossless) : w.OnlyGrows codec :=
  fun b => ⟨(good.recorded.chain b).imp fun extended => extended.appendOnly, good.recorded.distinct b⟩

theorem published_all {job : Job} {seen : Store} (unique : seen.state.Unique)
    (read : ∀ rev ∈ job.base.revisions, seen.state.Holds rev)
    (base : ∀ rev ∈ job.base.revisions, rev ∈ tree.revisions)
    (new : ∀ rev ∈ unpublishedRevisions seen job.target job.base, rev ∈ tree.revisions) :
    ∀ rev ∈ seen.state.revisions, job.target.covers rev.scope = true → ∃ held ∈ tree.revisions, held.Same rev := by
  intro rev member covered
  cases known : job.base.revisions.any fun held => held.revisionId == rev.revisionId with
  | false =>
    refine ⟨rev, new rev (mem_filter.mpr ⟨member, ?_⟩), .refl rev⟩
    rw [covered, known]
    rfl
  | true =>
    -- The branch has the id, and the store has the branch's revision of it.
    obtain ⟨held, inside, named⟩ := any_eq_true.mp known
    obtain ⟨own, there, same⟩ := read held inside
    have equal := unique.same there member (same.id.trans (beq_iff_eq.mp named))
    exact ⟨held, base held inside, equal ▸ same.symm⟩

theorem published_events {job : Job} {seen : Store}
    (base : ∀ ev ∈ job.base.registryEvents, ev ∈ tree.registryEvents)
    (new : ∀ ev ∈ unpublishedEvents seen job.target job.base, ev ∈ tree.registryEvents)
    (included : job.target.syncRegistry = true) :
    ∀ ev ∈ seen.registry.events, ∃ held ∈ tree.registryEvents, held.eventId = ev.eventId := by
  intro ev member
  cases known : job.base.registryEvents.any fun held => held.eventId == ev.eventId with
  | false =>
    refine ⟨ev, new ev ?_, rfl⟩
    unfold unpublishedEvents
    rw [if_pos included]
    refine mem_filter.mpr ⟨member, ?_⟩
    rw [known]
    rfl
  | true =>
    obtain ⟨held, inside, named⟩ := any_eq_true.mp known
    exact ⟨held, base held inside, beq_iff_eq.mp named⟩

theorem step_delivers (good : w.Lossless) (a : Action) (fits : a.Fits codec w) : a.Delivers codec w := by
  intro i receipts otherFiles job seen pushed phase returned
  subst pushed
  have after := push_lossless good receipts otherFiles fits
  have before := good.phases i
  rw [phase] at before
  obtain ⟨⟨within, base⟩, unique, read⟩ := before
  -- The commit the job read is still behind the head.
  have behind : ∀ w' : World, w'.Lossless → (∃ more, w'.branches job.branch = w.branches job.branch ++ more) →
      Extends job.base (headOf (w'.branches job.branch)) := by
    intro w' kept ⟨more, same⟩
    rw [base]
    rcases headOf_cases ((w.branches job.branch).take job.tip) with ⟨none, _⟩ | inside
    · rw [none]
      refine ⟨ nil_prefix, nil_prefix, ?_, ?_⟩
      · intro hash n file held
        change (((∅ : ExtTreeMap String (List (List StateRevision)) compare)[hash]?).getD [])[n]? = some file at held
        cases held
      · intro n file held
        cases held
    · refine extends_head kept job.branch ?_
      rw [same]
      exact mem_append_left _ (mem_of_mem_take inside)
  have held : ∀ rev ∈ (headOf ((w.branches job.branch).take job.tip)).revisions, (w.peers i).store.state.Holds rev := by
    rw [← base]
    exact fun rev member => (read rev member).1
  have seenAll : ∀ rev ∈ job.base.revisions, seen.state.Holds rev := fun rev member => (read rev member).2
  have shape : w.step codec (.push i receipts otherFiles) = pushJob codec w i job seen receipts otherFiles := by
    unfold World.step
    dsimp only
    rw [phase]
  rw [shape] at returned after ⊢
  unfold pushJob at returned after ⊢
  split at returned
  · rename_i nothing
    rw [if_pos nothing] at after ⊢
    have extended := behind _ after ⟨[], (append_nil _).symm⟩
    have state : ((w.setPeer i ((w.peers i).finished job.branch job.tip)).peers i).store.state = (w.peers i).store.state := by
      change (if i = i then _ else _ : Peer).store.state = _
      rw [if_pos rfl]
      rfl
    refine ⟨published_all unique seenAll (fun rev => extended.revisions) ?_,
      published_events (fun ev => extended.events) ?_, fun rev member => state ▸ held rev member⟩
    · intro rev member
      rw [isEmpty_iff.mp nothing.1] at member
      cases member
    · intro ev member
      rw [isEmpty_iff.mp nothing.2.1] at member
      cases member
  · rename_i something
    rw [if_neg something] at after ⊢
    split at returned
    · rename_i landed
      rw [if_pos landed] at after ⊢
      have state : (((w.commit job.branch (job.publishes codec seen receipts)).setPeer i
          ((w.peers i).finished job.branch (job.tip + 1))).peers i).store.state = (w.peers i).store.state := by
        change (if i = i then _ else _ : Peer).store.state = _
        rw [if_pos rfl]
        rfl
      have head : headOf (((w.commit job.branch (job.publishes codec seen receipts)).setPeer i
          ((w.peers i).finished job.branch (job.tip + 1))).branches job.branch) = job.publishes codec seen receipts := by
        change headOf (if job.branch = job.branch then _ else _) = _
        rw [if_pos rfl, headOf_append]
      rw [head]
      have perm := @publish_revisions codec job.base (unpublishedRevisions seen job.target job.base)
        (unpublishedEvents seen job.target job.base) receipts
      refine ⟨published_all unique seenAll ?_ ?_, published_events ?_ ?_, fun rev member => state ▸ held rev member⟩
      · exact fun rev member => perm.mem_iff.mpr (mem_append_left _ member)
      · exact fun rev member => perm.mem_iff.mpr (mem_append_right _ member)
      · exact fun ev member => mem_publish_events.mpr (.inl member)
      · exact fun ev member => mem_publish_events.mpr (.inr member)
    · split at returned
      · cases returned
      · cases returned

/-- In every run of any number of stores, in every order of the parts of their syncs and of their writes, in which
no push needs a file numbered 10000 or higher: the branches only grow, and every sync that returns has delivered. -/
theorem syncs_lose_nothing (codec : Codec) (actions : List Action)
    (minting : Throughout (World.step codec) (fun w a => a.Mints w ∧ a.Fits codec w) .empty actions) :
    Throughout (World.step codec)
      (fun w a => w.OnlyGrows codec ∧ a.Delivers codec w ∧ (w.step codec a).1.OnlyGrows codec) .empty actions := by
  have preserved : ∀ w a, World.Lossless w → Action.Mints w a ∧ Action.Fits codec w a → (w.step codec a).1.Lossless :=
    fun w a good allowed => step_lossless good a allowed.1 allowed.2
  refine Throughout.mono preserved ?_ World.Lossless.empty minting
  intro w a good allowed
  exact ⟨good.onlyGrows, step_delivers good a allowed.2, (preserved w a good allowed).onlyGrows⟩

end Runs

def sampleTarget : StateSyncTarget := ⟨true, none, false⟩

def oneSync (i : Nat) (receipts : List (List UInt8)) (otherFiles : Bool) : List Action :=
  [.begin i 0 sampleTarget, .fetch i, .importRegistry i, .importState i "t0" (fun _ => "m1"), .collect i, .push i receipts otherFiles]

def sampleCodec : Codec where
  entryIdHash id := if id = "e1" then "8b5cc4df7eec7d32a7814eca4af047ae" else "ac0f09c0f8bf5e7a4b063d863255f16d"
  revisionLine rev :=
    ("\x7b\"revision_id\":\"" ++ rev.revisionId ++ "\",\"entry_id\":\"" ++ rev.entryId ++ "\",\"parent_revisions\":[]," ++
      "\"scope\":\"workspace\",\"concern\":\"runtime\",\"slug\":\"" ++ rev.slug ++ "\",\"sensitive\":false," ++
      "\"ever_sensitive\":false,\"payload\":\x7b\"runtime\":\x7b\"value\":[],\"merge_mode\":\"append\"\x7d\x7d,\"at\":\"" ++ rev.at_ ++
      "\",\"by\":\"" ++ rev.by_ ++ "\"\x7d").toUTF8.data.toList
  eventLine ev := ev.eventId.toUTF8.data.toList

def Phase.imports : Phase → List StateRevision
  | .registered job => topoSortRevisions job.base.revisions
  | _ => []

def Phase.pushes (codec : Codec) : Phase → BranchSnapshot
  | .collected job seen => job.publishes codec seen []
  | _ => .empty

variable {w : World} {i : Nat}

theorem mints_import
    (each : Importing Mints now (w.peers i).store.state
      ((w.peers i).phase.imports.map fun rev => (rev, mint rev.revisionId))) : Action.Mints w (.importState i now mint) := by
  intro job phase
  rw [phase] at each
  exact each

theorem mints_nothing (none : (w.peers i).phase.imports = []) :
    Action.Mints w (.importState i now mint) := by
  refine mints_import ?_
  rw [none]
  trivial

theorem fits_push {codec : Codec} {otherFiles : Bool}
    (few : ∀ held ∈ ((w.peers i).phase.pushes codec).segments.toList, held.2.length ≤ readableSegments)
    (short : ((w.peers i).phase.pushes codec).receipts.length ≤ readableSegments) :
    Action.Fits codec w (.push i [] otherFiles) := by
  intro job seen phase
  rw [phase] at few short
  refine ⟨?_, short⟩
  intro hash files held
  exact few (hash, files) (ExtTreeMap.mem_toList_iff_getElem?_eq_some.mpr held)

/-- A counter is written in one store, which publishes it, and another store fetches it. -/
def counterShared : List Action := .write 0 (.upsertState (counterArgs "one") "e1" "r1") :: oneSync 0 [] false ++ oneSync 1 [] false

theorem counterShared_delivers :
    Throughout (World.step sampleCodec) (fun w a => a.Mints w ∧ a.Fits sampleCodec w) .empty counterShared ∧
      Throughout (World.step sampleCodec)
        (fun w a => w.OnlyGrows sampleCodec ∧ a.Delivers sampleCodec w ∧ (w.step sampleCodec a).1.OnlyGrows sampleCodec)
        .empty counterShared ∧
      ((run (World.step sampleCodec) .empty counterShared).peers 1).store.state.revisions =
        [counterRevision "r1" "e1" "one" []] := by
  have allowed : Throughout (World.step sampleCodec) (fun w a => a.Mints w ∧ a.Fits sampleCodec w) .empty counterShared := by
    refine ⟨⟨?_, trivial⟩, ⟨trivial, trivial⟩, ⟨trivial, trivial⟩, ⟨trivial, trivial⟩, ⟨?_, trivial⟩, ⟨trivial, trivial⟩, ⟨trivial, ?_⟩,
      ⟨trivial, trivial⟩, ⟨trivial, trivial⟩, ⟨trivial, trivial⟩, ⟨?_, trivial⟩, ⟨trivial, trivial⟩, ⟨trivial, ?_⟩, trivial⟩
    · exact fresh_iff.mp (by decide +kernel)
    · exact mints_nothing rfl
    · exact fits_push (by decide +kernel) (by decide +kernel)
    · refine mints_import ?_
      have arriving : ((run (World.step sampleCodec) .empty (counterShared.take 10)).peers 1).phase.imports =
          [counterRevision "r1" "e1" "one" []] := by
        decide +kernel
      change Importing _ _ _ (List.map _
        ((run (World.step sampleCodec) .empty (counterShared.take 10)).peers 1).phase.imports)
      rw [arriving]
      refine ⟨⟨?_, ?_⟩, fun _ _ => trivial⟩
      · exact fresh_iff.mp (by decide +kernel)
      · decide
    · exact fits_push (by decide +kernel) (by decide +kernel)
  exact ⟨allowed, syncs_lose_nothing sampleCodec counterShared allowed, by decide +kernel⟩

def receiptsOnly (files : List (List (List UInt8))) : BranchSnapshot := ⟨[], [], ∅, files⟩

section Crowded

variable {codec : Codec} {files : List (List (List UInt8))}

theorem fetch_receipts (limited : ∀ file ∈ files, withinLimit id file = true) :
    fetchBranch codec [receiptsOnly files] 0 = .ok (receiptsOnly (files.take readableSegments)) := by
  have kept : ((files.take readableSegments).any fun file => !withinLimit id file) = false := by
    rw [any_eq_false]
    intro file member
    rw [limited file (mem_of_mem_take member)]
    decide
  have load : loadSnapshot codec (receiptsOnly files) = .ok (receiptsOnly (files.take readableSegments)) := by
    change ((refuseIf false _ : Except StateSyncError Unit) >>= fun _ =>
      (refuseIf false _ : Except StateSyncError Unit) >>= fun _ =>
      refuseIf ((files.take readableSegments).any fun file => !withinLimit id file) _ >>= fun _ => _) = _
    rw [kept]
    rfl
  change (loadSnapshot codec (receiptsOnly files) >>= fun next => verifyAppendOnlyStep codec .empty next >>= fun _ =>
    verifyCommits codec next []) = _
  rw [load]
  rfl

theorem push_lands {w : World} {i : Nat} {job : Job} {seen : Store} (phase : (w.peers i).phase = .collected job seen)
    (landed : (w.branches job.branch).length = job.tip) (receipts : List (List UInt8)) :
    w.step codec (.push i receipts true) =
      ((w.commit job.branch (job.publishes codec seen receipts)).setPeer i ((w.peers i).finished job.branch (job.tip + 1)),
        some (.ok ())) := by
  have shape : w.step codec (.push i receipts true) = pushJob codec w i job seen receipts true := by
    unfold World.step
    dsimp only
    rw [phase]
  rw [shape]
  unfold pushJob
  rw [if_neg (fun nothing => absurd nothing.2.2.2 (by decide)), if_pos landed]

theorem firstSync (receipts : List (List UInt8)) :
    (run (World.step codec) .empty (oneSync 0 receipts true)).branches 0 =
        [receiptsOnly (receipts.foldl (appendToSegments id) [])] ∧
      (run (World.step codec) .empty (oneSync 0 receipts true)).peers 1 = .empty := by
  have push := @push_lands codec (run (World.step codec) .empty ((oneSync 0 receipts true).take 5)) 0
    ⟨sampleTarget, 0, 0, 0, .empty⟩ .empty rfl rfl receipts
  have last : run (World.step codec) .empty (oneSync 0 receipts true) =
      (World.step codec (run (World.step codec) .empty ((oneSync 0 receipts true).take 5)) (.push 0 receipts true)).1 := rfl
  rw [last, push]
  exact ⟨rfl, rfl⟩

def receiptsJob (files : List (List (List UInt8))) : Job := ⟨sampleTarget, 0, 0, 1, receiptsOnly (files.take readableSegments)⟩

section SecondSync

variable {w : World} (branch : w.branches 0 = [receiptsOnly files]) (idle : w.peers 1 = .empty)
  (limited : ∀ file ∈ files, withinLimit id file = true)

include branch idle limited

theorem secondSync_reads :
    (w.step codec (.begin 1 0 sampleTarget)).1 = w.setPeer 1 ⟨.empty, fun _ => 0, .ready sampleTarget 0 0⟩ ∧
      ((w.setPeer 1 ⟨.empty, fun _ => 0, .ready sampleTarget 0 0⟩).step codec (.fetch 1)).1 =
        (w.setPeer 1 ⟨.empty, fun _ => 0, .ready sampleTarget 0 0⟩).setPeer 1 ⟨.empty, fun _ => 0, .fetched (receiptsJob files)⟩ := by
  constructor
  · unfold World.step
    dsimp only
    rw [idle]
    rfl
  · change (World.proceed _ 1 (fetchBranch codec (w.branches 0) 0) fun base =>
      ⟨.empty, fun _ => 0, .fetched ⟨sampleTarget, 0, 0, (w.branches 0).length, base⟩⟩).1 = _
    rw [branch, fetch_receipts limited]
    rfl

theorem secondSync :
    (run (World.step codec) w (oneSync 1 [] true)).branches 0 =
      [receiptsOnly files, receiptsOnly (files.take readableSegments)] := by
  obtain ⟨begins, fetches⟩ := @secondSync_reads codec files w branch idle limited
  unfold oneSync
  rw [run_cons, begins, run_cons, fetches]
  have push := @push_lands codec (run (World.step codec)
    ((w.setPeer 1 ⟨.empty, fun _ => 0, .ready sampleTarget 0 0⟩).setPeer 1 ⟨.empty, fun _ => 0, .fetched (receiptsJob files)⟩)
      [.importRegistry 1, .importState 1 "t0" (fun _ => "m1"), .collect 1]) 1 (receiptsJob files) .empty rfl (congrArg List.length branch) []
  change (World.step codec (run (World.step codec) _ [.importRegistry 1, .importState 1 "t0" (fun _ => "m1"), .collect 1])
    (.push 1 [] true)).1.branches 0 = _
  rw [push]
  change w.branches 0 ++ [receiptsOnly (files.take readableSegments)] = _
  rw [branch]
  rfl

end SecondSync

variable {α : Type}

theorem foldl_appendToSegments_limited {line : α → List UInt8} (items : List α) (files : List (List α))
    (short : ∀ item ∈ items, (line item).length + 1 ≤ maxSegmentBytes)
    (limited : ∀ file ∈ files, fileLength line file ≤ maxSegmentBytes) :
    ∀ file ∈ items.foldl (appendToSegments line) files, fileLength line file ≤ maxSegmentBytes := by
  have one (item : α) : fileLength line [item] = (line item).length + 1 := by
    simp [fileLength, render]
  induction items generalizing files with
  | nil => exact limited
  | cons item rest ih =>
    refine ih _ (fun other member => short other (mem_cons_of_mem _ member)) ?_
    have first := short item mem_cons_self
    unfold appendToSegments
    cases found : files.getLast? with
    | none =>
      intro file member
      rw [mem_singleton.mp member, one]
      exact first
    | some last =>
      dsimp only
      split
      · intro file member
        rcases mem_append.mp member with old | new
        · exact limited file old
        · rw [mem_singleton.mp new, one]
          exact first
      · rename_i room
        intro file member
        rcases mem_append.mp member with old | new
        · exact limited file ((dropLast_sublist files).subset old)
        have sum : fileLength line (last ++ [item]) = fileLength line last + ((line item).length + 1) := by
          rw [← one]
          unfold fileLength
          rw [render_append, length_append]
        rw [mem_singleton.mp new, sum]
        omega

theorem foldl_appendToSegments_flatten {line : α → List UInt8} (items : List α) (files : List (List α)) :
    (items.foldl (appendToSegments line) files).flatten = files.flatten ++ items := by
  induction items generalizing files with
  | nil => exact (append_nil _).symm
  | cons item rest ih =>
    rw [foldl_cons, ih, appendToSegments_flatten, append_assoc]
    rfl

theorem render_flatten_le {line : α → List UInt8} (files : List (List α))
    (limited : ∀ file ∈ files, fileLength line file ≤ maxSegmentBytes) :
    (render line files.flatten).length ≤ files.length * maxSegmentBytes := by
  induction files with
  | nil => exact Nat.zero_le _
  | cons file rest ih =>
    have head : (render line file).length ≤ maxSegmentBytes := limited file mem_cons_self
    have tail := ih fun other member => limited other (mem_cons_of_mem _ member)
    rw [flatten_cons, render_append, length_append, length_cons, Nat.succ_mul]
    omega

theorem render_length {line : α → List UInt8} {n : Nat} (items : List α) (even : ∀ item ∈ items, (line item).length = n) :
    (render line items).length = items.length * (n + 1) := by
  induction items with
  | nil => exact (Nat.zero_mul _).symm
  | cons item rest ih =>
    have tail := ih fun other member => even other (mem_cons_of_mem _ member)
    have head := even item mem_cons_self
    have split : render line (item :: rest) = (line item ++ [10]) ++ render line rest := rfl
    rw [split, length_append, length_append, tail, head, length_singleton, length_cons, Nat.succ_mul]
    omega

end Crowded

def receiptLine (n : Nat) : List UInt8 :=
  "\x7b\"message_id\":\"urn:uuid:00000000-0000-7000-8000-".toUTF8.data.toList ++
    (List.range 12).reverse.map (fun k => UInt8.ofNat (48 + n / 10 ^ k % 10)) ++
    "\",\"recipient_id\":\"urn:uuid:00000000-0000-7000-8000-00000000000a\",\"recipient_name\":\"reviewer\",".toUTF8.data.toList ++
    "\"status\":\"acked\",\"attempts\":1,\"updated_at\":\"2026-07-01T12:00:00Z\",\"acked_at\":\"2026-07-01T12:00:00Z\"\x7d".toUTF8.data.toList

theorem receiptLine_length (n : Nat) : (receiptLine n).length = 253 := by
  unfold receiptLine
  simp only [length_append, length_map]
  decide +kernel

@[irreducible] def manyReceipts : List (List UInt8) := (List.range 12000000).map receiptLine

theorem manyReceipts_even : ∀ line ∈ manyReceipts, line.length = 253 := by
  intro line member
  unfold manyReceipts at member
  obtain ⟨n, _, rfl⟩ := mem_map.mp member
  exact receiptLine_length n

theorem manyReceipts_length : manyReceipts.length = 12000000 := by
  unfold manyReceipts
  rw [length_map, length_range]

theorem filed_many {receipts : List (List UInt8)} (even : ∀ line ∈ receipts, line.length = 253) (count : 12000000 ≤ receipts.length) :
    (∀ file ∈ receipts.foldl (appendToSegments id) [], withinLimit id file = true) ∧
      readableSegments < (receipts.foldl (appendToSegments id) []).length := by
  have limited : ∀ file ∈ receipts.foldl (appendToSegments id) [], fileLength id file ≤ maxSegmentBytes := by
    refine foldl_appendToSegments_limited receipts [] ?_ (fun _ member => absurd member not_mem_nil)
    intro line member
    rw [id, even line member]
    decide
  refine ⟨fun file member => decide_eq_true (.inr (limited file member)), ?_⟩
  have room := render_flatten_le _ limited
  rw [foldl_appendToSegments_flatten, flatten_nil, nil_append, @render_length _ id 253 receipts even] at room
  unfold maxSegmentBytes at room
  unfold readableSegments
  omega

/-- One store publishes receipts, and another one then publishes something else. -/
def handover (receipts : List (List UInt8)) : List Action := oneSync 0 receipts true ++ oneSync 1 [] true

section Handover

variable {codec : Codec} {receipts : List (List UInt8)}

section

variable (limited : ∀ file ∈ receipts.foldl (appendToSegments id) [], withinLimit id file = true)

include limited

theorem handover_mints : Throughout (World.step codec) (fun w a => a.Mints w) .empty (handover receipts) := by
  obtain ⟨branch, idle⟩ := @firstSync codec receipts
  refine Throughout.append.mpr ⟨⟨trivial, trivial, trivial, mints_nothing rfl, trivial, trivial, trivial⟩, ?_⟩
  generalize run (World.step codec) .empty (oneSync 0 receipts true) = w at branch idle
  obtain ⟨begins, fetches⟩ := secondSync_reads branch idle limited
  refine ⟨trivial, trivial, trivial, ?_, trivial, trivial, trivial⟩
  rw [begins, fetches]
  exact mints_nothing rfl

/-- Where the receipts need more files than the reader reads, the second commit does not have them all. -/
theorem handover_drops (many : readableSegments < (receipts.foldl (appendToSegments id) []).length) :
    ¬ (run (World.step codec) .empty (handover receipts)).OnlyGrows codec := by
  intro grows
  obtain ⟨branch, idle⟩ := @firstSync codec receipts
  have chain := (grows 0).1
  unfold handover at chain
  rw [run_append, secondSync branch idle limited] at chain
  have step := (pairwise_cons.mp chain).1 _ (mem_singleton.mpr rfl)
  obtain ⟨later, there, _⟩ := step.receipts readableSegments _ (getElem?_eq_getElem many)
  unfold receiptsOnly at there
  rw [getElem?_take_eq_none (Nat.le_refl _)] at there
  cases there

end

end Handover

/-- Twelve million receipts of 253 bytes each need 11588 files, of which the second store reads 10000. -/
theorem manyReceipts_dropped :
    Throughout (World.step sampleCodec) (fun w a => a.Mints w) .empty (handover manyReceipts) ∧
      ¬ (run (World.step sampleCodec) .empty (handover manyReceipts)).OnlyGrows sampleCodec := by
  obtain ⟨limited, many⟩ := filed_many manyReceipts_even (Nat.le_of_eq manyReceipts_length.symm)
  exact ⟨handover_mints limited, handover_drops limited many⟩

end FerroLoop.FerroState

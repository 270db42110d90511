import FerroLoop.FerroState.Disclosure
import FerroLoop.FerroState.Woven

namespace FerroLoop.FerroState

open Std Machine List StateStore World Machine StateEntry
open Workflow (MergeMode At)

def World.StandsFor (w : World) (k : Key) (id : Iri) : Prop := ∃ rev, w.Has rev ∧ rev.key = k ∧ rev.entryId = id

structure World.Tends (w : World) (k : Key) (i : Nat) (entry : StateEntry) : Prop where
  found : (w.peers i).store.state.entryOf k = some entry
  filed : (w.peers i).store.state.Filed
  shown : (w.peers i).store.state.Shown
  keyed : ∀ rev ∈ (w.peers i).store.state.revisions, ∃ its, (w.peers i).store.state.entries[rev.entryId]? = some its ∧ its.key = rev.key
  closed : ∀ rev ∈ (w.peers i).store.state.revisions, ∀ parent ∈ rev.parentRevisions,
    ∃ held ∈ (w.peers i).store.state.revisions, held.revisionId = parent
  aliases : ∀ id primary : Iri, (w.peers i).store.state.ids.aliases[id]? = some primary →
    ∃ its, (w.peers i).store.state.entries[primary]? = some its
  clear : ∀ id, w.StandsFor k id → (w.peers i).store.state.conflicts[id]? = none

/-- Two stores have a runtime entry of one key whose merge mode is not left to the user, and neither head is behind
the other. An entry id belongs to one key, and a revision has the key of its parents. -/
structure World.Diverged (w : World) (k : Key) (mode : MergeMode) (i j : Nat) (ours theirs : StateEntry) : Prop where
  apart : i ≠ j
  idle : (w.peers i).phase = .idle ∧ (w.peers j).phase = .idle
  traced : ∃ h, w.Traced h
  ids : ∀ rev held, w.Has rev → w.Has held → rev.key = k → rev.entryId = held.entryId → held.key = k
  parents : ∀ rev held, w.Has rev → w.Has held → rev.key = k → held.revisionId ∈ rev.parentRevisions → held.key = k
  merges : mode ≠ .conflict
  automatic : ∀ rev, w.Has rev → rev.key = k → History.Automatic mode rev
  here : w.Tends k i ours
  there : w.Tends k j theirs
  beside : isAncestorInDag theirs.headRevision ours.headRevision ((w.peers i).store.state.dag ours.id) = false ∧
    isAncestorInDag ours.headRevision theirs.headRevision ((w.peers j).store.state.dag theirs.id) = false

def Action.SyncsAs (p : Nat) : Action → Prop
  | .begin i _ _ => i = p
  | .fetch i => i = p
  | .importRegistry i => i = p
  | .importState i _ _ => i = p
  | .collect i => i = p
  | .push i _ _ => i = p
  | .write _ _ => False
  | .register _ _ => False

/-- Both stores have the same head and payload of the entry and no conflict, and a further sync of either makes and
publishes no revision. -/
structure World.Settled (codec : Codec) (w : World) (k : Key) (i j : Nat) : Prop where
  same : ∃ ours theirs, (w.peers i).store.state.entryOf k = some ours ∧ (w.peers j).store.state.entryOf k = some theirs ∧
    ours.headRevision = theirs.headRevision ∧ ours.payload = theirs.payload ∧
    (w.peers i).store.state.conflicts[ours.id]? = none ∧ (w.peers j).store.state.conflicts[theirs.id]? = none
  quiet : ∀ p, p = i ∨ p = j → ∀ actions, (∀ a ∈ actions, Action.SyncsAs p a) →
    Throughout (step codec) (fun w a => a.Lawful w) w actions →
      ((run (step codec) w actions).peers p).store.state.revisions = (w.peers p).store.state.revisions ∧
        ∀ b, (headOf ((run (step codec) w actions).branches b)).revisions = (headOf (w.branches b)).revisions

def History.Kin (h : History) (own : Iri → Prop) (k : Key) (rev : StateRevision) : Prop :=
  h.Records rev ∧ (own rev.entryId ↔ rev.key = k)

variable {rev : StateRevision} {k : Key} {s : StateStore} {w : World} {own : Iri → Prop}

theorem History.Kin.grow {h more : History} (kin : h.Kin own k rev)
    (extended : h.Extends more) : more.Kin own k rev := ⟨kin.1.grow extended, kin.2⟩

def Phase.Shows (holds : StateRevision → Prop) : Phase → Prop
  | .idle => True
  | .ready _ _ _ => True
  | .fetched job => ∀ rev ∈ job.base.revisions, holds rev
  | .registered job => ∀ rev ∈ job.base.revisions, holds rev
  | .imported job => ∀ rev ∈ job.base.revisions, holds rev
  | .collected job seen => (∀ rev ∈ job.base.revisions, holds rev) ∧ ∀ rev ∈ seen.state.revisions, holds rev

theorem Phase.Shows.mono {phase : Phase} {holds shown : StateRevision → Prop} (all : phase.Shows holds)
    (follows : ∀ rev, holds rev → shown rev) : phase.Shows shown := by
  cases phase with
  | idle => trivial
  | ready target branch tries => trivial
  | fetched job | registered job | imported job => exact fun rev member => follows rev (all rev member)
  | collected job seen => exact ⟨fun rev member => follows rev (all.1 rev member), fun rev member => follows rev (all.2 rev member)⟩

structure World.Spun (h : History) (own : Iri → Prop) (k : Key) (i j : Nat) (w : World) : Prop where
  known : ∀ id made, h id = some made → ∃ p, ∃ rev ∈ (w.peers p).store.state.revisions, rev.revisionId = id
  commits : ∀ b, ∀ tree ∈ w.branches b, ∀ rev ∈ tree.revisions, h.Kin own k rev
  phases : ∀ p, p = i ∨ p = j → (w.peers p).phase.Shows (h.Kin own k)

section Turns

variable {codec : Codec} {w : World} {h more : History} {own : Iri → Prop} {k : Key} {mode : MergeMode} {i j p : Nat} {e head : Iri}

def World.Goes (h : History) (own : Iri → Prop) (k : Key) (mode : MergeMode) (i j p : Nat) (head : Iri) (w after : World) : Prop :=
  ∃ more next, Advances h own k mode (w.peers p).store.state head more (after.peers p).store.state next ∧
    after.Spun more own k i j ∧ ∀ q, q ≠ p → after.peers q = w.peers q

theorem World.Spun.setPeer (spun : w.Spun h own k i j) {peer : Peer} {next : Iri}
    (advances : Advances h own k mode (w.peers p).store.state head more peer.store.state next)
    (phase : peer.phase.Shows (more.Kin own k)) : Goes h own k mode i j p head w (w.setPeer p peer) := by
  have self : (w.setPeer p peer).peers p = peer := if_pos rfl
  have others : ∀ q, q ≠ p → (w.setPeer p peer).peers q = w.peers q := fun q apart => if_neg apart
  refine ⟨more, next, self.symm ▸ advances, ⟨?_, ?_, ?_⟩, others⟩
  · intro id made found
    rcases advances.origin id made found with before | here
    · obtain ⟨q, rev, member, named⟩ := spun.known id made before
      by_cases same : q = p
      · subst same
        obtain ⟨held, there, equal⟩ := advances.kept rev member
        refine ⟨q, held, ?_, equal.trans named⟩
        rw [self]
        exact there
      · refine ⟨q, rev, ?_, named⟩
        rw [others q same]
        exact member
    · refine ⟨p, ?_⟩
      rw [self]
      exact here
  · exact fun b tree inside rev member => (spun.commits b tree inside rev member).grow advances.extended
  · intro q either
    by_cases same : q = p
    · rw [same, self]
      exact phase
    · rw [others q same]
      exact (spun.phases q either).mono fun rev kin => kin.grow advances.extended

theorem readable_subset (tree : BranchSnapshot) : (readable tree).revisions ⊆ tree.revisions := by
  intro rev member
  change rev ∈ (tree.segments.map fun _ files => files.take readableSegments).toList.flatMap fun files => files.2.flatten at member
  rw [ExtTreeMap.toList_map, mem_flatMap] at member
  obtain ⟨files, listed, inside⟩ := member
  obtain ⟨all, there, rfl⟩ := mem_map.mp listed
  obtain ⟨file, early, held⟩ := mem_flatten.mp inside
  exact mem_flatMap.mpr ⟨all, there, mem_flatten.mpr ⟨file, mem_of_mem_take early, held⟩⟩

theorem World.Spun.unused (spun : w.Spun h own k i j) {id : Iri} (unused : w.Unused id) : h id = none := by
  cases found : h id with
  | none => rfl
  | some made =>
    obtain ⟨q, rev, member, named⟩ := spun.known id made found
    exact absurd named (unused q rev member)

variable (spun : w.Spun h own k i j) (woven : Woven h own k (w.peers p).store.state e head)
  (line : h.Line k mode)

include spun woven line

theorem World.Spun.keep {peer : Peer} (state : peer.store.state = (w.peers p).store.state) (phase : peer.phase.Shows (h.Kin own k)) :
    Goes h own k mode i j p head w (w.setPeer p peer) := by
  have unchanged : Advances h own k mode (w.peers p).store.state head h peer.store.state head := by
    rw [state]
    exact .refl woven line
  exact spun.setPeer unchanged phase

theorem World.Spun.stay : Goes h own k mode i j p head w w :=
  ⟨h, head, .refl woven line, spun, fun _ _ => rfl⟩

theorem World.Spun.proceed {α : Type} {x : Except StateSyncError α} {next : α → Peer}
    (done : ∀ a, x = .ok a → Goes h own k mode i j p head w (w.setPeer p (next a))) :
    Goes h own k mode i j p head w (w.proceed p x next).1 := by
  unfold World.proceed
  split
  · exact done _ rfl
  · exact spun.keep woven line rfl trivial

theorem World.Spun.fetch : Goes h own k mode i j p head w (w.step codec (.fetch p)).1 := by
  unfold step
  dsimp only
  split
  · rename_i target branch tries phase
    refine spun.proceed woven line fun base done => spun.keep woven line rfl ?_
    intro rev member
    rw [fetchBranch_ok done] at member
    have inside := readable_subset _ member
    rcases headOf_cases (w.branches branch) with ⟨none, _⟩ | listed
    · rw [none] at inside
      cases inside
    · exact spun.commits branch _ listed rev inside
  · exact spun.stay woven line

variable (busy : p = i ∨ p = j)

include busy

theorem World.Spun.importRegistry : Goes h own k mode i j p head w (w.step codec (.importRegistry p)).1 := by
  unfold step
  dsimp only
  split
  · rename_i job phase
    have before := spun.phases p busy
    rw [phase] at before
    exact spun.proceed woven line fun store done => spun.keep woven line (importRegistry_state done) before
  · exact spun.stay woven line

theorem World.Spun.importState (now : At) (mint : Iri → Iri) (lawful : Action.Lawful w (.importState p now mint)) :
    Goes h own k mode i j p head w (w.step codec (.importState p now mint)).1 := by
  unfold step
  dsimp only
  split
  · rename_i job phase
    have before := spun.phases p busy
    rw [phase] at before
    refine spun.proceed woven line fun store done => ?_
    obtain ⟨_, imported, _⟩ := importState_ok done
    obtain ⟨more, next, advances⟩ := @Woven.importStateRevisions _ _ h own k mode e head now woven
      ((topoSortRevisions job.base.revisions).map fun rev => (rev, mint rev.revisionId)) (fun id => ¬ w.Unused id) line
      (fun id made found => .inl fun unused => by rw [spun.unused unused] at found; cases found)
      (by
        intro pair member
        obtain ⟨rev, inside, rfl⟩ := mem_map.mp member
        exact before rev (mem_of_mem_topoSort inside))
      ((lawful job phase).mono fun _ _ _ both => ⟨both.1.1, not_not.mpr both.2⟩) imported
    exact spun.setPeer advances fun rev member => (before rev member).grow advances.extended
  · exact spun.stay woven line

theorem World.Spun.collect : Goes h own k mode i j p head w (w.step codec (.collect p)).1 := by
  unfold step
  dsimp only
  split
  · rename_i job phase
    have before := spun.phases p busy
    rw [phase] at before
    refine spun.proceed woven line fun found done => spun.keep woven line rfl ⟨before, ?_⟩
    intro rev member
    refine ⟨woven.recorded rev member, woven.only rev member, ?_⟩
    intro key
    exact ((woven.line rev member).mp key).symm ▸ woven.owned
  · exact spun.stay woven line

theorem World.Spun.push (receipts : List (List UInt8)) (otherFiles : Bool) :
    Goes h own k mode i j p head w (w.step codec (.push p receipts otherFiles)).1 := by
  unfold step
  dsimp only
  split
  · rename_i job seen phase
    have before := spun.phases p busy
    rw [phase] at before
    unfold pushJob
    split
    · exact spun.keep woven line rfl trivial
    split
    · have landed : (w.commit job.branch (job.publishes codec seen receipts)).Spun h own k i j := by
        refine ⟨spun.known, ?_, spun.phases⟩
        intro b tree inside rev member
        change tree ∈ (if b = job.branch then w.branches b ++ [job.publishes codec seen receipts] else w.branches b) at inside
        split at inside
        · rcases mem_append.mp inside with old | new
          · exact spun.commits b tree old rev member
          rw [mem_singleton.mp new] at member
          rcases mem_publishes.mp member with read | collected
          · exact before.1 rev read
          · exact before.2 rev (mem_of_mem_filter collected)
        · exact spun.commits b tree inside rev member
      exact landed.keep woven line rfl trivial
    · split
      · exact spun.keep woven line rfl trivial
      · exact spun.keep woven line rfl trivial
  · exact spun.stay woven line

theorem World.Spun.step {a : Action} (turn : a.SyncsAs p) (lawful : a.Lawful w) :
    Goes h own k mode i j p head w (w.step codec a).1 := by
  cases a with
  | write q event | register q op => exact turn.elim
  | begin q branch target =>
    subst turn
    unfold step
    dsimp only
    split
    · exact spun.keep woven line rfl trivial
    · exact spun.stay woven line
  | fetch q =>
    subst turn
    exact spun.fetch woven line
  | importRegistry q =>
    subst turn
    exact spun.importRegistry woven line busy
  | importState q now mint =>
    subst turn
    exact spun.importState woven line busy now mint lawful
  | collect q =>
    subst turn
    exact spun.collect woven line busy
  | push q receipts otherFiles =>
    subst turn
    exact spun.push woven line busy receipts otherFiles

theorem World.Spun.turn {actions : List Action} (turn : ∀ a ∈ actions, a.SyncsAs p)
    (lawful : Throughout (World.step codec) (fun w a => a.Lawful w) w actions) :
    World.Goes h own k mode i j p head w (run (World.step codec) w actions) := by
  induction actions generalizing w h e head with
  | nil => exact spun.stay woven line
  | cons a rest ih =>
    obtain ⟨more, next, advances, spun', others⟩ := @Spun.step codec _ _ _ _ _ _ _ _ _ _ spun woven line busy a
      (turn a mem_cons_self) lawful.1
    obtain ⟨e', woven'⟩ := advances.woven
    obtain ⟨last, final, later, spun'', others'⟩ := ih spun' woven' advances.line
      (fun b member => turn b (mem_cons_of_mem _ member)) lawful.2
    refine ⟨last, final, advances.trans line later, spun'', ?_⟩
    intro q apart
    exact (others' q apart).trans (others q apart)

end Turns

section Diverged

variable {w : World} {h : History} {k : Key} {mode : MergeMode} {i j p : Nat} {ours theirs entry : StateEntry}

theorem World.Traced.has (traced : w.Traced h) {id : Iri} {made : StateRevision} (found : h id = some made) :
    ∃ rev, w.Has rev ∧ rev.revisionId = id ∧ rev.Same made := by
  obtain ⟨q, rev, member, named⟩ := traced.known id made found
  obtain ⟨same, known, equal⟩ := (traced.stores q).revisions rev member
  rw [named, found] at known
  cases known
  exact ⟨rev, .inl ⟨q, member⟩, named, equal⟩

theorem World.Diverged.line (diverged : w.Diverged k mode i j ours theirs) (traced : w.Traced h) : h.Line k mode := by
  refine ⟨diverged.merges, ?_, ?_⟩
  · intro id made found key
    obtain ⟨rev, has, _, same⟩ := traced.has found
    obtain ⟨value, payload, array⟩ := diverged.automatic rev has (same.key.trans key)
    exact ⟨value, same.payload.symm.trans payload, array⟩
  · intro id made found key parent listed
    obtain ⟨before, known, _⟩ := traced.sticky.inherited id made found parent listed
    obtain ⟨rev, has, _, same⟩ := traced.has found
    obtain ⟨held, hasHeld, named, equal⟩ := traced.has known
    refine ⟨before, known, equal.key.symm.trans (diverged.parents rev held has hasHeld (same.key.trans key) ?_)⟩
    rw [named, same.parents]
    exact listed

theorem World.Tends.woven (tends : w.Tends k p entry) (traced : w.Traced h)
    (ids : ∀ rev held, w.Has rev → w.Has held → rev.key = k → rev.entryId = held.entryId → held.key = k) :
    Woven h (w.StandsFor k) k (w.peers p).store.state entry.id entry.headRevision := by
  obtain ⟨there, key⟩ := entryOf_some tends.filed tends.found
  have keyed : (w.peers p).store.state.keys[k]? = some entry.id := key ▸ tends.filed.listed _ _ there
  have has : ∀ rev ∈ (w.peers p).store.state.revisions, w.Has rev := fun rev member => .inl ⟨p, member⟩
  have line : ∀ rev ∈ (w.peers p).store.state.revisions, rev.key = k ↔ rev.entryId = entry.id := by
    intro rev member
    obtain ⟨its, found, same⟩ := tends.keyed rev member
    constructor
    · intro own
      have listed := tends.filed.listed _ _ found
      rw [same, own, keyed] at listed
      exact (Option.some.inj listed).symm
    · intro named
      rw [named, there] at found
      cases found
      exact same.symm.trans key
  have only : ∀ rev ∈ (w.peers p).store.state.revisions, w.StandsFor k rev.entryId → rev.key = k := by
    rintro rev member ⟨other, known, own, named⟩
    exact ids other rev known (has rev member) own named
  -- Every entry has a head under its id, which says whose the id is.
  have owner : ∀ e its, (w.peers p).store.state.entries[e]? = some its → w.StandsFor k e → its.key = k ∧ e = entry.id := by
    intro e its found stands
    obtain ⟨top, member, _, named⟩ := tends.filed.headed e its found
    have own := only top member (named.symm ▸ stands)
    obtain ⟨same, located, equal⟩ := tends.keyed top member
    rw [named, found] at located
    cases located
    exact ⟨equal.trans own, named.symm.trans ((line top member).mp own)⟩
  obtain ⟨top, member, isHead, named⟩ := tends.filed.headed _ _ there
  have topKey : top.key = k := (line top member).mpr named
  have stands : w.StandsFor k entry.id := ⟨top, has top member, topKey, named⟩
  refine ⟨(traced.stores p).revisions, line, only, fun rev member _ => tends.closed rev member, ⟨entry, there, key, rfl⟩,
    ⟨top, member, isHead, topKey⟩, ?_, keyed, ?_, stands, tends.filed.primary _ _ there, ?_, tends.clear⟩
  · intro rev inside own
    obtain ⟨its, found, behind⟩ := tends.shown rev inside
    have here := (line rev inside).mp own
    rw [here] at found behind
    rw [there] at found
    cases found
    rcases behind with path | ⟨conflict, recorded, _⟩
    · exact path.anc fun held listed => (traced.stores p).revisions held (mem_dag.mp listed).1
    · rw [tends.clear _ stands] at recorded
      cases recorded
  · intro other e held stands
    obtain ⟨its, found, same⟩ := tends.filed.keyed other e held
    exact same.symm.trans (owner e its found stands).1
  · intro id primary aliased stands
    obtain ⟨its, found⟩ := tends.aliases id primary aliased
    exact (owner primary its found stands).2

theorem World.Diverged.spun (diverged : w.Diverged k mode i j ours theirs) (traced : w.Traced h) : w.Spun h (w.StandsFor k) k i j := by
  refine ⟨traced.known, ?_, ?_⟩
  · intro b tree inside rev member
    have has : w.Has rev := .inr ⟨b, tree, inside, member⟩
    refine ⟨traced.records has, ?_, fun key => ⟨rev, has, key, rfl⟩⟩
    rintro ⟨other, known, own, named⟩
    exact diverged.ids other rev known has own named
  · rintro q (rfl | rfl)
    · rw [diverged.idle.1]
      trivial
    · rw [diverged.idle.2]
      trivial

end Diverged

variable {entry : StateEntry}

theorem StateStore.Woven.entryOf {h : History} {e head : Iri}
    (woven : Woven h own k s e head) (found : s.entryOf k = some entry) : entry.headRevision = head := by
  obtain ⟨its, there, _, headed⟩ := woven.entry
  unfold StateStore.entryOf at found
  rw [woven.keyed] at found
  dsimp only at found
  rw [there] at found
  cases found
  exact headed

/-- Whatever two stores have diverged, on an entry that merges by itself, and however they synchronise in turn, each
twice and under ids that are new: the entry does not settle. -/
theorem merges_never_settle (codec : Codec) (w : World) (k : Key) (mode : MergeMode) (i j : Nat) (ours theirs : StateEntry)
    (diverged : w.Diverged k mode i j ours theirs) (first second third fourth : List Action) (turnA : ∀ a ∈ first, a.SyncsAs i)
    (turnB : ∀ a ∈ second, a.SyncsAs j) (againA : ∀ a ∈ third, a.SyncsAs i) (againB : ∀ a ∈ fourth, a.SyncsAs j)
    (lawful : Throughout (World.step codec) (fun w a => a.Lawful w) w (first ++ (second ++ (third ++ fourth)))) :
    ¬ (run (World.step codec) w (first ++ (second ++ (third ++ fourth)))).Settled codec k i j := by
  intro settled
  obtain ⟨h, traced⟩ := diverged.traced
  have line := diverged.line traced
  have here := diverged.here.woven traced diverged.ids
  have there := diverged.there.woven traced diverged.ids
  rw [Throughout.append, Throughout.append, Throughout.append] at lawful
  obtain ⟨law₁, law₂, law₃, law₄⟩ := lawful
  rw [run_append, run_append, run_append] at settled
  obtain ⟨h₁, headA₁, one, spun₁, others₁⟩ := (diverged.spun traced).turn here line (Or.inl rfl) turnA law₁
  generalize run (World.step codec) w first = w₁ at *
  have storeB : w₁.peers j = w.peers j := others₁ j diverged.apart.symm
  have there₁ : Woven h₁ (w.StandsFor k) k (w₁.peers j).store.state theirs.id theirs.headRevision := by
    rw [storeB]
    exact there.grow one.extended
  obtain ⟨h₂, headB₂, two, spun₂, others₂⟩ := spun₁.turn there₁ one.line (Or.inr rfl) turnB law₂
  generalize run (World.step codec) w₁ second = w₂ at *
  have storeA : w₂.peers i = w₁.peers i := others₂ i diverged.apart
  obtain ⟨idA₁, wovenA₁⟩ := one.woven
  have here₂ : Woven h₂ (w.StandsFor k) k (w₂.peers i).store.state idA₁ headA₁ := by
    rw [storeA]
    exact wovenA₁.grow two.extended
  obtain ⟨h₃, headA₃, three, spun₃, others₃⟩ := spun₂.turn here₂ two.line (Or.inl rfl) againA law₃
  generalize run (World.step codec) w₂ third = w₃ at *
  have storeB₃ : w₃.peers j = w₂.peers j := others₃ j diverged.apart.symm
  obtain ⟨idB₂, wovenB₂⟩ := two.woven
  have there₃ : Woven h₃ (w.StandsFor k) k (w₃.peers j).store.state idB₂ headB₂ := by
    rw [storeB₃]
    exact wovenB₂.grow three.extended
  obtain ⟨h₄, headB₄, four, spun₄, others₄⟩ := spun₃.turn there₃ three.line (Or.inr rfl) againB law₄
  generalize run (World.step codec) w₃ fourth = w₄ at *
  have storeA₄ : w₄.peers i = w₃.peers i := others₄ i diverged.apart
  rw [storeB] at two
  rw [storeA] at three
  rw [storeB₃] at four
  obtain ⟨notAhead, notBehind⟩ := diverged.beside
  have ahead : ¬ h.Anc theirs.headRevision ours.headRevision := by
    intro path
    obtain ⟨top, inside, named, key⟩ := here.headed
    obtain ⟨within, _⟩ := path.ancestor here.dag_recorded (here.dag_closed line) ⟨top, here.mem_dag.mpr ⟨inside, key⟩, named⟩
    rw [isAncestorInDag_iff.mpr within] at notAhead
    cases notAhead
  have behind : ¬ h.Anc ours.headRevision theirs.headRevision := by
    intro path
    obtain ⟨top, inside, named, key⟩ := there.headed
    obtain ⟨within, _⟩ := path.ancestor there.dag_recorded (there.dag_closed line) ⟨top, there.mem_dag.mpr ⟨inside, key⟩, named⟩
    rw [isAncestorInDag_iff.mpr within] at notBehind
    cases notBehind
  obtain ⟨mine, yours, foundA, foundB, equal, _⟩ := settled.same
  obtain ⟨_, wovenA₃⟩ := three.woven
  obtain ⟨_, wovenB₄⟩ := four.woven
  rw [storeA₄] at foundA
  refine heads_never_meet line here there behind ahead one two three four ?_
  rw [← wovenA₃.entryOf foundA, ← wovenB₄.entryOf foundB]
  exact equal

/-! ### Two stores that add an item each -/

variable {mergeAt : At}

/-- Whatever is in the log after an import was there before, or is the revision or the merge it needed. -/
theorem importRevision_from {t : StateStore} {held : StateRevision} {minted : Iri}
    (done : s.importRevision rev mergeAt minted = .ok t) (member : held ∈ t.revisions) :
    (∃ old ∈ s.revisions, held.Same old) ∨ held.revisionId = rev.revisionId ∨ held.revisionId = minted := by
  obtain ⟨rfl, _⟩ | ⟨_, _, done⟩ := importRevision_ok done
  · exact .inl ⟨held, member, .refl held⟩
  obtain ⟨own, same, alone | ⟨merged, named, both⟩⟩ := applyImported_logs done
  · rcases alone.from member with ⟨old, inside, equal⟩ | new
    · exact .inl ⟨old, inside, equal.symm⟩
    · rw [mem_singleton.mp new]
      exact .inr (.inl same.id)
  · rcases both.from member with ⟨old, inside, equal⟩ | new
    · exact .inl ⟨old, inside, equal.symm⟩
    rcases mem_cons.mp new with first | second
    · rw [first]
      exact .inr (.inl same.id)
    · rw [mem_singleton.mp second]
      exact .inr (.inr named)

theorem anew_of_distinct {revs : List (StateRevision × Iri)}
    (fresh : ∀ pair ∈ revs, s.Fresh pair.2) (distinct : (revs.map Prod.snd).Nodup)
    (apart : ∀ one ∈ revs, ∀ other ∈ revs, one.1.revisionId ≠ other.2) (unused : ∀ pair ∈ revs, w.Unused pair.2) :
    w.Anew mergeAt s revs := by
  induction revs generalizing s with
  | nil => trivial
  | cons first rest ih =>
    obtain ⟨rev, minted⟩ := first
    refine ⟨⟨⟨fresh _ mem_cons_self, apart _ mem_cons_self _ mem_cons_self⟩, unused _ mem_cons_self⟩, ?_⟩
    intro next one
    rw [map_cons, nodup_cons] at distinct
    refine ih ?_ distinct.2 (fun a inA b inB => apart a (mem_cons_of_mem _ inA) b (mem_cons_of_mem _ inB))
      (fun pair member => unused pair (mem_cons_of_mem _ member))
    intro pair member held inside same
    have notRev : rev.revisionId ≠ pair.2 := apart _ mem_cons_self pair (mem_cons_of_mem _ member)
    have notMinted : minted ≠ pair.2 := fun equal => distinct.1 (mem_map.mpr ⟨pair, member, equal.symm⟩)
    have before : s.Fresh pair.2 := fresh pair (mem_cons_of_mem _ member)
    rcases importRevision_from one inside with ⟨old, there, equal⟩ | equal | equal
    · exact before old there (equal.id.symm.trans same)
    · exact notRev (equal.symm.trans same)
    · exact notMinted (equal.symm.trans same)

theorem lawful_of_ids {i : Nat} {now : At} {mint : Iri → Iri} {imports first second : List Iri}
    (ids : ((w.peers i).phase.imports.map StateRevision.revisionId, (w.peers 0).store.state.revisions.map StateRevision.revisionId,
      (w.peers 1).store.state.revisions.map StateRevision.revisionId) = (imports, first, second))
    (others : ∀ n, (w.peers (n + 2)).store.state.revisions = []) (distinct : (imports.map mint).Nodup)
    (apart : ∀ id ∈ imports.map mint, id ∉ imports ∧ id ∉ first ∧ id ∉ second) : Action.Lawful w (.importState i now mint) := by
  obtain ⟨rfl, rfl, rfl⟩ : _ ∧ _ ∧ _ := ⟨(Prod.mk.inj ids).1, Prod.mk.inj (Prod.mk.inj ids).2⟩
  intro job phase
  have listed : (w.peers i).phase.imports = topoSortRevisions job.base.revisions := by
    rw [phase]
    rfl
  rw [listed] at distinct apart
  have unused : ∀ rev ∈ topoSortRevisions job.base.revisions, w.Unused (mint rev.revisionId) := by
    intro rev member
    obtain ⟨_, notFirst, notSecond⟩ := apart _ (mem_map_of_mem (mem_map_of_mem member))
    refine unused_of_two ?_ ?_ others
    · exact fun held inside same => notFirst (same ▸ mem_map_of_mem inside)
    · exact fun held inside same => notSecond (same ▸ mem_map_of_mem inside)
  refine anew_of_distinct ?_ ?_ ?_ ?_
  · intro pair member
    obtain ⟨rev, inside, rfl⟩ := mem_map.mp member
    exact unused rev inside i
  · rw [map_map] at distinct ⊢
    exact distinct
  · intro one inOne other inOther same
    obtain ⟨a, inA, rfl⟩ := mem_map.mp inOne
    obtain ⟨b, inB, rfl⟩ := mem_map.mp inOther
    exact (apart _ (mem_map_of_mem (mem_map_of_mem inB))).1 (mem_map.mpr ⟨a, inA, same⟩)
  · intro pair member
    obtain ⟨rev, inside, rfl⟩ := mem_map.mp member
    exact unused rev inside

def listKey : Key := ⟨.workspace, .runtime, "one"⟩

def listRevision (id : Iri) (parents : List Iri) (item : String) : StateRevision :=
  ⟨id, "e1", parents, .workspace, .runtime, "one", false, false, .runtime ⟨.array [item], .append⟩, "t0", "fl"⟩

def listArgs (item : String) : UpsertStateArgs := ⟨.workspace, "one", .inherit, .runtime ⟨.array [item], .append⟩, "t0", "fl"⟩

def listCodec : Codec where
  entryIdHash := sampleCodec.entryIdHash
  revisionLine rev :=
    let items := match rev.payload with
      | .runtime ⟨.array items, _⟩ => items
      | _ => []
    ("\x7b\"revision_id\":\"" ++ rev.revisionId ++ "\",\"entry_id\":\"" ++ rev.entryId ++ "\",\"parent_revisions\":[" ++
      ",".intercalate (rev.parentRevisions.map fun parent => "\"" ++ parent ++ "\"") ++
      "],\"scope\":\"workspace\",\"concern\":\"runtime\",\"slug\":\"" ++ rev.slug ++ "\",\"sensitive\":false," ++
      "\"ever_sensitive\":false,\"payload\":\x7b\"runtime\":\x7b\"value\":[" ++ ",".intercalate items ++
      "],\"merge_mode\":\"append\"\x7d\x7d,\"at\":\"" ++ rev.at_ ++ "\",\"by\":\"" ++ rev.by_ ++ "\"\x7d").toUTF8.data.toList
  eventLine := sampleCodec.eventLine

def listSplit : List Action :=
  [.write 0 (.upsertState (listArgs "0") "e1" "r0"), .write 1 (.importStateRevisions [(listRevision "r0" [] "0", "m0")] "t0"),
    .write 0 (.upsertState (listArgs "1") "e1" "a1"), .write 1 (.upsertState (listArgs "2") "e1" "b1")]

def splitWorld : World := run (World.step listCodec) .empty listSplit

/-- A sync of a store whose merges get ids of its own. -/
def turnOf (i : Nat) (round : String) : List Action :=
  [.begin i 0 sampleTarget, .fetch i, .importRegistry i, .importState i "t1" (fun id => round ++ id), .collect i, .push i [] false]

def listBase : StateRevision := listRevision "r0" [] "0"

def listOurs : StateRevision := listRevision "a1" ["r0"] "1"

def listTheirs : StateRevision := listRevision "b1" ["r0"] "2"

theorem splitWorld_has (has : splitWorld.Has rev) : rev ∈ [listBase, listOurs, listTheirs] := by
  rcases has with ⟨i, member⟩ | ⟨b, tree, inside, _⟩
  · match i with
    | 0 =>
      exact mem_append_left [listTheirs] member
    | 1 =>
      exact (show [listBase, listTheirs] ⊆ [listBase, listOurs, listTheirs] by decide) member
    | n + 2 => cases member
  · cases inside

theorem splitWorld_traced : ∃ h, splitWorld.Traced h := by
  have lawful : Throughout (World.step listCodec) (fun w a => a.Lawful w) .empty listSplit := by
    refine ⟨?_, ⟨?_, ?_⟩, ?_, ?_, trivial⟩
    · exact unused_of_two (fresh_iff.mp (by decide +kernel)) (fresh_iff.mp (by decide +kernel)) fun _ => rfl
    · intro pair member
      rw [mem_singleton.mp member]
      exact ⟨listBase, .inl ⟨0, by decide +kernel⟩, .refl _⟩
    · refine anew_of_distinct ?_ ?_ ?_ ?_
      · intro pair member
        rw [mem_singleton.mp member]
        exact fresh_iff.mp (by decide +kernel)
      · decide
      · decide
      · intro pair member
        rw [mem_singleton.mp member]
        exact unused_of_two (fresh_iff.mp (by decide +kernel)) (fresh_iff.mp (by decide +kernel)) fun _ => rfl
    · exact unused_of_two (fresh_iff.mp (by decide +kernel)) (fresh_iff.mp (by decide +kernel)) fun _ => rfl
    · exact unused_of_two (fresh_iff.mp (by decide +kernel)) (fresh_iff.mp (by decide +kernel)) fun _ => rfl
  have carried : ∀ (actions : List Action) (w : World), (∃ h, w.Traced h) →
      Throughout (World.step listCodec) (fun w a => a.Lawful w) w actions →
        ∃ h, (run (World.step listCodec) w actions).Traced h := by
    intro actions
    induction actions with
    | nil => exact fun w traced _ => traced
    | cons a rest ih =>
      rintro w ⟨h, traced⟩ all
      exact ih _ (traced.step a all.1) all.2
  exact carried listSplit .empty ⟨_, Traced.empty⟩ lawful

theorem tends_of_checks {i : Nat} (sound : (w.peers i).store.state.Filed ∧ (w.peers i).store.state.Shown)
    (found : (w.peers i).store.state.entryOf k = some entry)
    (keyed : ∀ rev ∈ (w.peers i).store.state.revisions, ((w.peers i).store.state.entries[rev.entryId]?).map key = some rev.key)
    (closed : ∀ rev ∈ (w.peers i).store.state.revisions, ∀ parent ∈ rev.parentRevisions,
      ∃ held ∈ (w.peers i).store.state.revisions, held.revisionId = parent)
    (aliases : (w.peers i).store.state.ids.aliases.toList = []) (conflicts : (w.peers i).store.state.conflicts.toList = []) :
    w.Tends k i entry := by
  refine ⟨found, sound.1, sound.2, ?_, closed, ?_, ?_⟩
  · intro rev member
    exact Option.map_eq_some_iff.mp (keyed rev member)
  · intro id primary aliased
    have listed := ExtTreeMap.mem_toList_iff_getElem?_eq_some.mpr aliased
    rw [aliases] at listed
    cases listed
  · intro id _
    rcases recorded : (w.peers i).store.state.conflicts[id]? with _ | conflict
    · rfl
    have listed := ExtTreeMap.mem_toList_iff_getElem?_eq_some.mpr recorded
    rw [conflicts] at listed
    cases listed

theorem splitWorld_diverged : splitWorld.Diverged listKey .append 0 1 (entryWritten listOurs) (entryWritten listTheirs) := by
  have start : empty.Filed ∧ empty.Shown := ⟨.empty, .empty⟩
  refine ⟨by decide, ⟨rfl, rfl⟩, splitWorld_traced, ?_, ?_, by decide, ?_, ?_, ?_, by decide +kernel, by decide +kernel⟩
  · intro rev held has hasHeld
    have all : ∀ rev ∈ [listBase, listOurs, listTheirs], ∀ held ∈ [listBase, listOurs, listTheirs],
        rev.key = listKey → rev.entryId = held.entryId → held.key = listKey := by decide
    exact all rev (splitWorld_has has) held (splitWorld_has hasHeld)
  · intro rev held has hasHeld
    have all : ∀ rev ∈ [listBase, listOurs, listTheirs], ∀ held ∈ [listBase, listOurs, listTheirs],
        rev.key = listKey → held.revisionId ∈ rev.parentRevisions → held.key = listKey := by decide
    exact all rev (splitWorld_has has) held (splitWorld_has hasHeld)
  · intro rev has _
    have all : ∀ rev ∈ [listBase, listOurs, listTheirs], ∃ item ∈ ["0", "1", "2"], rev.payload = .runtime ⟨.array [item], .append⟩ := by
      decide
    obtain ⟨item, _, payload⟩ := all rev (splitWorld_has has)
    exact ⟨_, payload, fun _ => ⟨_, rfl⟩⟩
  · have first := step_shown (.upsertState (listArgs "0") "e1" "r0") start ⟨fresh_iff.mp (by decide +kernel), trivial⟩
    have second := step_shown (.upsertState (listArgs "1") "e1" "a1") first ⟨fresh_iff.mp (by decide +kernel), trivial⟩
    exact tends_of_checks second (by decide +kernel) (by decide +kernel) (by decide +kernel) (by decide +kernel) (by decide +kernel)
  · have first := step_shown (.importStateRevisions [(listBase, "m0")] "t0") start
      ⟨⟨⟨fresh_iff.mp (by decide +kernel), by decide⟩, fun _ _ => trivial⟩,
        ⟨joins_of_checks (by decide +kernel) (by decide +kernel), fun _ _ => trivial⟩⟩
    have second := step_shown (.upsertState (listArgs "2") "e1" "b1") first ⟨fresh_iff.mp (by decide +kernel), trivial⟩
    exact tends_of_checks second (by decide +kernel) (by decide +kernel) (by decide +kernel) (by decide +kernel) (by decide +kernel)

def fourTurns : List Action := turnOf 0 "w" ++ (turnOf 1 "x" ++ (turnOf 0 "y" ++ turnOf 1 "z"))

set_option maxRecDepth 8192 in
theorem fourTurns_lawful : Throughout (World.step listCodec) (fun w a => a.Lawful w) splitWorld fourTurns := by
  unfold fourTurns
  rw [Throughout.append, Throughout.append, Throughout.append]
  refine ⟨⟨trivial, trivial, trivial, ?_, trivial, trivial, trivial⟩, ⟨trivial, trivial, trivial, ?_, trivial, trivial, trivial⟩,
    ⟨trivial, trivial, trivial, ?_, trivial, trivial, trivial⟩, ⟨trivial, trivial, trivial, ?_, trivial, trivial, trivial⟩⟩
  · exact lawful_nothing (by decide +kernel)
  · exact @lawful_of_ids _ _ _ _ ["r0", "a1"] ["r0", "a1"] ["r0", "b1"] (by decide +kernel) (fun _ => rfl) (by decide +kernel)
      (by decide +kernel)
  · exact @lawful_of_ids _ _ _ _ ["r0", "a1", "b1", "xa1"] ["r0", "a1"] ["r0", "b1", "a1", "xa1"] (by decide +kernel) (fun _ => rfl)
      (by decide +kernel) (by decide +kernel)
  · exact @lawful_of_ids _ _ _ _ ["r0", "a1", "b1", "xa1", "yb1", "yxa1"] ["r0", "a1", "b1", "yb1", "xa1", "yxa1"]
      ["r0", "b1", "a1", "xa1"] (by decide +kernel) (fun _ => rfl) (by decide +kernel) (by decide +kernel)

theorem turnOf_syncs (i : Nat) (round : String) : ∀ a ∈ turnOf i round, a.SyncsAs i := by
  intro a member
  simp only [turnOf, mem_cons, not_mem_nil, or_false] at member
  rcases member with rfl | rfl | rfl | rfl | rfl | rfl <;> rfl

theorem listSplit_never_settles :
    splitWorld.Diverged listKey .append 0 1 (entryWritten listOurs) (entryWritten listTheirs) ∧
      Throughout (World.step listCodec) (fun w a => a.Lawful w) splitWorld fourTurns ∧
      ¬ (run (World.step listCodec) splitWorld fourTurns).Settled listCodec listKey 0 1 :=
  ⟨splitWorld_diverged, fourTurns_lawful, merges_never_settle listCodec splitWorld listKey .append 0 1 _ _ splitWorld_diverged
    (turnOf 0 "w") (turnOf 1 "x") (turnOf 0 "y") (turnOf 1 "z") (turnOf_syncs 0 "w") (turnOf_syncs 1 "x") (turnOf_syncs 0 "y")
    (turnOf_syncs 1 "z") fourTurns_lawful⟩

/-- All four syncs succeed. The first store's head is then a merge of the other's merge and its own, and the second
store's is a merge of that one and of a merge it made meanwhile. -/
theorem listSplit_heads_differ :
    splitWorld.Diverged listKey .append 0 1 (entryWritten listOurs) (entryWritten listTheirs) ∧
      Throughout (World.step listCodec) (fun w a => a.Lawful w) splitWorld fourTurns ∧
      (trace (World.step listCodec) splitWorld fourTurns).filterMap Prod.snd = [.ok (), .ok (), .ok (), .ok ()] ∧
      (((run (World.step listCodec) splitWorld fourTurns).peers 0).store.state.entryOf listKey).map headRevision = some "yxa1" ∧
      (((run (World.step listCodec) splitWorld fourTurns).peers 1).store.state.entryOf listKey).map headRevision = some "zyxa1" ∧
      ¬ (run (World.step listCodec) splitWorld fourTurns).Settled listCodec listKey 0 1 := by
  have outcome : (trace (World.step listCodec) splitWorld fourTurns).filterMap Prod.snd = [.ok (), .ok (), .ok (), .ok ()] ∧
      (((run (World.step listCodec) splitWorld fourTurns).peers 0).store.state.entryOf listKey).map headRevision = some "yxa1" ∧
      (((run (World.step listCodec) splitWorld fourTurns).peers 1).store.state.entryOf listKey).map headRevision =
        some "zyxa1" := by
    decide +kernel
  refine ⟨splitWorld_diverged, fourTurns_lawful, outcome.1, outcome.2.1, outcome.2.2, ?_⟩
  intro settled
  obtain ⟨ours, theirs, foundA, foundB, equal, _⟩ := settled.same
  have first := outcome.2.1
  have second := outcome.2.2
  rw [foundA] at first
  rw [foundB] at second
  have heads : some "yxa1" = some "zyxa1" := first.symm.trans ((congrArg some equal).trans second)
  exact absurd heads (by decide)

end FerroLoop.FerroState

import FerroLoop.Queue.Spilling

namespace FerroLoop.Queue

open List hiding any_eq_true
open Option hiding any_eq_true
open Store Checked Topic Task Handle

structure Topic.Sane (state : Topic) : Prop where
  keyed : ∀ (key : Nat) (entry : Buffered), state.messages[key]? = some entry →
    entry.record.seq = key ∧ key ≤ state.highWater ∧ entry.durability ≠ .durable
  persisted : state.persistedHighWater ≤ state.highWater
  small : state.highWater < u64Max

namespace Task

def high (task : Task) (name : String) (state : Topic) : Nat :=
  match task.candidate with
  | none => state.highWater
  | some candidate => if candidate.topic = name then candidate.record.seq else state.highWater

/-- The message that a spill persists without it having been in the buffer. -/
def Joins (task : Task) (name : String) (entry : Buffered) : Prop :=
  ∃ candidate, task.candidate = some candidate ∧ candidate.topic = name ∧ candidate.durability = .adaptive ∧
    entry.record = candidate.record ∧ entry.durability = .adaptive

structure Takes (task : Task) (name : String) (state snapshot : Topic) : Prop where
  acks : snapshot.acks = state.acks
  persisted : snapshot.persistedHighWater = state.persistedHighWater
  high : snapshot.highWater = task.high name state
  kept : ∀ (key : Nat) (entry : Buffered), state.messages[key]? = some entry → key ≤ state.highWater →
    snapshot.messages[key]? = some entry
  known : ∀ (key : Nat) (entry : Buffered), snapshot.messages[key]? = some entry →
    state.messages[key]? = some entry ∨ task.Joins name entry ∧ entry.record.seq = key

structure Offers (topics : BTreeMap String Topic) (task : Task) (candidate : Candidate) : Prop where
  fresh : ∃ state, topics[candidate.topic]? = some state ∧ candidate.record.seq = state.highWater + 1 ∧
    candidate.record.seq < u64Max ∧ (task.snapshotOf candidate.topic = none → state.pending = false)
  durable : candidate.durability = .durable → task.extra = some (candidate.topic, candidate.record)
  spilled : candidate.durability ≠ .durable → (task.snapshotOf candidate.topic).isSome
  adaptive : candidate.durability = .adaptive →
    ∃ snapshot entry, (candidate.topic, snapshot) ∈ task.snapshots ∧ entry.record = candidate.record ∧
      entry.durability = .adaptive ∧ snapshot.messages[candidate.record.seq]? = some entry
  ephemeral : candidate.durability = .ephemeral ↔ candidate.retained.isSome
  retained : ∀ entry, candidate.retained = some entry → entry.record = candidate.record ∧ entry.durability = .ephemeral

structure Planned (topics : BTreeMap String Topic) (task : Task) : Prop where
  distinct : task.snapshots.Pairwise fun a b => a.1 ≠ b.1
  taken : ∀ name snapshot, (name, snapshot) ∈ task.snapshots →
    ∃ state, topics[name]? = some state ∧ task.Takes name state snapshot
  offers : ∀ candidate, task.candidate = some candidate → Offers topics task candidate
  extra : ∀ topic record, task.extra = some (topic, record) →
    ∃ candidate, task.candidate = some candidate ∧ candidate.topic = topic ∧ candidate.record = record ∧
      candidate.durability = .durable

end Task

variable (candidate : Candidate) (state : Topic) {topic : String} {entry : Buffered}

theorem Candidate.settle_cases :
    (candidate.retained = none ∧ candidate.settle state = (state.raise candidate.record.seq, .ok ())) ∨
      (∃ entry, candidate.retained = some entry ∧
        candidate.settle state = (state.raise candidate.record.seq, .error sizeOverflow)) ∨
      ∃ entry bytes, candidate.retained = some entry ∧ candidate.settle state =
        ({ state.raise candidate.record.seq with memoryBytes := bytes, messages := state.messages.insert entry.record.seq entry }, .ok ()) := by
  unfold settle
  rcases held : candidate.retained with _ | entry
  · exact .inl ⟨rfl, rfl⟩
  rcases sum : checkedAdd (state.raise candidate.record.seq).memoryBytes entry.bytes with _ | bytes
  · refine .inr (.inl ⟨entry, rfl, ?_⟩)
    simp only [sum]
  refine .inr (.inr ⟨entry, bytes, rfl, ?_⟩)
  simp only [sum]
  rfl

@[simp] theorem Candidate.settle_highWater :
    (candidate.settle state).1.highWater = candidate.record.seq := by
  rcases candidate.settle_cases state with ⟨_, same⟩ | ⟨_, _, same⟩ | ⟨_, _, _, same⟩ <;> rw [same] <;> rfl

@[simp] theorem Candidate.settle_persisted :
    (candidate.settle state).1.persistedHighWater = candidate.record.seq := by
  rcases candidate.settle_cases state with ⟨_, same⟩ | ⟨_, _, same⟩ | ⟨_, _, _, same⟩ <;> rw [same] <;> rfl

@[simp] theorem Candidate.settle_acks :
    (candidate.settle state).1.acks = state.acks := by
  rcases candidate.settle_cases state with ⟨_, same⟩ | ⟨_, _, same⟩ | ⟨_, _, _, same⟩ <;> rw [same] <;> rfl

variable {topics : BTreeMap String Topic}

namespace Task

variable {task : Task} {name : String} {state : Topic}

theorem after_highWater (task : Task) (name : String) (state : Topic) :
    (task.after name state).highWater = task.high name state := by
  have finalized : ((task.snapshotOf name).elim state state.finalize).highWater = state.highWater := by
    cases task.snapshotOf name with
    | none => rfl
    | some snapshot => exact state.finalize_highWater snapshot
  unfold after high
  rcases task.candidate with _ | candidate
  · exact finalized
  dsimp only
  split
  · exact candidate.settle_highWater _
  · exact finalized

theorem after_acks (task : Task) (name : String) (state : Topic) :
    (task.after name state).acks = if (task.snapshotOf name).isSome then ∅ else state.acks := by
  have finalized : ((task.snapshotOf name).elim state state.finalize).acks =
      if (task.snapshotOf name).isSome then ∅ else state.acks := by
    cases task.snapshotOf name <;> rfl
  unfold after
  rcases task.candidate with _ | candidate
  · exact finalized
  dsimp only
  split
  · exact (candidate.settle_acks _).trans finalized
  · exact finalized

/-- A topic that the task names, as a snapshot or as the candidate's, is persisted up to its
high-water. -/
theorem after_persisted (planned : task.Planned topics) (held : topics[name]? = some state)
    (sane : state.Sane) :
    (task.after name state).persistedHighWater =
      if (task.snapshotOf name).isSome ∨ task.high name state ≠ state.highWater then task.high name state
      else state.persistedHighWater := by
  have finalized : ∀ snapshot, task.snapshotOf name = some snapshot →
      (state.finalize snapshot).persistedHighWater = state.persistedHighWater.max (task.high name state) := by
    intro snapshot taken
    obtain ⟨found, here, takes⟩ := planned.taken name snapshot (mem_of_snapshotOf taken)
    rw [held] at here
    cases here
    rw [finalize_persisted, takes.high]
  have bound := sane.persisted
  cases offered : task.candidate with
  | none =>
    have high : task.high name state = state.highWater := by simp only [high, offered]
    have unchanged : task.after name state = (task.snapshotOf name).elim state state.finalize := by
      simp only [after, offered]
    rw [unchanged]
    rcases taken : task.snapshotOf name with _ | snapshot
    · simp [high]
    simp only [elim_some, isSome_some, true_or, ↓reduceIte]
    rw [finalized snapshot taken, high]
    exact Nat.max_eq_right bound
  | some candidate =>
    obtain ⟨found, here, next, _, _⟩ := (planned.offers candidate offered).fresh
    by_cases mine : candidate.topic = name
    · have high : task.high name state = candidate.record.seq := by simp only [high, offered, mine, ↓reduceIte]
      rw [mine, held] at here
      cases here
      have moved : task.high name state ≠ state.highWater := by omega
      have settled : (task.after name state).persistedHighWater = candidate.record.seq := by
        simp only [after, offered, mine, ↓reduceIte, Candidate.settle_persisted]
      rw [settled, if_pos (.inr moved), high]
    · have high : task.high name state = state.highWater := by simp only [high, offered, mine, ↓reduceIte]
      have unchanged : task.after name state = (task.snapshotOf name).elim state state.finalize := by
        simp only [after, offered, mine, ↓reduceIte]
      rw [unchanged]
      rcases taken : task.snapshotOf name with _ | snapshot
      · simp [high]
      simp only [elim_some, isSome_some, true_or, ↓reduceIte]
      rw [finalized snapshot taken, high]
      exact Nat.max_eq_right bound

def Retains (task : Task) (name : String) (state : Topic) (entry : Buffered) : Prop :=
  ∃ candidate, task.candidate = some candidate ∧ candidate.topic = name ∧ candidate.retained = some entry ∧
    (candidate.settle ((task.snapshotOf name).elim state state.finalize)).2 = .ok ()

/-- The buffer of a settled topic: what was there, less the Adaptive messages of a snapshot, and
the candidate when it is retained. -/
theorem after_messages (planned : task.Planned topics) (held : topics[name]? = some state)
    (sane : state.Sane) (key : Nat) (entry : Buffered) :
    (task.after name state).messages[key]? = some entry ↔
      state.messages[key]? = some entry ∧ ¬ ((task.snapshotOf name).isSome ∧ entry.durability = .adaptive) ∨
        task.Retains name state entry ∧ entry.record.seq = key := by
  have finalized : ((task.snapshotOf name).elim state state.finalize).messages[key]? = some entry ↔
      state.messages[key]? = some entry ∧ ¬ ((task.snapshotOf name).isSome ∧ entry.durability = .adaptive) := by
    rcases taken : task.snapshotOf name with _ | snapshot
    · simp
    obtain ⟨found, here, takes⟩ := planned.taken name snapshot (mem_of_snapshotOf taken)
    rw [held] at here
    cases here
    simp only [elim_some, finalize_messages, isSome_some, true_and]
    constructor
    · intro kept
      split at kept
      · cases kept
      rename_i spared
      refine ⟨kept, ?_⟩
      intro adaptive
      obtain ⟨same, bound, _⟩ := sane.keyed key entry kept
      apply spared
      rw [List.any_eq_true]
      exact ⟨entry, mem_adaptive.mpr ⟨⟨key, takes.kept key entry kept bound⟩, adaptive⟩, decide_eq_true same⟩
    · intro ⟨there, other⟩
      obtain ⟨_, bound, _⟩ := sane.keyed key entry there
      rw [if_neg]
      · exact there
      intro some
      obtain ⟨spilled, member, same⟩ := List.any_eq_true.mp some
      obtain ⟨⟨place, found⟩, adaptive⟩ := mem_adaptive.mp member
      have keyed : spilled.record.seq = key := of_decide_eq_true same
      rcases takes.known place spilled found with old | ⟨joins, _⟩
      · obtain ⟨own, _, _⟩ := sane.keyed place spilled old
        rw [← keyed, own, old] at there
        cases there
        exact other adaptive
      · obtain ⟨candidate, offered, mine, _, record, _⟩ := joins
        obtain ⟨state', here', next, _⟩ := (planned.offers candidate offered).fresh
        rw [mine, held] at here'
        cases here'
        rw [record] at keyed
        omega
  unfold after
  cases offered : task.candidate with
  | none =>
    rw [finalized]
    constructor
    · exact .inl
    · rintro (kept | ⟨⟨candidate, impossible, _⟩, _⟩)
      · exact kept
      · rw [offered] at impossible
        cases impossible
  | some candidate =>
    dsimp only
    split
    · rename_i mine
      rcases candidate.settle_cases ((task.snapshotOf name).elim state state.finalize) with
        ⟨none, same⟩ | ⟨kept, some, same⟩ | ⟨kept, bytes, some, same⟩
      · rw [same]
        refine finalized.trans ⟨.inl, ?_⟩
        rintro (there | ⟨⟨other, offered', _, retained, _⟩, _⟩)
        · exact there
        · rw [offered] at offered'
          cases offered'
          rw [none] at retained
          cases retained
      · rw [same]
        refine finalized.trans ⟨.inl, ?_⟩
        rintro (there | ⟨⟨other, offered', _, _, ok⟩, _⟩)
        · exact there
        · rw [offered] at offered'
          cases offered'
          rw [same] at ok
          cases ok
      · obtain ⟨state', here', next, _⟩ := (planned.offers candidate offered).fresh
        rw [mine, held] at here'
        cases here'
        have record := ((planned.offers candidate offered).retained kept some).1
        have retains : task.Retains name state kept := ⟨candidate, offered, mine, some, by rw [same]⟩
        rw [same]
        dsimp only
        rw [Map.getElem?_insert]
        split
        · rename_i here
          constructor
          · intro found
            cases found
            exact .inr ⟨retains, here⟩
          rintro (⟨old, _⟩ | ⟨⟨other, offered', _, some', _⟩, _⟩)
          · obtain ⟨_, bound, _⟩ := sane.keyed key entry old
            rw [record] at here
            omega
          · rw [offered] at offered'
            cases offered'
            rw [some] at some'
            exact some'
        · rename_i elsewhere
          refine finalized.trans ⟨.inl, ?_⟩
          rintro (there | ⟨⟨other, offered', _, some', _⟩, keyed⟩)
          · exact there
          rw [offered] at offered'
          cases offered'
          rw [some] at some'
          cases some'
          exact absurd keyed elsewhere
    · rename_i other
      refine finalized.trans ⟨.inl, ?_⟩
      rintro (there | ⟨⟨candidate', offered', mine, _⟩, _⟩)
      · exact there
      · rw [offered] at offered'
        cases offered'
        exact absurd mine other

theorem mem_taskPuts {docs : Docs} {put : Put} : put ∈ taskPuts docs task ↔
    (∃ name snapshot, (name, snapshot) ∈ task.snapshots ∧ put ∈ snapshotPuts docs name snapshot) ∨
      put ∈ extraPuts task.extra := by
  simp only [taskPuts, mem_append, mem_flatMap, Prod.exists]

namespace Planned

variable {topics : BTreeMap String Topic} {docs : Docs} {put : Put}

theorem high_ge (planned : task.Planned topics) (held : topics[name]? = some state) :
    state.highWater ≤ task.high name state := by
  unfold high
  rcases offered : task.candidate with _ | candidate
  · exact Nat.le_refl _
  dsimp only
  split
  · rename_i mine
    obtain ⟨found, here, next, _⟩ := (planned.offers candidate offered).fresh
    rw [mine, held] at here
    cases here
    omega
  · exact Nat.le_refl _

theorem high_small (planned : task.Planned topics) (small : state.highWater < u64Max) :
    task.high name state < u64Max := by
  unfold high
  rcases offered : task.candidate with _ | candidate
  · exact small
  dsimp only
  split
  · obtain ⟨found, here, next, bound, _⟩ := (planned.offers candidate offered).fresh
    exact bound
  · exact small

theorem hw_put (planned : task.Planned topics)
    (water : ∀ (name : String) (state : Topic), topics[name]? = some state → hwOf docs name ≤ state.highWater)
    (member : put ∈ taskPuts docs task) (place : put.At (mqHwCollection name) mqHighWaterId) :
    ∃ state, topics[name]? = some state ∧ put.doc = seqDoc (task.high name state) ∧
      ((task.snapshotOf name).isSome ∨ task.high name state ≠ state.highWater) := by
  rcases mem_taskPuts.mp member with ⟨other, snapshot, taken, listed⟩ | extra
  · rcases mem_snapshotPuts listed with ⟨entry, _, same⟩ | ⟨entry, _, seq, _, same⟩ | ⟨_, same⟩
    · subst same
      exact absurd place (messagePut_not_hw other name entry.record mqHighWaterId)
    · subst same
      exact absurd place (ackPut_not_hw other entry.1 name seq mqHighWaterId)
    subst same
    have mine := highWaterPut_at place
    subst mine
    obtain ⟨state, held, takes⟩ := planned.taken other snapshot taken
    obtain ⟨found, some⟩ := snapshotOf_isSome taken
    refine ⟨state, held, ?_, .inl (by rw [some]; rfl)⟩
    have most : (hwOf docs other).max snapshot.highWater = task.high other state := by
      rw [takes.high]
      exact Nat.max_eq_right (Nat.le_trans (water other state held) (planned.high_ge held))
    show seqDoc _ = _
    rw [most]
  · rcases given : task.extra with _ | pair
    · rw [given] at extra
      cases extra
    obtain ⟨topic, record⟩ := pair
    obtain ⟨candidate, offered, sameTopic, sameRecord, _⟩ := planned.extra topic record given
    rw [given] at extra
    simp only [extraPuts, mem_cons, not_mem_nil, or_false] at extra
    rcases extra with message | water
    · subst message
      exact absurd place (messagePut_not_hw topic name record mqHighWaterId)
    subst water
    have mine := highWaterPut_at place
    obtain ⟨state, held, next, _⟩ := (planned.offers candidate offered).fresh
    rw [sameTopic, mine] at held
    have high : task.high name state = record.seq := by
      simp only [high, offered, sameTopic, mine, sameRecord, ↓reduceIte]
    refine ⟨state, held, ?_, .inr ?_⟩
    · rw [high]
      rfl
    · rw [high, ← sameRecord]
      omega

variable {id : String}

section

variable (planned : task.Planned topics)

include planned

theorem message_source (member : put ∈ taskPuts docs task)
    (place : put.At (mqMessageCollection name) id) :
    ∃ state record, topics[name]? = some state ∧ id = toString record.seq ∧ put.doc = messageDoc record ∧
      ((∃ (key : Nat) (entry : Buffered), state.messages[key]? = some entry ∧ entry.durability = .adaptive ∧
          entry.record = record ∧ (task.snapshotOf name).isSome) ∨
        ∃ candidate, task.candidate = some candidate ∧ candidate.topic = name ∧ candidate.record = record ∧
          candidate.durability ≠ .ephemeral) := by
  rcases mem_taskPuts.mp member with ⟨other, snapshot, taken, listed⟩ | extra
  · rcases mem_snapshotPuts listed with ⟨entry, spilled, same⟩ | ⟨entry, _, seq, _, same⟩ | ⟨_, same⟩
    · subst same
      have mine := mqMessageCollection_injective place.1
      subst mine
      obtain ⟨state, held, takes⟩ := planned.taken other snapshot taken
      obtain ⟨found, some⟩ := snapshotOf_isSome taken
      refine ⟨state, entry.record, held, place.2.symm, rfl, ?_⟩
      obtain ⟨⟨key, there⟩, adaptive⟩ := mem_adaptive.mp spilled
      rcases takes.known key entry there with old | ⟨⟨candidate, offered, mine, kind, record, _⟩, _⟩
      · exact .inl ⟨key, entry, old, adaptive, rfl, by rw [some]; rfl⟩
      · exact .inr ⟨candidate, offered, mine, record.symm, by rw [kind]; nofun⟩
    · subst same
      exact absurd place.1.symm (message_ne_ack name other entry.1)
    · subst same
      exact absurd place.1.symm (message_ne_hw name other)
  · rcases given : task.extra with _ | pair
    · rw [given] at extra
      cases extra
    obtain ⟨topic, record⟩ := pair
    obtain ⟨candidate, offered, sameTopic, sameRecord, kind⟩ := planned.extra topic record given
    rw [given] at extra
    simp only [extraPuts, mem_cons, not_mem_nil, or_false] at extra
    rcases extra with message | water
    · subst message
      have mine := mqMessageCollection_injective place.1
      obtain ⟨state, held, _⟩ := (planned.offers candidate offered).fresh
      rw [sameTopic, mine] at held
      exact ⟨state, record, held, place.2.symm, rfl,
        .inr ⟨candidate, offered, sameTopic.trans mine, sameRecord, by rw [kind]; nofun⟩⟩
    · subst water
      exact absurd place.1.symm (message_ne_hw name topic)

theorem message_put (sane : ∀ (name : String) (state : Topic), topics[name]? = some state → state.Sane)
    (member : put ∈ taskPuts docs task) (place : put.At (mqMessageCollection name) id) :
    ∃ state record, topics[name]? = some state ∧ id = toString record.seq ∧ put.doc = messageDoc record ∧
      record.seq ≤ task.high name state := by
  obtain ⟨state, record, held, spelled, doc, source⟩ := planned.message_source member place
  refine ⟨state, record, held, spelled, doc, ?_⟩
  rcases source with ⟨key, entry, old, _, same, _⟩ | ⟨candidate, offered, mine, same, _⟩
  · obtain ⟨keyed, below, _⟩ := (sane name state held).keyed key entry old
    rw [← same, keyed]
    exact Nat.le_trans below (planned.high_ge held)
  · rw [← same]
    simp only [high, offered, mine, ↓reduceIte]
    exact Nat.le_refl _

theorem puts_adaptive (sane : state.Sane) (held : topics[name]? = some state)
    (taken : (task.snapshotOf name).isSome) {key : Nat} {entry : Buffered} (there : state.messages[key]? = some entry)
    (adaptive : entry.durability = .adaptive) : messagePut name entry.record ∈ taskPuts docs task := by
  obtain ⟨snapshot, some⟩ := isSome_iff_exists.mp taken
  have member := mem_of_snapshotOf some
  obtain ⟨found, here, takes⟩ := planned.taken name snapshot member
  rw [held] at here
  cases here
  obtain ⟨_, below, _⟩ := sane.keyed key entry there
  refine mem_taskPuts.mpr (.inl ⟨name, snapshot, member, ?_⟩)
  refine mem_append_left _ (mem_append_left _ (mem_messagePuts.mpr ⟨entry, ?_, rfl⟩))
  exact mem_adaptive.mpr ⟨⟨key, takes.kept key entry there below⟩, adaptive⟩

theorem puts_candidate {candidate : Candidate} (offered : task.candidate = some candidate)
    (kind : candidate.durability ≠ .ephemeral) : messagePut candidate.topic candidate.record ∈ taskPuts docs task := by
  have offers := planned.offers candidate offered
  cases which : candidate.durability with
  | durable =>
    refine mem_taskPuts.mpr (.inr ?_)
    rw [offers.durable which]
    exact mem_cons_self
  | adaptive =>
    obtain ⟨snapshot, entry, member, record, adaptive, there⟩ := offers.adaptive which
    refine mem_taskPuts.mpr (.inl ⟨candidate.topic, snapshot, member, ?_⟩)
    rw [← record]
    refine mem_append_left _ (mem_append_left _ (mem_messagePuts.mpr ⟨entry, ?_, rfl⟩))
    exact mem_adaptive.mpr ⟨⟨_, there⟩, adaptive⟩
  | ephemeral => exact absurd which kind

theorem ack_source {collection : String}
    (ack : ∀ topic, collection ≠ mqMessageCollection topic ∧ collection ≠ mqHwCollection topic)
    (member : put ∈ taskPuts docs task) (place : put.At collection id) :
    ∃ topic group state seq, topics[topic]? = some state ∧ state.ackedBy group seq = true ∧
      collection = mqAckCollection topic group ∧ id = toString seq ∧ put.doc = seqDoc seq := by
  rcases mem_taskPuts.mp member with ⟨other, snapshot, taken, listed⟩ | extra
  · rcases mem_snapshotPuts listed with ⟨entry, _, same⟩ | ⟨entry, kept, seq, inside, same⟩ | ⟨_, same⟩
    · subst same
      exact absurd place.1.symm (ack other).1
    · subst same
      obtain ⟨state, held, takes⟩ := planned.taken other snapshot taken
      refine ⟨other, entry.1, state, seq, held, ?_, place.1.symm, place.2.symm, rfl⟩
      rw [takes.acks] at kept
      have found : state.acks[entry.1]? = some entry.2 := Std.ExtTreeMap.mem_toList_iff_getElem?_eq_some.mp kept
      rw [ackedBy, found]
      simpa using inside
    · subst same
      exact absurd place.1.symm (ack other).2
  · rcases given : task.extra with _ | pair
    · rw [given] at extra
      cases extra
    rw [given] at extra
    simp only [extraPuts, mem_cons, not_mem_nil, or_false] at extra
    rcases extra with message | water
    · subst message
      exact absurd place.1.symm (ack pair.1).1
    · subst water
      exact absurd place.1.symm (ack pair.1).2

section

variable (held : topics[name]? = some state)

include held

theorem puts_ack (taken : (task.snapshotOf name).isSome)
    {group : String} {seq : Nat} (acked : state.ackedBy group seq = true) : ackPut name group seq ∈ taskPuts docs task := by
  obtain ⟨snapshot, some⟩ := isSome_iff_exists.mp taken
  have member := mem_of_snapshotOf some
  obtain ⟨found, here, takes⟩ := planned.taken name snapshot member
  rw [held] at here
  cases here
  unfold ackedBy at acked
  rcases kept : state.acks[group]? with _ | seqs
  · rw [kept] at acked
    cases acked
  rw [kept] at acked
  refine mem_taskPuts.mpr (.inl ⟨name, snapshot, member, ?_⟩)
  refine mem_append_left _ (mem_append_right _ (mem_ackPuts.mpr ⟨(group, seqs), ?_, seq, ?_, rfl⟩))
  · rw [takes.acks]
    exact Std.ExtTreeMap.mem_toList_iff_getElem?_eq_some.mpr kept
  · simpa using acked

theorem hw_untouched (none : ∀ put ∈ taskPuts docs task, ¬ put.At (mqHwCollection name) mqHighWaterId)
    (touched : (task.snapshotOf name).isSome ∨ task.high name state ≠ state.highWater) (sane : state.Sane) :
    task.high name state = state.persistedHighWater := by
  have quiet : ∀ snapshot, task.snapshotOf name = some snapshot → snapshot.highWater ≤ snapshot.persistedHighWater := by
    intro snapshot taken
    apply Nat.le_of_not_lt
    intro behind
    have pending : snapshot.pending = true := by simp [pending, behind]
    have listed : highWaterPut name ((hwOf docs name).max snapshot.highWater) ∈ snapshotPuts docs name snapshot := by
      rw [snapshotPuts, if_pos pending]
      exact mem_append_right _ mem_cons_self
    exact none _ (mem_taskPuts.mpr (.inl ⟨name, snapshot, mem_of_snapshotOf taken, listed⟩)) ⟨rfl, rfl⟩
  have snapshotted : ∀ snapshot, task.snapshotOf name = some snapshot → task.high name state = state.persistedHighWater := by
    intro snapshot taken
    obtain ⟨found, here, takes⟩ := planned.taken name snapshot (mem_of_snapshotOf taken)
    rw [held] at here
    cases here
    have settled := quiet snapshot taken
    rw [takes.high, takes.persisted] at settled
    have grows := planned.high_ge held
    have bound := sane.persisted
    omega
  rcases touched with taken | moved
  · obtain ⟨snapshot, some⟩ := isSome_iff_exists.mp taken
    exact snapshotted snapshot some
  unfold high at moved
  rcases offered : task.candidate with _ | candidate
  · rw [offered] at moved
    exact absurd rfl moved
  rw [offered] at moved
  dsimp only at moved
  split at moved
  · rename_i mine
    have offers := planned.offers candidate offered
    by_cases durable : candidate.durability = .durable
    · have extra := offers.durable durable
      have listed : highWaterPut candidate.topic candidate.record.seq ∈ taskPuts docs task := by
        refine mem_taskPuts.mpr (.inr ?_)
        rw [extra]
        exact mem_cons_of_mem _ mem_cons_self
      have place : (highWaterPut candidate.topic candidate.record.seq).At (mqHwCollection name) mqHighWaterId := by
        rw [mine]
        exact ⟨rfl, rfl⟩
      exact absurd place (none _ listed)
    · obtain ⟨snapshot, some⟩ := isSome_iff_exists.mp (offers.spilled durable)
      rw [mine] at some
      exact snapshotted snapshot some
  · exact absurd rfl moved

theorem persisted_untouched (sane : state.Sane)
    (none : ∀ put ∈ taskPuts docs task, ¬ put.At (mqHwCollection name) mqHighWaterId) :
    (task.after name state).persistedHighWater = state.persistedHighWater := by
  rw [after_persisted planned held sane]
  split
  · rename_i touched
    exact planned.hw_untouched held none touched sane
  · rfl

theorem after_sane (sane : state.Sane) : (task.after name state).Sane := by
  have grows := planned.high_ge held
  have bound := sane.persisted
  refine ⟨?_, ?_, ?_⟩
  · intro key entry found
    rw [after_highWater]
    rcases (after_messages planned held sane key entry).mp found with ⟨old, _⟩ | ⟨⟨candidate, offered, mine, some, _⟩, keyed⟩
    · obtain ⟨same, below, kind⟩ := sane.keyed key entry old
      exact ⟨same, Nat.le_trans below grows, kind⟩
    obtain ⟨record, kind⟩ := (planned.offers candidate offered).retained entry some
    refine ⟨keyed, ?_, by rw [kind]; nofun⟩
    rw [← keyed, record]
    simp only [high, offered, mine, ↓reduceIte]
    exact Nat.le_refl _
  · rw [after_highWater, after_persisted planned held sane]
    split
    · exact Nat.le_refl _
    · omega
  · rw [after_highWater]
    exact planned.high_small sane.small

end

end

end Planned

end Task

theorem Task.Planned.persist {task : Task} (planned : task.Planned topics) :
    Planned topics { task with persisted := true } where
  distinct := planned.distinct
  taken := by
    intro name snapshot member
    obtain ⟨state, held, takes⟩ := planned.taken name snapshot member
    exact ⟨state, held, takes.acks, takes.persisted, takes.high, takes.kept, takes.known⟩
  offers := by
    intro candidate offered
    have offers := planned.offers candidate offered
    exact ⟨offers.fresh, offers.durable, offers.spilled, offers.adaptive, offers.ephemeral, offers.retained⟩
  extra := planned.extra

theorem planned_plain (topics : BTreeMap String Topic) (wanted : String × Topic → Bool) :
    (mk (topics.toList.filter wanted) none none false).Planned topics where
  distinct := (Map.toList_distinct topics).filter wanted
  taken := by
    intro name snapshot member
    have held := Std.ExtTreeMap.mem_toList_iff_getElem?_eq_some.mp (mem_filter.mp member).1
    exact ⟨snapshot, held, rfl, rfl, rfl, fun _ _ found _ => found, fun _ _ found => .inl found⟩
  offers := nofun
  extra := nofun

theorem planned_durable {state : Topic} (record : MqRecord) {single : Bool}
    (held : topics[topic]? = some state) (next : record.seq = state.highWater + 1) (small : record.seq < u64Max)
    (quiet : single = true → state.pending = false) :
    (mk (if single then [] else [(topic, { state with highWater := record.seq })]) (some (topic, record))
      (some ⟨topic, record, .durable, none⟩) false).Planned topics where
  distinct := by
    split
    · exact List.Pairwise.nil
    · exact pairwise_singleton _ _
  taken := by
    intro name snapshot member
    split at member
    · cases member
    have same := mem_singleton.mp member
    cases same
    refine ⟨state, held, rfl, rfl, ?_, fun _ _ found _ => found, fun _ _ found => .inl found⟩
    simp only [high, ↓reduceIte]
  offers := by
    intro candidate offered
    cases offered
    refine ⟨⟨state, held, next, small, ?_⟩, fun _ => rfl, fun other => absurd rfl other, nofun, ?_, nofun⟩
    · intro untaken
      apply quiet
      cases single with
      | true => rfl
      | false => simp [Task.snapshotOf] at untaken
    · exact ⟨nofun, nofun⟩
  extra := by
    intro name found same
    cases same
    exact ⟨_, rfl, rfl, rfl, rfl⟩

variable {mq : Runtime}

theorem mem_spillSnapshots {name : String} {snapshot : Topic} :
    (name, snapshot) ∈ spillSnapshots mq topic entry ↔
      ∃ state, mq.topics[name]? = some state ∧ (name = topic ∨ state.adaptive ≠ []) ∧
        snapshot = if name = topic then state.withCandidate entry else state := by
  simp only [spillSnapshots, List.mem_map, mem_filter, Prod.exists, Prod.mk.injEq, Bool.or_eq_true,
    decide_eq_true_eq, Bool.not_eq_true', isEmpty_eq_false_iff, Std.ExtTreeMap.mem_toList_iff_getElem?_eq_some]
  constructor
  · rintro ⟨found, state, ⟨held, kept⟩, rfl, rfl⟩
    exact ⟨state, held, kept, rfl⟩
  · rintro ⟨state, held, kept, rfl⟩
    exact ⟨name, state, ⟨held, kept⟩, rfl, rfl⟩

theorem withCandidate_messages {state : Topic} (key : Nat) :
    (state.withCandidate entry).messages[key]? =
      if entry.durability = .adaptive ∧ entry.record.seq = key then some entry else state.messages[key]? := by
  unfold withCandidate
  by_cases adaptive : entry.durability = .adaptive
  · simp only [adaptive, ↓reduceIte, Map.getElem?_insert, true_and]
  · simp only [adaptive, ↓reduceIte, false_and]

theorem withCandidate_rest (entry : Buffered) :
    (state.withCandidate entry).highWater = entry.record.seq ∧ (state.withCandidate entry).acks = state.acks ∧
      (state.withCandidate entry).persistedHighWater = state.persistedHighWater := by
  unfold withCandidate
  split <;> exact ⟨rfl, rfl, rfl⟩

theorem planned_spill {state : Topic}
    (held : mq.topics[topic]? = some state) (next : entry.record.seq = state.highWater + 1)
    (small : entry.record.seq < u64Max) (kind : entry.durability ≠ .durable) :
    (spillTask mq topic entry).Planned mq.topics := by
  obtain ⟨high, acks, persisted⟩ := withCandidate_rest state entry
  have own : (topic, state.withCandidate entry) ∈ spillSnapshots mq topic entry :=
    mem_spillSnapshots.mpr ⟨state, held, .inl rfl, by rw [if_pos rfl]⟩
  constructor
  · unfold spillTask spillSnapshots
    rw [pairwise_map]
    exact (Map.toList_distinct mq.topics).filter _
  · intro name snapshot member
    obtain ⟨found, here, _, same⟩ := mem_spillSnapshots.mp member
    subst same
    refine ⟨found, here, ?_⟩
    by_cases mine : name = topic
    · subst mine
      rw [held] at here
      cases here
      rw [if_pos rfl]
      refine ⟨acks, persisted, ?_, ?_, ?_⟩
      · rw [high]
        simp only [Task.high, spillTask, ↓reduceIte]
      · intro key old kept below
        rw [withCandidate_messages, if_neg]
        · exact kept
        · rintro ⟨_, same⟩
          omega
      · intro key old kept
        rw [withCandidate_messages] at kept
        split at kept
        · rename_i joined
          cases kept
          exact .inr ⟨⟨_, rfl, rfl, joined.1, rfl, joined.1⟩, joined.2⟩
        · exact .inl kept
    · rw [if_neg mine]
      refine ⟨rfl, rfl, ?_, fun _ _ kept _ => kept, fun _ _ kept => .inl kept⟩
      simp only [Task.high, spillTask, Ne.symm mine, ↓reduceIte]
  · intro candidate offered
    cases offered
    obtain ⟨found, taken⟩ : ∃ found, (spillTask mq topic entry).snapshotOf topic = some found :=
      snapshotOf_isSome own
    refine ⟨⟨state, held, next, small, ?_⟩, fun durable => absurd durable kind, ?_, ?_, ?_, ?_⟩
    · intro untaken
      rw [taken] at untaken
      cases untaken
    · intro _
      rw [taken]
      rfl
    · intro adaptive
      refine ⟨state.withCandidate entry, entry, own, rfl, adaptive, ?_⟩
      rw [withCandidate_messages, if_pos ⟨adaptive, rfl⟩]
    · dsimp only
      by_cases ephemeral : entry.durability = .ephemeral
      · simp [ephemeral]
      · simp [ephemeral]
    · intro kept same
      split at same
      · rename_i ephemeral
        cases same
        exact ⟨rfl, ephemeral⟩
      · cases same
  · exact nofun

end FerroLoop.Queue

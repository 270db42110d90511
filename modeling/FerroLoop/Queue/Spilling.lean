import FerroLoop.Store.Staging
import FerroLoop.Queue.Runtime

namespace FerroLoop.Queue

open List hiding getElem?_insert
open Store Checked Map

/-- A document that a task writes. -/
structure Put where
  collection : String
  id : String
  doc : Value

def Put.At (put : Put) (collection id : String) : Prop := put.collection = collection ∧ put.id = id

def putAll (docs : Docs) (puts : List Put) : Docs :=
  puts.foldl (fun docs put => docs.insert put.collection put.id put.doc) docs

theorem putAll_append (docs : Docs) (first second : List Put) :
    putAll docs (first ++ second) = putAll (putAll docs first) second := foldl_append

theorem get_putAll (docs : Docs) (puts : List Put) (collection id : String) :
    (putAll docs puts).get collection id = docs.get collection id ∧ (∀ put ∈ puts, ¬ put.At collection id) ∨
      ∃ put ∈ puts, put.At collection id ∧ (putAll docs puts).get collection id = some put.doc := by
  induction puts generalizing docs with
  | nil => exact .inl ⟨rfl, nofun⟩
  | cons first rest ih =>
    rcases ih (docs.insert first.collection first.id first.doc) with ⟨same, absent⟩ | ⟨put, member, place, held⟩
    · rw [Docs.get_insert] at same
      split at same
      · rename_i here
        exact .inr ⟨first, mem_cons_self, Prod.mk.inj here, same⟩
      rename_i elsewhere
      refine .inl ⟨same, ?_⟩
      intro put member place
      rcases mem_cons.mp member with isFirst | later
      · subst isFirst
        exact elsewhere (Prod.ext place.1 place.2)
      · exact absent put later place
    · exact .inr ⟨put, mem_cons_of_mem _ member, place, held⟩

variable {docs : Docs} {topic : String} {state : Topic} {snapshots : List (String × Topic)}

theorem get_putAll_other {puts : List Put} {collection id : String}
    (absent : ∀ put ∈ puts, ¬ put.At collection id) : (putAll docs puts).get collection id = docs.get collection id := by
  rcases get_putAll docs puts collection id with ⟨same, _⟩ | ⟨put, member, place, _⟩
  · exact same
  · exact absurd place (absent put member)

def messagePut (topic : String) (record : MqRecord) : Put :=
  ⟨mqMessageCollection topic, toString record.seq, messageDoc record⟩

def highWaterPut (topic : String) (seq : Nat) : Put := ⟨mqHwCollection topic, mqHighWaterId, seqDoc seq⟩

def ackPut (topic group : String) (seq : Nat) : Put := ⟨mqAckCollection topic group, toString seq, seqDoc seq⟩

def messagePuts (topic : String) (state : Topic) : List Put :=
  state.adaptive.map fun entry => messagePut topic entry.record

def ackPuts (topic : String) (acks : List (String × BTreeSet Nat)) : List Put :=
  acks.flatMap fun entry => entry.2.toList.map fun seq => ackPut topic entry.1 seq

/-- The high water a topic has on disk, `0` when there is none. -/
def hwOf (docs : Docs) (topic : String) : Nat :=
  match mqHighWater docs topic with
  | .ok held => held.getD 0
  | .error _ => 0

def snapshotPuts (docs : Docs) (topic : String) (state : Topic) : List Put :=
  messagePuts topic state ++ ackPuts topic state.acks.toList ++
    if state.pending then [highWaterPut topic ((hwOf docs topic).max state.highWater)] else []

def extraPuts : Option (String × MqRecord) → List Put
  | none => []
  | some (topic, record) => [messagePut topic record, highWaterPut topic record.seq]

/-- All that a task writes. -/
def taskPuts (docs : Docs) (task : Task) : List Put :=
  task.snapshots.flatMap (fun entry => snapshotPuts docs entry.1 entry.2) ++ extraPuts task.extra

theorem putAcks_eq (docs : Docs) (topic : String) (acks : List (String × BTreeSet Nat)) :
    putAcks docs topic acks = putAll docs (ackPuts topic acks) := by
  induction acks generalizing docs with
  | nil => rfl
  | cons entry rest ih =>
    have first : entry.2.toList.foldl (fun docs seq => putAck docs topic entry.1 seq) docs =
        putAll docs (entry.2.toList.map fun seq => ackPut topic entry.1 seq) := by
      rw [putAll, foldl_map]
      rfl
    have split : ackPuts topic (entry :: rest) =
        (entry.2.toList.map fun seq => ackPut topic entry.1 seq) ++ ackPuts topic rest := flatMap_cons
    rw [split, putAll_append, ← first, ← ih]
    rfl

theorem putMessages_eq (docs : Docs) (topic : String) (entries : List Buffered) :
    entries.foldl (fun docs entry => putMessage docs topic entry.record) docs =
      putAll docs (entries.map fun entry => messagePut topic entry.record) := by
  rw [putAll, foldl_map]
  rfl

theorem mqHighWater_congr {first second : Docs}
    (same : first.get (mqHwCollection topic) mqHighWaterId = second.get (mqHwCollection topic) mqHighWaterId) :
    mqHighWater first topic = mqHighWater second topic := by
  unfold mqHighWater
  rw [same]

variable {put : Put}

theorem mem_messagePuts :
    put ∈ messagePuts topic state ↔ ∃ entry ∈ state.adaptive, put = messagePut topic entry.record := by
  simp only [messagePuts, mem_map, eq_comm]

theorem mem_ackPuts {acks : List (String × BTreeSet Nat)} :
    put ∈ ackPuts topic acks ↔ ∃ entry ∈ acks, ∃ seq ∈ entry.2.toList, put = ackPut topic entry.1 seq := by
  simp only [ackPuts, mem_flatMap, mem_map, eq_comm]

theorem mem_snapshotPuts
    (member : put ∈ snapshotPuts docs topic state) :
    (∃ entry ∈ state.adaptive, put = messagePut topic entry.record) ∨
      (∃ entry ∈ state.acks.toList, ∃ seq ∈ entry.2.toList, put = ackPut topic entry.1 seq) ∨
      state.pending = true ∧ put = highWaterPut topic ((hwOf docs topic).max state.highWater) := by
  rcases mem_append.mp member with front | back
  · rcases mem_append.mp front with message | ack
    · exact .inl (mem_messagePuts.mp message)
    · exact .inr (.inl (mem_ackPuts.mp ack))
  split at back
  · rename_i pending
    exact .inr (.inr ⟨pending, mem_singleton.mp back⟩)
  · cases back

theorem messagePut_not_hw (topic other : String) (record : MqRecord) (id : String) :
    ¬ (messagePut topic record).At (mqHwCollection other) id := fun place => message_ne_hw topic other place.1

theorem ackPut_not_hw (topic group other : String) (seq : Nat) (id : String) :
    ¬ (ackPut topic group seq).At (mqHwCollection other) id := fun place => hw_ne_ack other topic group place.1.symm

variable {other : String}

theorem highWaterPut_at {id : String} {seq : Nat} (place : (highWaterPut topic seq).At (mqHwCollection other) id) :
    topic = other := mqHwCollection_injective place.1

theorem snapshotPuts_other_hw (differ : topic ≠ other) :
    ∀ put ∈ snapshotPuts docs topic state, ¬ put.At (mqHwCollection other) mqHighWaterId := by
  intro put member
  rcases mem_snapshotPuts member with ⟨entry, _, same⟩ | ⟨entry, _, seq, _, same⟩ | ⟨_, same⟩
  · subst same
    exact messagePut_not_hw topic other entry.record mqHighWaterId
  · subst same
    exact ackPut_not_hw topic entry.1 other seq mqHighWaterId
  · subst same
    exact fun place => differ (highWaterPut_at place)

theorem hwOf_ok {held : Option Nat} (read : mqHighWater docs topic = .ok held) :
    hwOf docs topic = held.getD 0 := by
  rw [hwOf, read]

theorem persistSnapshot_ok {after : Docs}
    (ok : persistSnapshot docs topic state = .ok after) : after = putAll docs (snapshotPuts docs topic state) := by
  unfold persistSnapshot at ok
  have acked : putAcks (state.adaptive.foldl (fun docs entry => putMessage docs topic entry.record) docs) topic
      state.acks.toList = putAll docs (messagePuts topic state ++ ackPuts topic state.acks.toList) := by
    rw [putAll_append, putAcks_eq, putMessages_eq]
    rfl
  dsimp only at ok
  rw [acked] at ok
  have unchanged : mqHighWater (putAll docs (messagePuts topic state ++ ackPuts topic state.acks.toList)) topic =
      mqHighWater docs topic := by
    apply mqHighWater_congr
    apply get_putAll_other
    intro put member
    rcases mem_append.mp member with message | ack
    · obtain ⟨entry, _, same⟩ := mem_messagePuts.mp message
      subst same
      exact messagePut_not_hw topic topic entry.record mqHighWaterId
    · obtain ⟨entry, _, seq, _, same⟩ := mem_ackPuts.mp ack
      subst same
      exact ackPut_not_hw topic entry.1 topic seq mqHighWaterId
  split at ok
  · rename_i pending
    obtain ⟨existing, read, stored⟩ := bind_ok ok
    rw [unchanged] at read
    cases stored
    rw [snapshotPuts, if_pos pending, hwOf_ok read]
    exact (putAll_append docs _ [highWaterPut topic _]).symm
  · rename_i settled
    cases ok
    rw [snapshotPuts, if_neg settled, append_nil]

theorem persistSnapshots_ok {after : Docs} {extra : Option (String × MqRecord)}
    (distinct : snapshots.Pairwise fun a b => a.1 ≠ b.1) (ok : persistSnapshots docs extra snapshots = .ok after) :
    after = putAll docs (snapshots.flatMap (fun entry => snapshotPuts docs entry.1 entry.2) ++ extraPuts extra) := by
  induction snapshots generalizing docs with
  | nil =>
    cases extra with
    | none | some pair => cases ok; rfl
  | cons first rest ih =>
    obtain ⟨apart, others⟩ := pairwise_cons.mp distinct
    obtain ⟨middle, one, more⟩ := bind_ok ok
    have placed := persistSnapshot_ok one
    have same : rest.flatMap (fun entry => snapshotPuts middle entry.1 entry.2) =
        rest.flatMap fun entry => snapshotPuts docs entry.1 entry.2 := by
      rw [flatMap_def, flatMap_def]
      congr 1
      apply map_congr_left
      intro entry member
      have read : mqHighWater middle entry.1 = mqHighWater docs entry.1 := by
        rw [placed]
        exact mqHighWater_congr (get_putAll_other (snapshotPuts_other_hw (apart entry member)))
      simp only [snapshotPuts, hwOf, read]
    rw [ih others more, same, placed, flatMap_cons, append_assoc, ← putAll_append]

namespace Topic

variable {state : Topic} {entry : Buffered}

theorem mem_buffered :
    entry ∈ state.buffered ↔ ∃ key : Nat, state.messages[key]? = some entry := by
  simp only [buffered, mem_map, Prod.exists, exists_eq_right, Std.ExtTreeMap.mem_toList_iff_getElem?_eq_some]

theorem mem_adaptive :
    entry ∈ state.adaptive ↔ (∃ key : Nat, state.messages[key]? = some entry) ∧ entry.durability = .adaptive := by
  rw [adaptive, mem_filter, mem_buffered, decide_eq_true_eq]

theorem foldl_spilled (state : Topic) (entries : List Buffered) :
    (entries.foldl spilled state).highWater = state.highWater ∧
      (entries.foldl spilled state).persistedHighWater = state.persistedHighWater ∧
      ∀ key : Nat, (entries.foldl spilled state).messages[key]? =
        if entries.any (fun entry => entry.record.seq = key) then none else state.messages[key]? := by
  induction entries generalizing state with
  | nil => exact ⟨rfl, rfl, fun _ => rfl⟩
  | cons entry rest ih =>
    obtain ⟨high, persisted, messages⟩ := ih (state.spilled entry)
    refine ⟨high, persisted, ?_⟩
    intro key
    rw [foldl_cons, messages, spilled, getElem?_erase, any_cons]
    by_cases here : entry.record.seq = key <;> by_cases later : rest.any (fun entry => entry.record.seq = key) = true <;>
      simp [here, later]

@[simp] theorem finalize_highWater (state snapshot : Topic) : (state.finalize snapshot).highWater = state.highWater :=
  (foldl_spilled state snapshot.adaptive).1

@[simp] theorem finalize_persisted (state snapshot : Topic) :
    (state.finalize snapshot).persistedHighWater = state.persistedHighWater.max snapshot.highWater := by
  show ((snapshot.adaptive.foldl spilled state).persistedHighWater).max snapshot.highWater = _
  rw [(foldl_spilled state snapshot.adaptive).2.1]

theorem finalize_messages (state snapshot : Topic) (key : Nat) :
    (state.finalize snapshot).messages[key]? =
      if snapshot.adaptive.any (fun entry => entry.record.seq = key) then none else state.messages[key]? :=
  (foldl_spilled state snapshot.adaptive).2.2 key

end Topic

variable {mq : Runtime} {name : String}

theorem finalizeSnapshots_other
    (absent : ∀ snapshot, (name, snapshot) ∉ snapshots) : (finalizeSnapshots mq snapshots).topics[name]? = mq.topics[name]? := by
  induction snapshots generalizing mq with
  | nil => rfl
  | cons first rest ih =>
    obtain ⟨other, snapshot⟩ := first
    have later : ∀ snapshot, (name, snapshot) ∉ rest := fun snapshot member => absent snapshot (mem_cons_of_mem _ member)
    have differ : other ≠ name := by
      intro same
      subst same
      exact absent snapshot mem_cons_self
    rw [finalizeSnapshots]
    split
    · exact ih later
    · rw [ih later, getElem?_insert, if_neg differ]

variable {snapshot : Topic}

theorem finalizeSnapshots_named
    (distinct : snapshots.Pairwise fun a b => a.1 ≠ b.1)
    (named : (name, snapshot) ∈ snapshots) (held : mq.topics[name]? = some state) :
    (finalizeSnapshots mq snapshots).topics[name]? = some (state.finalize snapshot) := by
  induction snapshots generalizing mq with
  | nil => cases named
  | cons first rest ih =>
    obtain ⟨other, found⟩ := first
    obtain ⟨apart, others⟩ := pairwise_cons.mp distinct
    rcases mem_cons.mp named with here | later
    · cases here
      have absent : ∀ snapshot, (name, snapshot) ∉ rest := fun snapshot member => apart _ member rfl
      rw [finalizeSnapshots, held]
      rw [finalizeSnapshots_other absent, getElem?_insert, if_pos rfl]
    · have differ : other ≠ name := apart _ later
      rw [finalizeSnapshots]
      split
      · exact ih others later held
      · apply ih others later
        rw [getElem?_insert, if_neg differ]
        exact held

namespace Task

/-- The topic as the task found it when it was planned. -/
def snapshotOf (task : Task) (name : String) : Option Topic :=
  (task.snapshots.find? fun entry => entry.1 = name).map Prod.snd

/-- What becomes of a topic when the task is settled. -/
def after (task : Task) (name : String) (state : Topic) : Topic :=
  let finalized := (task.snapshotOf name).elim state state.finalize
  match task.candidate with
  | none => finalized
  | some candidate => if candidate.topic = name then (candidate.settle finalized).1 else finalized

variable {task : Task} {name : String}

theorem mem_of_snapshotOf (taken : task.snapshotOf name = some snapshot) :
    (name, snapshot) ∈ task.snapshots := by
  obtain ⟨entry, found, same⟩ := Option.map_eq_some_iff.mp taken
  have here : entry.1 = name := by simpa using find?_some found
  subst here same
  exact mem_of_find?_eq_some found

theorem absent_of_snapshotOf (untaken : task.snapshotOf name = none) (snapshot : Topic) :
    (name, snapshot) ∉ task.snapshots := by
  intro member
  have none := find?_eq_none.mp (Option.map_eq_none_iff.mp untaken) (name, snapshot) member
  exact none (decide_eq_true rfl)

theorem snapshotOf_isSome (member : (name, snapshot) ∈ task.snapshots) :
    ∃ found, task.snapshotOf name = some found := by
  cases taken : task.snapshotOf name with
  | some found => exact ⟨found, rfl⟩
  | none => exact absurd member (absent_of_snapshotOf taken snapshot)

theorem finalizeSnapshots_topics (distinct : task.snapshots.Pairwise fun a b => a.1 ≠ b.1) (mq : Runtime)
    (name : String) :
    (finalizeSnapshots mq task.snapshots).topics[name]? =
      (mq.topics[name]?).map fun state => (task.snapshotOf name).elim state state.finalize := by
  rcases taken : task.snapshotOf name with _ | snapshot
  · rw [finalizeSnapshots_other (absent_of_snapshotOf taken)]
    simp only [Option.elim_none, Option.map_id']
  cases held : mq.topics[name]? with
  | some state => exact finalizeSnapshots_named distinct (mem_of_snapshotOf taken) held
  | none =>
    -- A snapshot of a topic that is not in the table changes nothing.
    have missing : ∀ (snapshots : List (String × Topic)) (mq : Runtime), mq.topics[name]? = none →
        (finalizeSnapshots mq snapshots).topics[name]? = none := by
      intro snapshots
      induction snapshots with
      | nil => exact fun _ none => none
      | cons first rest ih =>
        intro mq none
        rw [finalizeSnapshots]
        split
        · exact ih mq none
        rename_i state found
        have differ : first.1 ≠ name := by
          intro same
          rw [same, none] at found
          cases found
        apply ih
        rw [getElem?_insert, if_neg differ]
        exact none
    exact missing task.snapshots mq held

theorem settle_topics (distinct : task.snapshots.Pairwise fun a b => a.1 ≠ b.1) (mq : Runtime) (name : String) :
    (task.settle mq).1.topics[name]? = (mq.topics[name]?).map (task.after name) := by
  have finalized := finalizeSnapshots_topics distinct mq
  unfold settle after
  rcases task.candidate with _ | candidate
  · exact finalized name
  unfold settleCandidate
  by_cases here : candidate.topic = name
  · simp only [here, ↓reduceIte]
    have held := finalized name
    cases table : mq.topics[name]? with
    | none =>
      rw [table] at held
      rw [held]
      exact held
    | some state =>
      rw [table] at held
      rw [held]
      simp only [Option.map_some, Runtime.setTopic, getElem?_insert, ↓reduceIte]
  · simp only [here, ↓reduceIte]
    rw [← finalized name]
    split
    · rfl
    · simp only [Runtime.setTopic, getElem?_insert, here, ↓reduceIte]

end Task

end FerroLoop.Queue

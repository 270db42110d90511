import FerroLoop.Queue.Sequences
import FerroLoop.Store.Sample

namespace FerroLoop.Queue

open Store Checked Machine Handle Sample Store

def Handle.settled (handle : Handle) : Runtime :=
  match handle.task with
  | none => handle.runtime
  | some task => if task.persisted then (task.settle handle.runtime).1 else handle.runtime

variable {handle : Handle}

theorem Handle.settled_idle (idle : handle.busy = false) : handle.settled = handle.runtime := by
  unfold busy at idle
  unfold settled
  cases held : handle.task with
  | none => rfl
  | some task =>
    rw [held] at idle
    cases idle

structure Inv (past : String → Nat → Prop) (handle : Handle) : Prop where
  floors : Floors past handle.docs handle.settled.topics
  planned : ∀ task, handle.task = some task → task.Planned handle.runtime.topics

def Answered (past : String → Nat → Prop) (answer : Answer) : String → Nat → Prop :=
  fun topic seq => past topic seq ∨ ∃ record durability, answer = .published topic record durability ∧ record.seq = seq

structure Steps (past : String → Nat → Prop) (handle : Handle) (result : Handle × Answer) : Prop where
  inv : Inv (Answered past result.2) result.1
  fresh : ∀ topic record durability, result.2 = .published topic record durability →
    Fresh past handle.docs handle.runtime.topics topic record.seq

variable {serde : SerdeJson}

section Step

variable {past : String → Nat → Prop} {handle : Handle}

theorem Inv.idle (inv : Inv past handle) (idle : handle.busy = false) : Floors past handle.docs handle.runtime.topics := by
  have floors := inv.floors
  rwa [settled_idle idle] at floors

theorem Inv.at_table (inv : Inv past handle) (name : String) :
    handle.settled.topics[name]? = none ↔ handle.runtime.topics[name]? = none := by
  unfold settled
  rcases held : handle.task with _ | task
  · exact Iff.rfl
  dsimp only
  split
  · rw [Task.settle_topics (inv.planned task held).distinct, Option.map_eq_none_iff]
  · exact Iff.rfl

variable {state : Topic} {docs : Docs} {mq : Runtime} {commit : Except StoreError Unit} {key topic group : String}
  {payload : Value} {sample : Sample} {seq : Nat}

theorem Inv.settled_grows (inv : Inv past handle) {name : String}
    (held : handle.runtime.topics[name]? = some state) :
    ∃ settled, handle.settled.topics[name]? = some settled ∧ state.highWater ≤ settled.highWater := by
  unfold settled
  rcases busy : handle.task with _ | task
  · exact ⟨state, held, Nat.le_refl _⟩
  have planned := inv.planned task busy
  dsimp only
  split
  · refine ⟨task.after name state, ?_, ?_⟩
    · rw [Task.settle_topics planned.distinct, held]
      rfl
    · rw [Task.after_highWater]
      exact planned.high_ge held
  · exact ⟨state, held, Nat.le_refl _⟩

variable {answer : Answer}

theorem answered_quiet (quiet : ∀ topic record durability, answer ≠ .published topic record durability)
    (topic : String) (seq : Nat) (was : Answered past answer topic seq) : past topic seq := by
  rcases was with before | ⟨record, durability, same, _⟩
  · exact before
  · exact absurd same (quiet topic record durability)

theorem Steps.quiet {next : Handle} (inv : Inv past next)
    (quiet : ∀ topic record durability, answer ≠ .published topic record durability) : Steps past handle (next, answer) where
  inv := ⟨inv.floors.forget (answered_quiet quiet), inv.planned⟩
  fresh := fun topic record durability same => absurd same (quiet topic record durability)

theorem Inv.withDocs (inv : Inv past handle)
    (floors : Floors past docs handle.settled.topics) : Inv past { handle with docs := docs } := ⟨floors, inv.planned⟩

theorem Inv.idle_runtime {used : Bool} (floors : Floors past docs mq.topics) :
    Inv past ⟨docs, mq, used, none⟩ := ⟨floors, nofun⟩

theorem Inv.spill {used : Bool} {task : Task} (floors : Floors past docs mq.topics)
    (unsettled : task.persisted = false) (planned : task.Planned mq.topics) : Inv past ⟨docs, mq, used, some task⟩ := by
  refine ⟨?_, ?_⟩
  · unfold settled
    dsimp only
    rw [unsettled]
    exact floors
  · intro found same
    cases same
    exact planned

theorem publishDirect_steps (inv : Inv past handle)
    (absent : handle.runtime.topics[topic]? = none) : Steps past handle (handle.publishDirect topic key payload commit) := by
  unfold publishDirect
  split
  · exact .quiet inv nofun
  rename_i seq next
  split
  · exact .quiet inv nofun
  have gone := (inv.at_table topic).mpr absent
  have direct := inv.floors.direct ⟨seq, key, payload⟩ gone next
  obtain ⟨fresh, _⟩ := inv.floors.fresh_direct gone next
  refine ⟨⟨direct.forget ?_, inv.planned⟩, ?_⟩
  · rintro other n (before | ⟨record, durability, same, rfl⟩)
    · exact .inl before
    · cases same
      exact .inr ⟨rfl, rfl⟩
  · intro other record durability same
    cases same
    refine ⟨fresh.published, fresh.stored, ?_, fresh.vacant⟩
    intro state _ _ held
    rw [absent] at held
    cases held

variable {single : Bool}

theorem publishDurableBuffered_steps (inv : Inv past handle)
    :
    Steps past handle (handle.publishDurableBuffered sample topic key payload single commit) := by
  unfold publishDurableBuffered
  split
  · exact .quiet inv nofun
  rename_i idle
  have floors := inv.idle (Bool.not_eq_true _ ▸ idle)
  split
  · rename_i absent
    exact publishDirect_steps inv absent
  rename_i state held
  split
  · exact .quiet inv nofun
  rename_i seq next
  obtain ⟨same, small⟩ := nextAfter_ok next
  split
  · exact .quiet inv nofun
  rename_i allowed
  split
  · exact .quiet inv nofun
  refine .quiet (.spill floors rfl ?_) nofun
  apply planned_durable ⟨seq, key, payload⟩ held same small
  intro single
  simpa [single] using allowed

theorem publishDurable_steps (inv : Inv past handle)
    (coordinated : handle.used = false → handle.runtime.topics[topic]? = none) :
    Steps past handle (handle.publishDurable sample topic key payload single commit) := by
  unfold publishDurable
  split
  · exact publishDurableBuffered_steps inv
  · rename_i unused
    exact publishDirect_steps inv (coordinated (Bool.not_eq_true _ ▸ unused))

variable {roomy : Runtime}

theorem makeRoom_ok (ok : mq.makeRoom = .ok roomy) :
    roomy.evictOnFirstAck = mq.evictOnFirstAck ∧
      (roomy.topics = mq.topics ∨ ∃ name state, mq.topics[name]? = some state ∧ state.reusable = true ∧
        roomy.topics = mq.topics.erase name) := by
  unfold Runtime.makeRoom at ok
  split at ok
  · cases ok
    exact ⟨rfl, .inl rfl⟩
  split at ok
  · rename_i name removed found
    cases ok
    have held := Std.ExtTreeMap.mem_toList_iff_getElem?_eq_some.mp (List.mem_of_find?_eq_some found)
    have reusable : removed.reusable = true := by simpa using List.find?_some found
    exact ⟨rfl, .inr ⟨name, removed, held, reusable, rfl⟩⟩
  · cases ok

theorem mqSeed_cases (docs : Docs) (mq : Runtime) (topic : String) :
    (mq.mqSeed docs topic).1 = mq ∨ ∃ roomy, mq.makeRoom = .ok roomy ∧ roomy.topics[topic]? = none ∧
      ((mq.mqSeed docs topic).1 = roomy ∨ ∃ next, nextMqSeqForMemory docs topic = .ok next ∧
        (mq.mqSeed docs topic).1 = roomy.setTopic topic (.seeded (next - 1))) := by
  unfold Runtime.mqSeed
  split
  · exact .inl rfl
  rename_i absent
  split
  · exact .inl rfl
  split
  · exact .inl rfl
  rename_i roomy ok
  have before : mq.topics[topic]? = none := by
    rw [Std.ExtTreeMap.contains_eq_isSome_getElem?] at absent
    exact Option.not_isSome_iff_eq_none.mp absent
  have gone : roomy.topics[topic]? = none := by
    rcases (makeRoom_ok ok).2 with same | ⟨name, state, held, _, same⟩
    · rw [same]
      exact before
    rw [same, Map.getElem?_erase]
    split
    · rfl
    · exact before
  refine .inr ⟨roomy, ok, gone, ?_⟩
  split
  · exact .inl rfl
  · rename_i next read
    exact .inr ⟨next, read, rfl⟩

theorem Floors.makeRoom (floors : Floors past docs mq.topics)
    (ok : mq.makeRoom = .ok roomy) : Floors past docs roomy.topics := by
  rcases (makeRoom_ok ok).2 with same | ⟨name, state, held, reusable, same⟩
  · rw [same]
    exact floors
  rw [same]
  apply floors.erase held
  simp only [Topic.reusable, Bool.and_eq_true, beq_iff_eq] at reusable
  exact reusable.1.1.2

theorem Floors.mqSeed (floors : Floors past docs mq.topics) (topic : String) :
    Floors past docs (mq.mqSeed docs topic).1.topics := by
  rcases mqSeed_cases docs mq topic with same | ⟨roomy, ok, gone, same | ⟨next, read, same⟩⟩
  · rw [same]
    exact floors
  · rw [same]
    exact floors.makeRoom ok
  · rw [same]
    exact (floors.makeRoom ok).seed gone read

theorem mqSeed_held (held : mq.topics[topic]? = some state) :
    mq.mqSeed docs topic = (mq, .ok ()) := by
  unfold Runtime.mqSeed
  rw [Std.ExtTreeMap.contains_eq_isSome_getElem?, held]
  rfl

variable {durability : MqDurability} {entry : Buffered}

theorem admission_ok
    {spills : Bool}
    (ok : admission serde mq state sample key payload durability = .ok (entry, spills)) :
    entry.durability = durability ∧ entry.record.seq = state.highWater + 1 ∧ entry.record.seq < u64Max := by
  obtain ⟨bytes, _, ok⟩ := bind_ok ok
  obtain ⟨seq, next, ok⟩ := bind_ok ok
  iterate 3 obtain ⟨_, _, ok⟩ := bind_ok ok
  obtain ⟨same, small⟩ := nextAfter_ok next
  split at ok
  · cases ok
  · cases ok
    exact ⟨rfl, same, small⟩
  split at ok
  · obtain ⟨_, _, ok⟩ := bind_ok ok
    cases ok
    exact ⟨rfl, same, small⟩
  · cases ok
    exact ⟨rfl, same, small⟩

theorem publishBuffered_steps (inv : Inv past handle)
    (kind : durability ≠ .durable) :
    Steps past handle (handle.publishBuffered serde sample topic key payload durability) := by
  unfold publishBuffered
  split
  · exact .quiet inv nofun
  rename_i idle
  have quiet : handle.busy = false := Bool.not_eq_true _ ▸ idle
  have floors := (inv.idle quiet).mqSeed topic
  have none : handle.task = none := Option.not_isSome_iff_eq_none.mp idle
  have seeded : Inv past { handle with runtime := (handle.runtime.mqSeed handle.docs topic).1 } := by
    rw [none]
    exact .idle_runtime floors
  dsimp only
  split
  · exact .quiet seeded nofun
  · exact .quiet seeded nofun
  rename_i state _ held
  split
  · exact .quiet seeded nofun
  · rename_i entry admitted
    obtain ⟨same, next, small⟩ := admission_ok admitted
    have holds := floors.hold held next small (by rw [same]; exact kind)
    refine ⟨⟨?_, ?_⟩, ?_⟩
    · rw [none]
      refine holds.forget ?_
      rintro other n (before | ⟨record, found, same, rfl⟩)
      · exact .inl before
      · cases same
        exact .inr ⟨rfl, rfl⟩
    · rw [none]
      exact nofun
    · intro other record found same
      cases same
      have fresh := floors.fresh_buffered held (by omega)
      rw [← next] at fresh
      refine ⟨fresh.published, fresh.stored, ?_, fresh.vacant⟩
      intro found key kept here
      rw [mqSeed_held here] at fresh
      exact fresh.buffered found key kept here
  · rename_i entry admitted
    obtain ⟨same, next, small⟩ := admission_ok admitted
    refine .quiet (.spill floors rfl ?_) nofun
    exact planned_spill held next small (by rw [same]; exact kind)

theorem commitAck_steps (inv : Inv past handle) :
    Steps past handle (handle.commitAck topic group seq commit) := by
  unfold commitAck
  split
  · exact .quiet inv nofun
  refine .quiet (inv.withDocs ?_) nofun
  apply inv.floors.put
  · exact fun other same => hw_ne_ack other topic group same.symm
  · exact fun other same => absurd same.symm (message_ne_ack other topic group)

theorem ackInMemory_ok {next : Runtime}
    {removed : Bool} (ok : ackInMemory mq topic group seq state entry = .ok (next, removed)) :
    next.topics = mq.topics.insert topic (state.acknowledge group seq entry (!state.ackedBy group seq) removed) ∧
      removed = (!state.ackedBy group seq && (mq.evictOnFirstAck || entry.durability = .ephemeral)) := by
  unfold ackInMemory at ok
  dsimp only at ok
  split at ok
  · cases ok
  split at ok
  · cases ok
  split at ok
  · cases ok
  · cases ok
    exact ⟨rfl, rfl⟩

section

variable (inv : Inv past handle)

include inv

theorem ackMq_steps :
    Steps past handle (handle.ackMq topic group seq commit) := by
  unfold ackMq
  split
  · exact commitAck_steps inv
  split
  · exact .quiet inv nofun
  rename_i idle
  have floors := inv.idle (Bool.not_eq_true _ ▸ idle)
  have none : handle.task = none := Option.not_isSome_iff_eq_none.mp idle
  split
  · exact commitAck_steps inv
  rename_i state held
  split
  · exact commitAck_steps inv
  rename_i entry found
  split
  · exact .quiet inv nofun
  rename_i next removed ok
  refine .quiet ?_ nofun
  rw [none]
  apply Inv.idle_runtime
  rw [(ackInMemory_ok ok).1]
  exact floors.acknowledge held

theorem flushMq_steps {topic : Option String} :
    Steps past handle (handle.flushMq sample topic) := by
  unfold flushMq
  split
  · exact .quiet inv nofun
  rename_i idle
  have floors := inv.idle (Bool.not_eq_true _ ▸ idle)
  dsimp only
  split
  · exact .quiet inv nofun
  · split
    · exact .quiet inv nofun
    · exact .quiet (.spill floors rfl (planned_plain _ _)) nofun

theorem maintainMq_steps : Steps past handle (handle.maintainMq sample) := by
  unfold maintainMq
  split
  · exact .quiet inv nofun
  split
  · exact .quiet inv nofun
  rename_i idle
  have floors := inv.idle (Bool.not_eq_true _ ▸ idle)
  dsimp only
  split
  · exact .quiet inv nofun
  split
  · exact .quiet inv nofun
  · exact .quiet inv nofun
  · exact .quiet inv nofun
  · exact .quiet (.spill floors rfl (planned_plain _ _)) nofun

theorem persist_steps : Steps past handle (handle.persist commit) := by
  unfold persist
  split
  · exact .quiet inv nofun
  rename_i task held
  split
  · exact .quiet inv nofun
  rename_i unsettled
  have planned := inv.planned task held
  have floors : Floors past handle.docs handle.runtime.topics := by
    have known := inv.floors
    unfold settled at known
    rw [held] at known
    dsimp only at known
    rwa [if_neg unsettled] at known
  split
  · exact .quiet (.idle_runtime floors) nofun
  · exact .quiet (.idle_runtime floors) nofun
  rename_i docs ok
  have after := persistSnapshots_ok planned.distinct ok
  have settled := floors.settle planned (Task.settle_topics planned.distinct handle.runtime)
  refine ⟨⟨?_, ?_⟩, ?_⟩
  · rw [after]
    refine settled.forget ?_
    rintro topic seq (before | ⟨record, durability, same, rfl⟩)
    · exact .inl before
    dsimp only [Task.answer] at same
    split at same
    · cases same
    rename_i candidate offered
    split at same
    · cases same
    · cases same
      exact .inr ⟨candidate, offered, rfl, rfl⟩
  · intro found same
    cases same
    exact planned.persist
  · intro topic record durability same
    dsimp only [Task.answer] at same
    split at same
    · cases same
    rename_i candidate offered
    split at same
    · cases same
    cases same
    obtain ⟨state, here, next, small, _⟩ := (planned.offers candidate offered).fresh
    rw [next]
    exact floors.fresh_buffered here (by omega)

theorem finish_steps : Steps past handle handle.finish := by
  unfold finish
  split
  · exact .quiet inv nofun
  rename_i task held
  split
  · rename_i persisted
    refine .quiet ?_ nofun
    apply Inv.idle_runtime
    have known := inv.floors
    unfold settled at known
    rw [held] at known
    dsimp only at known
    rwa [if_pos persisted] at known
  · exact .quiet inv nofun

theorem configureMq_steps {policy : MqTierPolicy} {evict : Bool} :
    Steps past handle (handle.configureMq policy evict) := by
  unfold configureMq
  split
  · exact .quiet inv nofun
  rename_i idle
  have none : handle.task = none := Option.not_isSome_iff_eq_none.mp idle
  refine .quiet ?_ nofun
  rw [none]
  exact .idle_runtime (inv.idle (Bool.not_eq_true _ ▸ idle))

end

end Step

/-- What the queue does not coordinate is left out. An ordinary write stays outside the high-waters,
and a message it writes stays below its topic's. A durable publish that precedes the first admission
to the memory tier finds no buffer of its topic. -/
def Permitted (handle : Handle) : Event → Prop
  | .publish _ topic _ _ durability _ =>
    durability = .durable → handle.used = false → handle.runtime.topics[topic]? = none
  | .publishSingle _ topic _ _ _ => handle.used = false → handle.runtime.topics[topic]? = none
  | .put collection id doc => (∀ topic, collection ≠ mqHwCollection topic) ∧
    ∀ topic, collection = mqMessageCollection topic → Plain id doc ∧
      ∀ n c, storedSeq (id, doc) = some n → ceiling handle.docs handle.runtime.topics topic = some c → n ≤ c
  | .delete collection _ => ∀ topic, collection ≠ mqHwCollection topic
  | _ => True

structure Clean (docs : Docs) : Prop where
  plain : ∀ topic id doc, docs.get (mqMessageCollection topic) id = some doc → Plain id doc
  covered : ∀ topic id doc n high, docs.get (mqMessageCollection topic) id = some doc → storedSeq (id, doc) = some n →
    mqHighWater docs topic = .ok (some high) → n ≤ high

def PublishedIn (past : List (Event × Answer)) (topic : String) (seq : Nat) : Prop :=
  ∃ event record durability, (event, Answer.published topic record durability) ∈ past ∧ record.seq = seq

theorem opened_inv {docs : Docs} (clean : Clean docs) :
    Inv (PublishedIn []) (.opened docs) := by
  have empty : ∀ topic : String, Runtime.default.topics[topic]? = none := fun topic => Std.ExtTreeMap.getElem?_empty
  apply Inv.idle_runtime
  refine ⟨clean.plain, ?_, ?_, ?_, ?_⟩
  · intro topic id doc n c held read high
    rw [ceiling, empty topic] at high
    dsimp only at high
    split at high
    · rename_i found water
      subst high
      exact clean.covered topic id doc n c held read water
    · cases high
  · intro topic state held
    cases held
  · intro topic state held
    cases held
  · rintro topic seq ⟨_, _, _, member, _⟩
    cases member

variable {past : String → Nat → Prop}

theorem put_steps (inv : Inv past handle) {collection id : String} {doc : Value}
    (permitted : Permitted handle (.put collection id doc)) :
    Steps past handle ({ handle with docs := handle.docs.insert collection id doc }, .done) := by
  obtain ⟨notHw, message⟩ := permitted
  refine .quiet (inv.withDocs (inv.floors.put notHw ?_)) nofun
  intro topic same
  obtain ⟨plain, below⟩ := message topic same
  refine ⟨plain, ?_⟩
  intro n c read high
  rcases held : handle.runtime.topics[topic]? with _ | state
  · rw [ceiling, (inv.at_table topic).mpr held] at high
    exact below n c read (by rw [ceiling, held]; exact high)
  have low := below n state.highWater read (by rw [ceiling, held])
  obtain ⟨settled, there, grows⟩ := inv.settled_grows held
  rw [ceiling, there] at high
  cases high
  exact Nat.le_trans low grows

variable {event : Event}

theorem step_steps (serde : SerdeJson) (inv : Inv past handle)
    (permitted : Permitted handle event) : Steps past handle (step serde handle event) := by
  cases event with
  | configure policy evict => exact configureMq_steps inv
  | publish sample topic key payload durability commit =>
    show Steps past handle (handle.publish serde sample topic key payload durability commit)
    unfold publish
    split
    · rename_i durable
      exact publishDurable_steps inv (permitted durable)
    · rename_i buffered
      exact publishBuffered_steps inv buffered
  | publishSingle sample topic key payload commit => exact publishDurable_steps inv permitted
  | ack topic group seq commit => exact ackMq_steps inv
  | ackLate topic group seq commit => exact commitAck_steps inv
  | flush sample topic => exact flushMq_steps inv
  | maintain sample => exact maintainMq_steps inv
  | persist commit => exact persist_steps inv
  | finish => exact finish_steps inv
  | checkpoint => exact .quiet inv nofun
  | put collection id doc => exact put_steps inv permitted
  | delete collection id => exact .quiet (inv.withDocs (inv.floors.remove permitted)) nofun

theorem step_published (serde : SerdeJson) {past : List (Event × Answer)}
    (inv : Inv (PublishedIn past) handle) (permitted : Permitted handle event) :
    Inv (PublishedIn (past ++ [(event, (step serde handle event).2)])) (step serde handle event).1 := by
  have next := (step_steps serde inv permitted).inv
  refine ⟨next.floors.forget ?_, next.planned⟩
  rintro topic seq ⟨found, record, durability, member, same⟩
  rcases List.mem_append.mp member with before | now
  · exact .inl ⟨found, record, durability, before, same⟩
  · have here := List.mem_singleton.mp now
    exact .inr ⟨record, durability, (Prod.mk.inj here).2.symm, same⟩

theorem run_inv {docs : Docs} (clean : Clean docs) {events : List Event}
    (permitted : Machine.Throughout (step serde) Permitted (.opened docs) events) :
    Inv (PublishedIn (trace (step serde) (.opened docs) events)) (run (step serde) (.opened docs) events) := by
  have preserved : ∀ (past : List (Event × Answer)) (handle : Handle) (event : Event), Inv (PublishedIn past) handle →
      Permitted handle event →
      Inv (PublishedIn (past ++ [(event, (step serde handle event).2)])) (step serde handle event).1 :=
    fun _ _ _ inv allowed => step_published serde inv allowed
  exact history_throughout preserved (opened_inv clean) permitted

/-- In every run that leaves out what is not coordinated, a publish gets a sequence above every one
that its topic got before, above every message of the topic on disk and in memory, and overwrites
none. -/
theorem published_sequence_fresh (serde : SerdeJson) {docs : Docs} (clean : Clean docs)
    {front back : List Event} {event : Event}
    (permitted : Machine.Throughout (step serde) Permitted (.opened docs) (front ++ event :: back))
    {topic : String} {record : MqRecord} {durability : MqDurability}
    (answer : (step serde (run (step serde) (.opened docs) front) event).2 =
      .published topic record durability) :
    Fresh (PublishedIn (trace (step serde) (.opened docs) front))
      (run (step serde) (.opened docs) front).docs
      (run (step serde) (.opened docs) front).runtime.topics topic record.seq := by
  obtain ⟨before, here, _⟩ := Machine.Throughout.append.mp permitted
  exact (step_steps serde (run_inv clean before) here).fresh topic record durability answer

namespace Sample

def quiet : Queue.Sample := ⟨0, none, none⟩

def ample : Queue.Sample := ⟨0, some (2 ^ 40), some (2 ^ 40)⟩

def publish (sample : Queue.Sample) (durability : MqDurability) : Event :=
  .publish sample "orders" "k" Value.null durability (.ok ())

end Sample

theorem clean_empty : Clean Docs.empty := by
  constructor <;> intro topic id doc <;> intros <;> rename_i held <;> cases held

theorem published_sequence_fresh_sample :
    Fresh (PublishedIn (trace (step Sample.serde) (.opened Docs.empty) [publish quiet .durable]))
      (run (step Sample.serde) (.opened Docs.empty) [publish quiet .durable]).docs
      (run (step Sample.serde) (.opened Docs.empty) [publish quiet .durable]).runtime.topics
      "orders" 2 := by
  have permitted : Machine.Throughout (step Sample.serde) Permitted (.opened Docs.empty)
      ([publish quiet .durable] ++ publish ample .adaptive :: []) := by
    refine ⟨fun _ _ => rfl, ?_, trivial⟩
    intro impossible
    cases impossible
  have answer : (step Sample.serde (run (step Sample.serde) (.opened Docs.empty)
      [publish quiet .durable]) (publish ample .adaptive)).2 =
        .published "orders" ⟨2, "k", Value.null⟩ .adaptive := rfl
  exact published_sequence_fresh Sample.serde clean_empty permitted answer

/-- An ordinary write above the high-water is not coordinated: the next durable publish is below it. -/
theorem publish_below_written_message :
    (step Sample.serde (run (step Sample.serde) (.opened Docs.empty)
      [publish quiet .durable, .put (mqMessageCollection "orders") "5" (seqDoc 5)])
        (publish quiet .durable)).2 = .published "orders" ⟨2, "k", Value.null⟩ .durable ∧
      (run (step Sample.serde) (.opened Docs.empty)
        [publish quiet .durable, .put (mqMessageCollection "orders") "5" (seqDoc 5)]).docs.get
          (mqMessageCollection "orders") "5" = some (seqDoc 5) ∧
      storedSeq ("5", seqDoc 5) = some 5 ∧ ¬ 5 < 2 :=
  ⟨rfl, rfl, rfl, by decide⟩

end FerroLoop.Queue

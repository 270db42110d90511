import FerroLoop.Queue.Reading

namespace FerroLoop.Queue

open List hiding isEmpty_iff
open Std Store Checked Machine Sample Handle Docs Store

/-! ### What a step does to the contents -/

structure Holding (sent : String → List Sent) (acked : String → String → Nat → Prop) (gone : String → Nat → Prop)
    (handle : Handle) : Prop where
  contents : Contents sent acked gone handle.docs handle.settled.topics
  /-- Nothing is taken but an Ephemeral message. -/
  evict : handle.runtime.evictOnFirstAck = false
  /-- Before the first admission the table has only seeded topics. -/
  unused : handle.used = false → handle.task = none ∧
    ∀ (topic : String) (state : Topic), handle.runtime.topics[topic]? = some state → ∃ floor, state = .seeded floor

/-- What a run of the queue alone may do: ordinary writes leave its collections, no acknowledgement
evicts, and durable publishes are coordinated. -/
def Undisturbed (handle : Handle) : Event → Prop
  | .configure _ evictOnFirstAck => evictOnFirstAck = false
  | .publish _ topic _ _ durability _ =>
    durability = .durable → handle.used = false → handle.runtime.topics[topic]? = none
  | .publishSingle _ topic _ _ _ => handle.used = false → handle.runtime.topics[topic]? = none
  | .put collection _ _ | .delete collection _ => ∀ topic group,
    collection ≠ mqMessageCollection topic ∧ collection ≠ mqHwCollection topic ∧ collection ≠ mqAckCollection topic group
  | _ => True

variable {handle : Handle} {event : Event}

theorem Undisturbed.permitted (undisturbed : Undisturbed handle event) :
    Permitted handle event := by
  cases event with
  | publish => exact undisturbed
  | publishSingle => exact undisturbed
  | put collection id doc =>
    exact ⟨fun topic => (undisturbed topic topic).2.1, fun topic same => absurd same (undisturbed topic topic).1⟩
  | delete collection id => exact fun topic => (undisturbed topic topic).2.1
  | _ => trivial

variable {serde : SerdeJson}

section Step

variable {sent : String → List Sent} {acked : String → String → Nat → Prop} {gone : String → Nat → Prop}
  {past : String → Nat → Prop} {handle : Handle}

def Keeps (sent : String → List Sent) (acked : String → String → Nat → Prop) (gone : String → Nat → Prop)
    (result : Handle × Answer) : Prop :=
  Holding (sentAfter sent result.2) (ackedAfter acked result.2) (goneAfter gone result.2) result.1

variable {topic key group : String} {seq : Nat} {mq : Runtime} {commit : Except StoreError Unit} {payload : Value}
  {sample : Sample}

variable {docs : Docs}

theorem above_of_fresh {topics : BTreeMap String Topic}
    (contents : Contents sent acked gone docs topics) (fresh : Fresh past docs topics topic seq)
    (known : ∀ one ∈ sent topic, one.durability = .ephemeral → past topic one.record.seq) :
    ∀ one ∈ sent topic, one.record.seq < seq := by
  intro one member
  by_cases kind : one.durability = .ephemeral
  · exact fresh.published _ (known one member kind)
  rcases contents.kept topic one member kind with document | buffered
  · exact fresh.stored _ _ _ document (storedSeq_messageDoc (contents.small topic one member) _)
  obtain ⟨entry, there⟩ := Option.isSome_iff_exists.mp buffered
  obtain ⟨state, held, found⟩ := Option.bind_eq_some_iff.mp there
  rw [← (contents.memory topic _ entry there).2]
  exact fresh.buffered state _ entry held found

theorem Holding.idle (holding : Holding sent acked gone handle) (idle : handle.busy = false) :
    Contents sent acked gone handle.docs handle.runtime.topics := by
  have contents := holding.contents
  rwa [settled_idle idle] at contents

theorem makeRoom_contents {roomy : Runtime} (contents : Contents sent acked gone docs mq.topics)
    (ok : mq.makeRoom = .ok roomy) : Contents sent acked gone docs roomy.topics := by
  rcases (makeRoom_ok ok).2 with same | ⟨name, state, held, reusable, same⟩
  · rw [same]
    exact contents
  simp only [Topic.reusable, Bool.and_eq_true, ExtTreeMap.isEmpty_iff] at reusable
  obtain ⟨⟨⟨⟨messages, acks⟩, _⟩, _⟩, _⟩ := reusable
  refine contents.congr (fun _ _ => rfl) (fun _ _ _ => rfl) ?_ ?_
  · intro other seq
    unfold messageAt
    rw [same, Map.getElem?_erase]
    split
    · rename_i here
      subst here
      rw [held, Option.bind_some, messages, ExtTreeMap.getElem?_empty]
      rfl
    · rfl
  · intro other group seq
    unfold ackedAt
    rw [same, Map.getElem?_erase]
    split
    · rename_i here
      subst here
      rw [held, Option.any_some, Topic.ackedBy, acks, ExtTreeMap.getElem?_empty]
      rfl
    · rfl

theorem mqSeed_contents (contents : Contents sent acked gone docs mq.topics) (topic : String) :
    Contents sent acked gone docs (mq.mqSeed docs topic).1.topics := by
  rcases mqSeed_cases docs mq topic with same | ⟨roomy, ok, absent, same | ⟨next, _, same⟩⟩
  · rw [same]
    exact contents
  · rw [same]
    exact makeRoom_contents contents ok
  rw [same]
  refine (makeRoom_contents contents ok).congr (fun _ _ => rfl) (fun _ _ _ => rfl) ?_ ?_
  · intro other seq
    rw [Runtime.setTopic, messageAt_insert]
    split
    · rename_i here
      subst here
      rw [messageAt, absent, Topic.seeded, ExtTreeMap.getElem?_empty]
      rfl
    · rfl
  · intro other group seq
    rw [Runtime.setTopic, ackedAt_insert]
    split
    · rename_i here
      subst here
      rw [ackedAt, absent, Topic.seeded, Topic.ackedBy, ExtTreeMap.getElem?_empty]
      rfl
    · rfl

theorem mqSeed_evict (docs : Docs) (mq : Runtime) (topic : String) :
    (mq.mqSeed docs topic).1.evictOnFirstAck = mq.evictOnFirstAck := by
  rcases mqSeed_cases docs mq topic with same | ⟨roomy, ok, _, same | ⟨next, _, same⟩⟩
  · rw [same]
  · rw [same]
    exact (makeRoom_ok ok).1
  · rw [same]
    exact (makeRoom_ok ok).1

theorem mqSeed_seeded
    (seeded : ∀ (name : String) (state : Topic), mq.topics[name]? = some state → ∃ floor, state = .seeded floor) :
    ∀ (name : String) (state : Topic), (mq.mqSeed docs topic).1.topics[name]? = some state → ∃ floor, state = .seeded floor := by
  have room : ∀ {roomy : Runtime}, mq.makeRoom = .ok roomy →
      ∀ (name : String) (state : Topic), roomy.topics[name]? = some state → ∃ floor, state = .seeded floor := by
    intro roomy ok name state held
    rcases (makeRoom_ok ok).2 with same | ⟨other, _, _, _, same⟩
    · rw [same] at held
      exact seeded name state held
    rw [same, Map.getElem?_erase] at held
    split at held
    · cases held
    · exact seeded name state held
  rcases mqSeed_cases docs mq topic with same | ⟨roomy, ok, _, same | ⟨next, _, same⟩⟩
  · rw [same]
    exact seeded
  · rw [same]
    exact room ok
  rw [same]
  intro name state held
  rcases Map.insert_cases held with ⟨_, rfl⟩ | ⟨_, held⟩
  · exact ⟨_, rfl⟩
  · exact room ok name state held

theorem Holding.spill {used : Bool} {task : Task}
    (contents : Contents sent acked gone docs mq.topics) (evict : mq.evictOnFirstAck = false) (is : used = true)
    (unsettled : task.persisted = false) : Holding sent acked gone ⟨docs, mq, used, some task⟩ := by
  refine ⟨?_, evict, ?_⟩
  · unfold settled
    dsimp only
    rw [unsettled]
    exact contents
  · intro unused
    rw [is] at unused
    cases unused

section

variable (inv : Inv past handle) (holding : Holding sent acked gone handle) (known : ∀ topic, ∀ one ∈ sent topic, one.durability = .ephemeral → past topic one.record.seq)

include inv holding known

theorem publishDirect_keeps (absent : handle.runtime.topics[topic]? = none) :
    Keeps sent acked gone (handle.publishDirect topic key payload commit) := by
  unfold publishDirect
  split
  · exact holding
  rename_i seq next
  split
  · exact holding
  have missing := (inv.at_table topic).mpr absent
  obtain ⟨fresh, small⟩ := inv.floors.fresh_direct missing next
  have above := above_of_fresh holding.contents fresh (known topic)
  exact ⟨holding.contents.direct missing above small, holding.evict, holding.unused⟩

theorem publishDurableBuffered_keeps (used : handle.used = true) {single : Bool} :
    Keeps sent acked gone (handle.publishDurableBuffered sample topic key payload single commit) := by
  unfold publishDurableBuffered
  split
  · exact holding
  rename_i idle
  have contents := holding.idle (Bool.not_eq_true _ ▸ idle)
  split
  · rename_i absent
    exact publishDirect_keeps inv holding known absent
  split
  · exact holding
  split
  · exact holding
  · split
    · exact holding
    · exact Holding.spill contents holding.evict used rfl

end

theorem publishBuffered_keeps (inv : Inv past handle) (holding : Holding sent acked gone handle)
    (known : ∀ topic, ∀ one ∈ sent topic, one.durability = .ephemeral → past topic one.record.seq)
    {durability : MqDurability} :
    Keeps sent acked gone (handle.publishBuffered serde sample topic key payload durability) := by
  unfold publishBuffered
  split
  · exact holding
  rename_i idle
  have none : handle.task = none := Option.not_isSome_iff_eq_none.mp idle
  have contents := mqSeed_contents (holding.idle (Bool.not_eq_true _ ▸ idle)) topic
  have floors := (inv.idle (Bool.not_eq_true _ ▸ idle)).mqSeed topic
  have evict := (mqSeed_evict handle.docs handle.runtime topic).trans holding.evict
  have seeded : Holding sent acked gone { handle with runtime := (handle.runtime.mqSeed handle.docs topic).1 } := by
    refine ⟨?_, evict, ?_⟩
    · rw [none]
      exact contents
    · intro unused
      exact ⟨none, mqSeed_seeded (holding.unused unused).2⟩
  dsimp only
  split
  · exact seeded
  · exact seeded
  rename_i state _ held
  split
  · exact seeded
  · rename_i entry admitted
    obtain ⟨same, next, small⟩ := admission_ok admitted
    have fresh := floors.fresh_buffered held (by omega)
    rw [← next] at fresh
    have holds := contents.hold held (above_of_fresh contents fresh (known topic)) small
    rw [same] at holds
    refine ⟨?_, evict, nofun⟩
    rw [none]
    exact holds
  · rename_i entry admitted
    exact Holding.spill contents evict rfl rfl

theorem commitAck_keeps (holding : Holding sent acked gone handle)
    (small : seq < u64Max) :
    Keeps sent acked gone (handle.commitAck topic group seq commit) := by
  unfold commitAck
  split
  · exact holding
  have contents : Contents sent (alsoAcked acked topic group seq) gone (putAck handle.docs topic group seq)
      handle.settled.topics := holding.contents.putAck small
  have same : goneAfter gone (.acked topic group seq false) = gone := by
    funext other n
    exact propext ⟨fun was => was.elim id (fun impossible => nomatch impossible.1), .inl⟩
  refine ⟨?_, holding.evict, holding.unused⟩
  rw [same]
  exact contents

theorem ackInMemory_evict {next : Runtime} {state : Topic} {entry : Buffered}
    {removed : Bool} (ok : ackInMemory mq topic group seq state entry = .ok (next, removed)) :
    next.evictOnFirstAck = mq.evictOnFirstAck := by
  unfold ackInMemory at ok
  dsimp only at ok
  split at ok
  · cases ok
  split at ok
  · cases ok
  split at ok
  · cases ok
  · cases ok
    rfl

theorem ackMq_keeps (holding : Holding sent acked gone handle)
    (small : seq < u64Max) : Keeps sent acked gone (handle.ackMq topic group seq commit) := by
  unfold ackMq
  split
  · exact commitAck_keeps holding small
  rename_i used
  have is : handle.used = true := Decidable.not_not.mp used
  split
  · exact holding
  rename_i idle
  have none : handle.task = none := Option.not_isSome_iff_eq_none.mp idle
  have contents := holding.idle (Bool.not_eq_true _ ▸ idle)
  split
  · exact commitAck_keeps holding small
  rename_i state held
  split
  · exact commitAck_keeps holding small
  rename_i entry found
  split
  · exact holding
  rename_i next removed ok
  obtain ⟨topics, removes⟩ := ackInMemory_ok ok
  have kind : removed = true → entry.durability = .ephemeral := by
    intro took
    rw [removes, holding.evict] at took
    simpa using (Bool.and_eq_true_iff.mp took).2
  refine ⟨?_, (ackInMemory_evict ok).trans holding.evict, fun unused => absurd (is.symm.trans unused) nofun⟩
  unfold settled
  rw [none, topics]
  exact contents.acknowledge held found kind

theorem seeded_quiet (floor : Nat) : (Topic.seeded floor).pending = false ∧ (Topic.seeded floor).adaptive = [] := by
  have none : (Topic.seeded floor).adaptive = [] := rfl
  refine ⟨?_, none⟩
  rw [Topic.pending, none]
  simp [Topic.seeded]

theorem flushMq_keeps (holding : Holding sent acked gone handle) {topic : Option String} :
    Keeps sent acked gone (handle.flushMq sample topic) := by
  unfold flushMq
  split
  · exact holding
  rename_i idle
  have contents := holding.idle (Bool.not_eq_true _ ▸ idle)
  dsimp only
  split
  · exact holding
  rename_i pending
  split
  · exact holding
  refine Holding.spill contents holding.evict ?_ rfl
  cases used : handle.used with
  | true => rfl
  | false =>
    -- A seeded topic has nothing to flush.
    exfalso
    obtain ⟨entry, member, some⟩ := any_eq_true.mp (Decidable.not_not.mp pending)
    have held := ExtTreeMap.mem_toList_iff_getElem?_eq_some.mp (mem_filter.mp member).1
    obtain ⟨floor, same⟩ := (holding.unused used).2 entry.1 entry.2 held
    rw [same, (seeded_quiet floor).1] at some
    cases some

theorem maintainMq_keeps (holding : Holding sent acked gone handle) :
    Keeps sent acked gone (handle.maintainMq sample) := by
  unfold maintainMq
  split
  · exact holding
  rename_i used
  split
  · exact holding
  rename_i idle
  have contents := holding.idle (Bool.not_eq_true _ ▸ idle)
  dsimp only
  split
  · exact holding
  split
  · exact holding
  · exact holding
  · exact holding
  · exact Holding.spill contents holding.evict (Decidable.not_not.mp used) rfl

theorem persist_keeps (inv : Inv past handle) (holding : Holding sent acked gone handle)
    (known : ∀ topic, ∀ one ∈ sent topic, one.durability = .ephemeral → past topic one.record.seq) : Keeps sent acked gone (handle.persist commit) := by
  unfold persist
  split
  · exact holding
  rename_i task held
  split
  · exact holding
  rename_i unsettled
  have used : handle.used = true := by
    cases used : handle.used with
    | true => rfl
    | false =>
      have none := (holding.unused used).1
      rw [held] at none
      cases none
  have same : handle.settled = handle.runtime := by
    unfold settled
    rw [held]
    dsimp only
    rw [if_neg unsettled]
  have contents := holding.contents
  have floors := inv.floors
  rw [same] at contents floors
  have planned := inv.planned task held
  have released : Holding sent acked gone { handle with task := none } :=
    ⟨contents, holding.evict, fun unused => absurd (used.symm.trans unused) nofun⟩
  split
  · exact released
  · exact released
  rename_i docs ok
  have above : ∀ candidate, task.candidate = some candidate →
      ∀ one ∈ sent candidate.topic, one.record.seq < candidate.record.seq := by
    intro candidate offered
    obtain ⟨state, here, next, small, _⟩ := (planned.offers candidate offered).fresh
    have fresh := floors.fresh_buffered here (by omega)
    rw [← next] at fresh
    exact above_of_fresh contents fresh (known candidate.topic)
  have settled := contents.settle planned floors.sane above (Task.settle_topics planned.distinct handle.runtime)
  have after : docs = putAll handle.docs (taskPuts handle.docs task) := persistSnapshots_ok planned.distinct ok
  rw [← after] at settled
  have quiet : ackedAfter acked (task.answer handle.runtime) = acked ∧ goneAfter gone (task.answer handle.runtime) = gone := by
    rcases Task.answer_cases planned with ⟨candidate, _, answer, _⟩ | _
    · rw [answer]
      exact ⟨rfl, rfl⟩
    unfold Task.answer
    split
    · exact ⟨rfl, rfl⟩
    · split <;> exact ⟨rfl, rfl⟩
  refine ⟨?_, holding.evict, fun unused => absurd (used.symm.trans unused) nofun⟩
  rw [quiet.1, quiet.2]
  exact settled

theorem finalizeSnapshots_evict (mq : Runtime) (snapshots : List (String × Topic)) :
    (finalizeSnapshots mq snapshots).evictOnFirstAck = mq.evictOnFirstAck := by
  induction snapshots generalizing mq with
  | nil => rfl
  | cons first rest ih =>
    rw [finalizeSnapshots]
    split
    · exact ih mq
    · exact ih _

theorem settle_evict (task : Task) (mq : Runtime) : (task.settle mq).1.evictOnFirstAck = mq.evictOnFirstAck := by
  have finalized := finalizeSnapshots_evict mq task.snapshots
  unfold Task.settle settleCandidate
  split
  · exact finalized
  dsimp only
  split
  · exact finalized
  · exact finalized

theorem finish_keeps (holding : Holding sent acked gone handle) :
    Keeps sent acked gone handle.finish := by
  unfold finish
  split
  · exact holding
  rename_i task held
  split
  · rename_i persisted
    have contents := holding.contents
    unfold settled at contents
    rw [held] at contents
    dsimp only at contents
    rw [if_pos persisted] at contents
    refine ⟨contents, (settle_evict task handle.runtime).trans holding.evict, ?_⟩
    intro unused
    have none := (holding.unused unused).1
    rw [held] at none
    cases none
  · exact holding

theorem configureMq_keeps (holding : Holding sent acked gone handle) {policy : MqTierPolicy} {evict : Bool}
    (never : evict = false) : Keeps sent acked gone (handle.configureMq policy evict) := by
  unfold configureMq
  split
  · exact holding
  rename_i idle
  have none : handle.task = none := Option.not_isSome_iff_eq_none.mp idle
  refine ⟨?_, never, holding.unused⟩
  rw [none]
  exact holding.idle (Bool.not_eq_true _ ▸ idle)

theorem Holding.withDocs (holding : Holding sent acked gone handle) {collection : String}
    (outside : ∀ topic group, collection ≠ mqMessageCollection topic ∧ collection ≠ mqHwCollection topic ∧
      collection ≠ mqAckCollection topic group)
    (others : ∀ other id, collection ≠ other → docs.get other id = handle.docs.get other id) :
    Holding sent acked gone { handle with docs := docs } := by
  refine ⟨holding.contents.congr ?_ ?_ (fun _ _ => rfl) (fun _ _ _ => rfl), holding.evict, holding.unused⟩
  · exact fun topic id => others _ id (outside topic topic).1
  · exact fun topic group id => others _ id (outside topic group).2.2

theorem step_keeps (serde : SerdeJson) (inv : Inv past handle) (holding : Holding sent acked gone handle)
    (known : ∀ topic, ∀ one ∈ sent topic, one.durability = .ephemeral → past topic one.record.seq)
    (undisturbed : Undisturbed handle event) : Keeps sent acked gone (step serde handle event) := by
  have durable : ∀ {sample : Sample} {topic key : String} {payload : Value} {single : Bool} {commit : Except StoreError Unit},
      (handle.used = false → handle.runtime.topics[topic]? = none) →
      Keeps sent acked gone (handle.publishDurable sample topic key payload single commit) := by
    intro sample topic key payload single commit coordinated
    unfold publishDurable
    split
    · rename_i used
      exact publishDurableBuffered_keeps inv holding known used
    · rename_i unused
      exact publishDirect_keeps inv holding known (coordinated (Bool.not_eq_true _ ▸ unused))
  cases event with
  | configure policy evict => exact configureMq_keeps holding undisturbed
  | publish sample topic key payload durability commit =>
    show Keeps sent acked gone (handle.publish serde sample topic key payload durability commit)
    unfold Handle.publish
    split
    · rename_i is
      exact durable (undisturbed is)
    · exact publishBuffered_keeps inv holding known
  | publishSingle sample topic key payload commit => exact durable undisturbed
  | ack topic group seq commit => exact ackMq_keeps holding seq.toNat_lt
  | ackLate topic group seq commit => exact commitAck_keeps holding seq.toNat_lt
  | flush sample topic => exact flushMq_keeps holding
  | maintain sample => exact maintainMq_keeps holding
  | persist commit => exact persist_keeps inv holding known
  | finish => exact finish_keeps holding
  | checkpoint => exact holding
  | put collection id doc =>
    refine holding.withDocs undisturbed ?_
    intro other found differ
    rw [get_insert, if_neg]
    exact fun same => differ (Prod.mk.inj same).1
  | delete collection id =>
    refine holding.withDocs undisturbed ?_
    intro other found differ
    rw [get_remove, if_neg]
    exact fun same => differ (Prod.mk.inj same).1

end Step

def sentIn (stored : String → List MqRecord) (past : List (Event × Answer)) (topic : String) : List Sent :=
  (stored topic).map (fun record => ⟨record, .durable⟩) ++ past.filterMap fun entry =>
    match entry.2 with
    | .published name record durability => if topic = name then some ⟨record, durability⟩ else none
    | _ => none

def ackedIn (docs : Docs) (past : List (Event × Answer)) (topic group : String) : List Nat :=
  ackedSeqs docs topic group ++ past.filterMap fun entry =>
    match entry.2 with
    | .acked name member seq _ => if topic = name ∧ group = member then some seq else none
    | _ => none

/-- The messages that an acknowledgement took out of memory. -/
def goneIn (past : List (Event × Answer)) (topic : String) : List Nat :=
  past.filterMap fun entry =>
    match entry.2 with
    | .acked name _ seq true => if topic = name then some seq else none
    | _ => none

theorem sentIn_snoc (stored : String → List MqRecord) (past : List (Event × Answer)) (event : Event) (answer : Answer) :
    sentIn stored (past ++ [(event, answer)]) = sentAfter (sentIn stored past) answer := by
  funext topic
  unfold sentIn
  rw [filterMap_append, ← append_assoc]
  cases answer with
  | published name record durability =>
    simp only [sentAfter, extend, filterMap_cons, filterMap_nil]
    split <;> simp_all
  | _ => simp [sentAfter]

theorem mem_ackedIn_snoc (docs : Docs) (past : List (Event × Answer)) (event : Event) (answer : Answer) :
    (fun topic group seq => seq ∈ ackedIn docs (past ++ [(event, answer)]) topic group) =
      ackedAfter (fun topic group seq => seq ∈ ackedIn docs past topic group) answer := by
  funext topic group seq
  cases answer with
  | acked name member n removed =>
    simp only [ackedAfter, alsoAcked, ackedIn, filterMap_append, filterMap_cons, filterMap_nil,
      mem_append]
    split
    · rename_i here
      simp_all
    · rename_i value here
      simp_all [or_assoc]
  | _ => simp [ackedAfter, ackedIn]

theorem mem_goneIn_snoc (past : List (Event × Answer)) (event : Event) (answer : Answer) :
    (fun topic seq => seq ∈ goneIn (past ++ [(event, answer)]) topic) =
      goneAfter (fun topic seq => seq ∈ goneIn past topic) answer := by
  funext topic seq
  cases answer with
  | acked name member n removed =>
    cases removed with
    | true =>
      simp only [goneAfter, alsoGone, goneIn, filterMap_append, filterMap_cons, filterMap_nil,
        mem_append]
      split <;> simp_all
    | false => simp [goneAfter, alsoGone, goneIn]
  | _ => simp [goneAfter, goneIn]

/-- Documents that a handle can be opened with: the messages are these, under their sequences, no
high-water is behind them, and acknowledgements are as the queue writes them. -/
structure Opened (docs : Docs) (stored : String → List MqRecord) : Prop where
  exact_ : ∀ topic id doc, docs.get (mqMessageCollection topic) id = some doc ↔
    ∃ record ∈ stored topic, id = toString record.seq ∧ doc = messageDoc record
  ordered : ∀ topic, (stored topic).Pairwise fun a b => a.seq < b.seq
  small : ∀ topic, ∀ record ∈ stored topic, record.seq < u64Max
  covered : ∀ topic high, mqHighWater docs topic = .ok (some high) → ∀ record ∈ stored topic, record.seq ≤ high
  acks : ∀ topic group id doc, docs.get (mqAckCollection topic group) id = some doc →
    ∃ seq, seq < u64Max ∧ id = toString seq ∧ doc = seqDoc seq

variable {topic group : String}

namespace Opened

variable {docs : Docs} {stored : String → List MqRecord}

theorem clean (opened : Opened docs stored) : Clean docs where
  plain := by
    intro topic id doc held
    obtain ⟨record, member, rfl, rfl⟩ := (opened.exact_ topic id doc).mp held
    exact plain_message (opened.small topic record member)
  covered := by
    intro topic id doc n high held read water
    obtain ⟨record, member, rfl, rfl⟩ := (opened.exact_ topic id doc).mp held
    rw [storedSeq_messageDoc (opened.small topic record member)] at read
    cases read
    exact opened.covered topic high water record member

theorem mem_sentIn {one : Sent} :
    one ∈ sentIn stored [] topic ↔ ∃ record ∈ stored topic, one = ⟨record, .durable⟩ := by
  simp [sentIn, eq_comm]

theorem mem_acked (opened : Opened docs stored) {seq : Nat} :
    seq ∈ ackedIn docs [] topic group ↔
      docs.get (mqAckCollection topic group) (toString seq) = some (seqDoc seq) ∧ seq < u64Max := by
  unfold ackedIn ackedSeqs
  rw [filterMap_nil, append_nil, mem_filterMap]
  constructor
  · rintro ⟨⟨id, doc⟩, member, read⟩
    have held := mem_inCollection.mp member
    obtain ⟨n, small, rfl, rfl⟩ := opened.acks topic group id doc held
    rw [storedSeq_seqDoc small] at read
    cases read
    exact ⟨held, small⟩
  · rintro ⟨held, small⟩
    exact ⟨_, mem_inCollection.mpr held, storedSeq_seqDoc small _⟩

theorem holding (opened : Opened docs stored) :
    Holding (sentIn stored []) (fun topic group seq => seq ∈ ackedIn docs [] topic group) (fun topic seq => seq ∈ goneIn [] topic)
      (.opened docs) := by
  have nowhere : ∀ topic seq, messageAt Runtime.default.topics topic seq = none := by
    intro topic seq
    rfl
  refine ⟨?_, rfl, ?_⟩
  · constructor
    · intro topic
      simp only [sentIn, filterMap_nil, append_nil]
      rw [pairwise_map]
      exact opened.ordered topic
    · intro topic one member
      obtain ⟨record, inside, rfl⟩ := mem_sentIn.mp member
      exact opened.small topic record inside
    · intro topic id doc held
      obtain ⟨record, member, spelled, content⟩ := (opened.exact_ topic id doc).mp held
      exact ⟨⟨record, .durable⟩, mem_sentIn.mpr ⟨record, member, rfl⟩, nofun, spelled, content, nowhere _ _⟩
    · intro topic seq entry there
      cases there
    · intro topic one member _
      obtain ⟨record, inside, rfl⟩ := mem_sentIn.mp member
      exact .inl ((opened.exact_ topic _ _).mpr ⟨record, inside, rfl, rfl⟩)
    · intro topic one member kind
      obtain ⟨record, inside, rfl⟩ := mem_sentIn.mp member
      cases kind
    · exact nofun
    · exact fun topic group seq was => (opened.mem_acked.mp was).2
    · intro topic group id doc held
      obtain ⟨seq, small, rfl, rfl⟩ := opened.acks topic group id doc held
      exact ⟨topic, group, seq, rfl, opened.mem_acked.mpr ⟨held, small⟩, rfl, rfl⟩
    · intro topic group seq was
      cases was
    · exact fun topic group seq was => .inl (opened.mem_acked.mp was).1
  · intro _
    refine ⟨rfl, ?_⟩
    intro topic state held
    cases held

end Opened

structure Recorded (docs : Docs) (stored : String → List MqRecord) (past : List (Event × Answer)) (handle : Handle) : Prop where
  inv : Inv (PublishedIn past) handle
  holding : Holding (sentIn stored past) (fun topic group seq => seq ∈ ackedIn docs past topic group)
    (fun topic seq => seq ∈ goneIn past topic) handle

variable {stored : String → List MqRecord} {past : List (Event × Answer)} {docs : Docs}

theorem known_of_ephemeral (topic : String) :
    ∀ one ∈ sentIn stored past topic, one.durability = .ephemeral → PublishedIn past topic one.record.seq := by
  intro one member kind
  rcases mem_append.mp member with before | since
  · obtain ⟨record, _, rfl⟩ := mem_map.mp before
    cases kind
  obtain ⟨entry, inside, same⟩ := mem_filterMap.mp since
  obtain ⟨event, answer⟩ := entry
  cases answer with
  | published name record durability =>
    dsimp only at same
    split at same
    · rename_i here
      subst here
      cases same
      exact ⟨event, record, durability, inside, rfl⟩
    · cases same
  | _ => cases same

theorem run_recorded (opened : Opened docs stored)
    {events : List Event} (undisturbed : Machine.Throughout (step serde) Undisturbed (.opened docs) events) :
    Recorded docs stored (trace (step serde) (.opened docs) events)
      (run (step serde) (.opened docs) events) := by
  have preserved : ∀ (past : List (Event × Answer)) (handle : Handle) (event : Event), Recorded docs stored past handle →
      Undisturbed handle event →
      Recorded docs stored (past ++ [(event, (step serde handle event).2)]) (step serde handle event).1 := by
    intro past handle event recorded allowed
    refine ⟨step_published serde recorded.inv allowed.permitted, ?_⟩
    have kept := step_keeps serde recorded.inv recorded.holding known_of_ephemeral allowed
    rw [sentIn_snoc, mem_ackedIn_snoc, mem_goneIn_snoc]
    exact kept
  exact history_throughout preserved ⟨opened_inv opened.clean, opened.holding⟩ undisturbed

/-- No acknowledgement of the run is of another pair with the same joined name. -/
def NamesApart (past : List (Event × Answer)) (topic group : String) : Prop :=
  ∀ event other member seq removed, (event, Answer.acked other member seq removed) ∈ past →
    mqAckCollection other member = mqAckCollection topic group → other = topic ∧ member = group

theorem apart_of_names (names : NamesApart past topic group) :
    Contents.Apart (fun topic group seq => seq ∈ ackedIn docs past topic group) topic group := by
  intro other member seq same was
  rcases mem_append.mp was with before | since
  · refine mem_append_left _ ?_
    unfold ackedSeqs at before ⊢
    rwa [same] at before
  obtain ⟨entry, inside, taken⟩ := mem_filterMap.mp since
  obtain ⟨event, answer⟩ := entry
  cases answer with
  | acked name who n removed =>
    dsimp only at taken
    split at taken
    · rename_i here
      obtain ⟨rfl, rfl⟩ := here
      cases taken
      obtain ⟨rfl, rfl⟩ := names event _ _ _ removed inside same
      exact was
    · cases taken
  | _ => cases taken

def polled (docs : Docs) (stored : String → List MqRecord) (past : List (Event × Answer)) (topic group : String) (limit : Nat) :
    List MqRecord :=
  (Contents.unread (sentIn stored past topic) (ackedIn docs past topic group).contains (goneIn past topic).contains).take limit

theorem Recorded.poll
    (recorded : Recorded docs stored past handle) (names : NamesApart past topic group) (limit : Nat) :
    handle.pollMqGroup topic group limit =
      if handle.busy then .error mqBusy else .ok (polled docs stored past topic group limit) := by
  have unused := recorded.holding.unused
  split
  · rename_i busy
    unfold pollMqGroup
    rw [if_neg, if_pos busy]
    intro never
    have none := (unused (Bool.not_eq_true _ ▸ never)).1
    rw [Handle.busy, none] at busy
    cases busy
  · rename_i idle
    have quiet : handle.busy = false := Bool.not_eq_true _ ▸ idle
    apply poll_ok (recorded.holding.idle quiet) (apart_of_names names) ?_ ?_ quiet ?_
    · exact fun seq => contains_iff_mem
    · exact fun seq => contains_iff_mem
    intro never
    unfold Contents.memoryOf
    cases held : handle.runtime.topics[topic]? with
    | none => rfl
    | some state =>
      obtain ⟨floor, rfl⟩ := (unused never).2 topic state held
      rfl

def Quiet (past : List (Event × Answer)) : Prop :=
  ∀ entry ∈ past, (∀ topic record durability, entry.2 ≠ .published topic record durability) ∧
    ∀ topic group seq removed, entry.2 ≠ .acked topic group seq removed

variable {later : List (Event × Answer)}

theorem polled_quiet (quiet : Quiet later)
    (topic group : String) (limit : Nat) :
    polled docs stored (past ++ later) topic group limit = polled docs stored past topic group limit := by
  have nothing : ∀ {β : Type} (read : Event × Answer → Option β), (∀ event error, read (event, .refused error) = none) →
      (∀ event, read (event, .done) = none) → later.filterMap read = [] := by
    intro β read refused done
    rw [filterMap_eq_nil_iff]
    intro entry member
    obtain ⟨event, answer⟩ := entry
    obtain ⟨unpublished, unacked⟩ := quiet _ member
    cases answer with
    | published name record durability => exact absurd rfl (unpublished name record durability)
    | acked name who seq removed => exact absurd rfl (unacked name who seq removed)
    | refused error => exact refused event error
    | done => exact done event
  unfold polled sentIn ackedIn goneIn
  simp only [filterMap_append]
  rw [nothing _ (fun _ _ => rfl) (fun _ => rfl), nothing _ (fun _ _ => rfl) (fun _ => rfl),
    nothing _ (fun _ _ => rfl) (fun _ => rfl)]
  simp only [append_nil]

theorem NamesApart.quiet {past : List (Event × Answer)} (names : NamesApart past topic group)
    (quiet : Quiet later) : NamesApart (past ++ later) topic group := by
  intro event other member seq removed inside
  rcases mem_append.mp inside with before | since
  · exact names event other member seq removed before
  · exact absurd rfl ((quiet _ since).2 other member seq removed)

/-- In every run of the queue, a poll returns the first `limit` messages by sequence of those that
were sent to the topic, less those its group acknowledged and the Ephemeral ones that were taken, and
is refused while a spill is under way. Flushes, maintenance and spills change nothing in it. -/
theorem poll_independent_of_tier (serde : SerdeJson) {docs : Docs} {stored : String → List MqRecord}
    (opened : Opened docs stored) {events : List Event}
    (undisturbed : Machine.Throughout (step serde) Undisturbed (.opened docs) events) {topic group : String}
    (names : NamesApart (trace (step serde) (.opened docs) events) topic group) (limit : Nat) :
    (run (step serde) (.opened docs) events).pollMqGroup topic group limit =
        (if (run (step serde) (.opened docs) events).busy then .error mqBusy
        else .ok (polled docs stored (trace (step serde) (.opened docs) events) topic group limit)) ∧
      ∀ later, Machine.Throughout (step serde) Undisturbed (run (step serde) (.opened docs) events) later →
        Quiet (trace (step serde) (run (step serde) (.opened docs) events) later) →
        (run (step serde) (.opened docs) events).busy = false →
        (run (step serde) (.opened docs) (events ++ later)).busy = false →
        (run (step serde) (.opened docs) (events ++ later)).pollMqGroup topic group limit =
          (run (step serde) (.opened docs) events).pollMqGroup topic group limit := by
  have now := (run_recorded opened undisturbed).poll names limit
  refine ⟨now, ?_⟩
  intro later more quiet idle settled
  have after := run_recorded opened (Machine.Throughout.append.mpr ⟨undisturbed, more⟩)
  rw [trace_append] at after
  rw [after.poll (names.quiet quiet), now, polled_quiet quiet, idle, settled]

theorem opened_empty : Opened empty fun _ => [] where
  exact_ := by
    intro topic id doc
    constructor
    · exact nofun
    · rintro ⟨_, member, _⟩
      cases member
  ordered := fun _ => List.Pairwise.nil
  small := nofun
  covered := nofun
  acks := nofun

def Sample.events : List Event :=
  [publish quiet .durable, publish ample .adaptive, .ack "orders" "billing" 1 (.ok ()),
    .flush ample none, .persist (.ok ()), .finish]

theorem poll_independent_of_tier_sample :
    (run (step Sample.serde) (.opened empty) events).pollMqGroup "orders" "billing" 10 =
      .ok [⟨2, "k", Value.null⟩] := by
  have undisturbed : Machine.Throughout (step Sample.serde) Undisturbed (.opened empty) events :=
    ⟨fun _ _ => rfl, nofun, trivial, trivial, trivial, trivial, trivial⟩
  have names : NamesApart (trace (step Sample.serde) (.opened empty) events) "orders" "billing" := by
    have answers : (trace (step Sample.serde) (.opened empty) events).map Prod.snd =
        [.published "orders" ⟨1, "k", Value.null⟩ .durable, .published "orders" ⟨2, "k", Value.null⟩ .adaptive,
          .acked "orders" "billing" 1 false, .done, .done, .done] := rfl
    intro event other member seq removed inside _
    have known := mem_map_of_mem (f := Prod.snd) inside
    rw [answers] at known
    simp at known
    exact ⟨known.1, known.2.1⟩
  exact (poll_independent_of_tier Sample.serde opened_empty undisturbed names 10).1

/-- An Ephemeral message is returned too, until an acknowledgement takes it. -/
theorem poll_returns_ephemeral_message :
    (trace (step Sample.serde) (.opened empty) [publish ample .ephemeral]).map Prod.snd =
        [.published "orders" ⟨1, "k", Value.null⟩ .ephemeral] ∧
      (run (step Sample.serde) (.opened empty) [publish ample .ephemeral]).pollMqGroup
        "orders" "billing" 10 = .ok [⟨1, "k", Value.null⟩] := by
  have undisturbed : Machine.Throughout (step Sample.serde) Undisturbed (.opened empty)
      [publish ample .ephemeral] := ⟨nofun, trivial⟩
  have names : NamesApart (trace (step Sample.serde) (.opened empty)
      [publish ample .ephemeral]) "orders" "billing" := by
    intro event other member seq removed inside
    cases mem_singleton.mp inside
  exact ⟨rfl, (run_recorded opened_empty undisturbed).poll names 10⟩

end FerroLoop.Queue

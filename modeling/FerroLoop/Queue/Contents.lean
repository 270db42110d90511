import FerroLoop.Lib.Sorted
import FerroLoop.Queue.NeverReused

namespace FerroLoop.Queue

open Store Checked Map Option

structure Sent where
  record : MqRecord
  durability : MqDurability

section

variable (topics : BTreeMap String Topic)

def messageAt (topic : String) (seq : Nat) : Option Buffered :=
  (topics[topic]?).bind fun state => state.messages[seq]?

def ackedAt (topic group : String) (seq : Nat) : Bool :=
  (topics[topic]?).any fun state => state.ackedBy group seq

/-- What was sent to each topic, in order, what each group acknowledged, and which Ephemeral messages
an acknowledgement took, against the documents and the buffer. -/
structure Contents (sent : String → List Sent) (acked : String → String → Nat → Prop) (gone : String → Nat → Prop)
    (docs : Docs) (topics : BTreeMap String Topic) : Prop where
  ordered : ∀ topic, (sent topic).Pairwise fun a b => a.record.seq < b.record.seq
  small : ∀ topic, ∀ one ∈ sent topic, one.record.seq < u64Max
  disk : ∀ topic id doc, docs.get (mqMessageCollection topic) id = some doc →
    ∃ one ∈ sent topic, one.durability ≠ .ephemeral ∧ id = toString one.record.seq ∧ doc = messageDoc one.record ∧
      messageAt topics topic one.record.seq = none
  memory : ∀ topic seq entry, messageAt topics topic seq = some entry →
    ⟨entry.record, entry.durability⟩ ∈ sent topic ∧ entry.record.seq = seq
  kept : ∀ topic, ∀ one ∈ sent topic, one.durability ≠ .ephemeral →
    docs.get (mqMessageCollection topic) (toString one.record.seq) = some (messageDoc one.record) ∨
      (messageAt topics topic one.record.seq).isSome
  ephemeral : ∀ topic, ∀ one ∈ sent topic, one.durability = .ephemeral →
    ((messageAt topics topic one.record.seq).isSome ↔ ¬ gone topic one.record.seq)
  taken : ∀ topic seq, gone topic seq → ∃ one ∈ sent topic, one.record.seq = seq
  ackSmall : ∀ topic group seq, acked topic group seq → seq < u64Max
  ackDisk : ∀ topic group id doc, docs.get (mqAckCollection topic group) id = some doc →
    ∃ other member seq, mqAckCollection other member = mqAckCollection topic group ∧ acked other member seq ∧
      id = toString seq ∧ doc = seqDoc seq
  ackMemory : ∀ topic group seq, ackedAt topics topic group seq = true →
    acked topic group seq ∧ docs.get (mqMessageCollection topic) (toString seq) = none
  ackKept : ∀ topic group seq, acked topic group seq →
    docs.get (mqAckCollection topic group) (toString seq) = some (seqDoc seq) ∨ ackedAt topics topic group seq = true

def extend (sent : String → List Sent) (topic : String) (one : Sent) : String → List Sent :=
  fun other => sent other ++ if other = topic then [one] else []

variable {topic : String} {sent : String → List Sent} {one : Sent}

theorem mem_extend {other : String} {found : Sent} :
    found ∈ extend sent topic one other ↔ found ∈ sent other ∨ other = topic ∧ found = one := by
  unfold extend
  split
  · rename_i same
    simp [same]
  · rename_i differ
    simp [differ]

theorem extend_ordered
    (ordered : ∀ topic, (sent topic).Pairwise fun a b => a.record.seq < b.record.seq)
    (above : ∀ found ∈ sent topic, found.record.seq < one.record.seq) (other : String) :
    (extend sent topic one other).Pairwise fun a b => a.record.seq < b.record.seq := by
  unfold extend
  split
  · rename_i same
    subst same
    refine List.pairwise_append.mpr ⟨ordered other, List.pairwise_singleton _ _, ?_⟩
    intro a before b now
    rw [List.mem_singleton.mp now]
    exact above a before
  · rw [List.append_nil]
    exact ordered other

def alsoAcked (acked : String → String → Nat → Prop) (topic group : String) (seq : Nat) : String → String → Nat → Prop :=
  fun other member n => acked other member n ∨ other = topic ∧ member = group ∧ n = seq

def alsoGone (gone : String → Nat → Prop) (topic : String) (seq : Nat) (removed : Bool) : String → Nat → Prop :=
  fun other n => gone other n ∨ removed = true ∧ other = topic ∧ n = seq

variable {state : Topic}

theorem messageAt_held {topics : BTreeMap String Topic} (held : topics[topic]? = some state)
    (seq : Nat) : messageAt topics topic seq = state.messages[seq]? := by
  rw [messageAt, held]
  rfl

theorem messageAt_insert (topic other : String) (state : Topic) (seq : Nat) :
    messageAt (topics.insert topic state) other seq =
      if topic = other then state.messages[seq]? else messageAt topics other seq := by
  unfold messageAt
  rw [getElem?_insert]
  split <;> rfl

theorem ackedAt_insert (topic other group : String) (state : Topic) (seq : Nat) :
    ackedAt (topics.insert topic state) other group seq =
      if topic = other then state.ackedBy group seq else ackedAt topics other group seq := by
  unfold ackedAt
  rw [getElem?_insert]
  split <;> rfl

end

variable {topic : String}

namespace Contents

variable {sent : String → List Sent} {acked : String → String → Nat → Prop} {gone : String → Nat → Prop} {docs : Docs}
  {topics : BTreeMap String Topic}

theorem unique (contents : Contents sent acked gone docs topics) {a b : Sent} (first : a ∈ sent topic)
    (second : b ∈ sent topic) (same : a.record.seq = b.record.seq) : a = b := by
  rcases Sorted.trichotomy (contents.ordered topic) first second with equal | less | more
  · exact equal
  · omega
  · omega

theorem congr (contents : Contents sent acked gone docs topics) {docs' : Docs} {topics' : BTreeMap String Topic}
    (messages : ∀ topic id, docs'.get (mqMessageCollection topic) id = docs.get (mqMessageCollection topic) id)
    (acks : ∀ topic group id, docs'.get (mqAckCollection topic group) id = docs.get (mqAckCollection topic group) id)
    (buffer : ∀ topic seq, messageAt topics' topic seq = messageAt topics topic seq)
    (ackBuffer : ∀ topic group seq, ackedAt topics' topic group seq = ackedAt topics topic group seq) :
    Contents sent acked gone docs' topics' := by
  constructor
  · exact contents.ordered
  · exact contents.small
  · intro topic id doc held
    rw [messages] at held
    simp only [buffer]
    exact contents.disk topic id doc held
  · intro topic seq entry held
    rw [buffer] at held
    exact contents.memory topic seq entry held
  · intro topic one member kind
    rw [messages, buffer]
    exact contents.kept topic one member kind
  · intro topic one member kind
    rw [buffer]
    exact contents.ephemeral topic one member kind
  · exact contents.taken
  · exact contents.ackSmall
  · intro topic group id doc held
    rw [acks] at held
    exact contents.ackDisk topic group id doc held
  · intro topic group seq held
    rw [ackBuffer] at held
    rw [messages]
    exact contents.ackMemory topic group seq held
  · intro topic group seq was
    rw [acks, ackBuffer]
    exact contents.ackKept topic group seq was

variable {entry : Buffered} {seq : Nat}

theorem vacant (contents : Contents sent acked gone docs topics)
    (buffered : messageAt topics topic seq = some entry) : docs.get (mqMessageCollection topic) (toString seq) = none := by
  rcases held : docs.get (mqMessageCollection topic) (toString seq) with _ | doc
  · rfl
  obtain ⟨one, _, _, spelled, _, absent⟩ := contents.disk topic _ doc held
  rw [← toString_injective spelled, buffered] at absent
  cases absent

theorem hold (contents : Contents sent acked gone docs topics)
    (held : topics[topic]? = some state) (above : ∀ found ∈ sent topic, found.record.seq < entry.record.seq)
    (small : entry.record.seq < u64Max) :
    Contents (extend sent topic ⟨entry.record, entry.durability⟩) acked gone docs (topics.insert topic (state.hold entry)) := by
  have buffer : ∀ other seq, messageAt (topics.insert topic (state.hold entry)) other seq =
      if topic = other ∧ entry.record.seq = seq then some entry else messageAt topics other seq := by
    intro other seq
    rw [messageAt_insert, Topic.hold]
    by_cases same : topic = other
    · subst same
      simp only [↓reduceIte, true_and, getElem?_insert, messageAt_held held]
    · simp only [same, ↓reduceIte, false_and]
  have acks : ∀ other group seq, ackedAt (topics.insert topic (state.hold entry)) other group seq =
      ackedAt topics other group seq := by
    intro other group seq
    rw [ackedAt_insert]
    split
    · rename_i same
      subst same
      rw [ackedAt, held]
      rfl
    · rfl
  have below : ∀ other, ∀ one ∈ sent other, ¬ (topic = other ∧ entry.record.seq = one.record.seq) := by
    rintro other one member ⟨rfl, same⟩
    have less := above one member
    omega
  constructor
  · exact extend_ordered contents.ordered above
  · intro other one member
    rcases mem_extend.mp member with old | ⟨_, rfl⟩
    · exact contents.small other one old
    · exact small
  · intro other id doc found
    obtain ⟨one, member, kind, spelled, content, absent⟩ := contents.disk other id doc found
    refine ⟨one, mem_extend.mpr (.inl member), kind, spelled, content, ?_⟩
    rw [buffer, if_neg (below other one member)]
    exact absent
  · intro other seq found there
    rw [buffer] at there
    split at there
    · rename_i same
      cases there
      exact ⟨mem_extend.mpr (.inr ⟨same.1.symm, rfl⟩), same.2⟩
    · obtain ⟨member, keyed⟩ := contents.memory other seq found there
      exact ⟨mem_extend.mpr (.inl member), keyed⟩
  · intro other one member kind
    rw [buffer]
    rcases mem_extend.mp member with old | ⟨rfl, rfl⟩
    · rw [if_neg (below other one old)]
      exact contents.kept other one old kind
    · rw [if_pos ⟨rfl, rfl⟩]
      exact .inr rfl
  · intro other one member kind
    rw [buffer]
    rcases mem_extend.mp member with old | ⟨rfl, rfl⟩
    · rw [if_neg (below other one old)]
      exact contents.ephemeral other one old kind
    rw [if_pos ⟨rfl, rfl⟩]
    refine ⟨fun _ was => ?_, fun _ => rfl⟩
    obtain ⟨old, before, same⟩ := contents.taken other _ was
    have less := above old before
    dsimp only at same
    omega
  · intro other seq was
    obtain ⟨one, member, same⟩ := contents.taken other seq was
    exact ⟨one, mem_extend.mpr (.inl member), same⟩
  · exact contents.ackSmall
  · exact contents.ackDisk
  · intro other group seq found
    rw [acks] at found
    exact contents.ackMemory other group seq found
  · intro other group seq was
    rw [acks]
    exact contents.ackKept other group seq was

theorem ackedAt_absent (absent : topics[topic]? = none) (group : String) (seq : Nat) :
    ackedAt topics topic group seq = false := by
  rw [ackedAt, absent]
  rfl

theorem get_storeMessage_ack (docs : Docs) (topic other group id : String) (record : MqRecord) :
    (storeMessage docs topic record).get (mqAckCollection other group) id = docs.get (mqAckCollection other group) id := by
  unfold storeMessage putHighWater putMessage
  rw [Docs.get_insert, if_neg, Docs.get_insert, if_neg]
  · exact fun same => message_ne_ack topic other group (Prod.mk.inj same).1
  · exact fun same => hw_ne_ack topic other group (Prod.mk.inj same).1

theorem direct (contents : Contents sent acked gone docs topics) {record : MqRecord}
    (absent : topics[topic]? = none) (above : ∀ found ∈ sent topic, found.record.seq < record.seq) (small : record.seq < u64Max) :
    Contents (extend sent topic ⟨record, .durable⟩) acked gone (storeMessage docs topic record) topics := by
  have nowhere : ∀ seq, messageAt topics topic seq = none := by
    intro seq
    rw [messageAt, absent]
    rfl
  have below : ∀ other, ∀ one ∈ sent other, ¬ (topic = other ∧ toString record.seq = toString one.record.seq) := by
    rintro other one member ⟨rfl, same⟩
    have less := above one member
    have equal := toString_injective same
    omega
  constructor
  · exact extend_ordered contents.ordered above
  · intro other one member
    rcases mem_extend.mp member with old | ⟨_, rfl⟩
    · exact contents.small other one old
    · exact small
  · intro other id doc found
    rw [get_storeMessage_message] at found
    split at found
    · rename_i same
      obtain ⟨rfl, rfl⟩ := same
      cases found
      exact ⟨_, mem_extend.mpr (.inr ⟨rfl, rfl⟩), nofun, rfl, rfl, nowhere _⟩
    · obtain ⟨one, member, rest⟩ := contents.disk other id doc found
      exact ⟨one, mem_extend.mpr (.inl member), rest⟩
  · intro other seq found there
    obtain ⟨member, keyed⟩ := contents.memory other seq found there
    exact ⟨mem_extend.mpr (.inl member), keyed⟩
  · intro other one member kind
    rw [get_storeMessage_message]
    rcases mem_extend.mp member with old | ⟨rfl, rfl⟩
    · rw [if_neg (below other one old)]
      exact contents.kept other one old kind
    · rw [if_pos ⟨rfl, rfl⟩]
      exact .inl rfl
  · intro other one member kind
    rcases mem_extend.mp member with old | ⟨rfl, rfl⟩
    · exact contents.ephemeral other one old kind
    · cases kind
  · intro other seq was
    obtain ⟨one, member, same⟩ := contents.taken other seq was
    exact ⟨one, mem_extend.mpr (.inl member), same⟩
  · exact contents.ackSmall
  · intro other group id doc found
    rw [get_storeMessage_ack] at found
    exact contents.ackDisk other group id doc found
  · intro other group seq found
    have differ : topic ≠ other := by
      intro same
      subst same
      rw [ackedAt_absent absent] at found
      cases found
    rw [get_storeMessage_message, if_neg (fun same => differ same.1)]
    exact contents.ackMemory other group seq found
  · intro other group seq was
    rw [get_storeMessage_ack]
    exact contents.ackKept other group seq was

variable {group : String}

theorem putAck (contents : Contents sent acked gone docs topics) (small : seq < u64Max) :
    Contents sent (alsoAcked acked topic group seq) gone (putAck docs topic group seq) topics := by
  have messages : ∀ other id, (Queue.putAck docs topic group seq).get (mqMessageCollection other) id =
      docs.get (mqMessageCollection other) id := by
    intro other id
    rw [Queue.putAck, Docs.get_insert, if_neg]
    exact fun same => message_ne_ack other topic group (Prod.mk.inj same).1.symm
  constructor
  · exact contents.ordered
  · exact contents.small
  · intro other id doc found
    rw [messages] at found
    exact contents.disk other id doc found
  · exact contents.memory
  · intro other one member kind
    rw [messages]
    exact contents.kept other one member kind
  · exact contents.ephemeral
  · exact contents.taken
  · rintro other member n (old | ⟨_, _, rfl⟩)
    · exact contents.ackSmall other member n old
    · exact small
  · intro other member id doc found
    rw [Queue.putAck, Docs.get_insert] at found
    split at found
    · rename_i same
      obtain ⟨collection, spelled⟩ := Prod.mk.inj same
      cases found
      exact ⟨topic, group, seq, collection, .inr ⟨rfl, rfl, rfl⟩, spelled.symm, rfl⟩
    · obtain ⟨first, second, n, same, was, rest⟩ := contents.ackDisk other member id doc found
      exact ⟨first, second, n, same, .inl was, rest⟩
  · intro other member n found
    rw [messages]
    obtain ⟨was, absent⟩ := contents.ackMemory other member n found
    exact ⟨.inl was, absent⟩
  · rintro other member n was
    rw [Queue.putAck, Docs.get_insert]
    split
    · rename_i same
      rw [toString_injective (Prod.mk.inj same).2]
      exact .inl rfl
    rename_i elsewhere
    rcases was with old | ⟨rfl, rfl, rfl⟩
    · exact contents.ackKept other member n old
    · exact absurd rfl elsewhere

theorem ackedBy_acknowledge (state : Topic) (group other : String) (seq n : Nat) (entry : Buffered) (newAck removed : Bool) :
    (state.acknowledge group seq entry newAck removed).ackedBy other n = true ↔
      state.ackedBy other n = true ∨ other = group ∧ n = seq := by
  unfold Topic.acknowledge Topic.ackedBy
  rw [getElem?_insert]
  by_cases same : group = other
  · subst same
    have turned : seq = n ↔ n = seq := eq_comm
    cases state.acks[group]? with
    | none => simp [Std.ExtTreeSet.contains_insert, turned]
    | some acks => simp [Std.ExtTreeSet.contains_insert, turned, or_comm]
  · simp [same, Ne.symm same]

theorem messages_acknowledge (state : Topic) (group : String) (seq : Nat) (entry : Buffered) (newAck removed : Bool) (n : Nat) :
    (state.acknowledge group seq entry newAck removed).messages[n]? =
      if removed = true ∧ seq = n then none else state.messages[n]? := by
  unfold Topic.acknowledge
  cases removed with
  | false => simp
  | true => simp only [↓reduceIte, getElem?_erase, true_and]

theorem acknowledge (contents : Contents sent acked gone docs topics)
    {newAck removed : Bool} (held : topics[topic]? = some state)
    (there : state.messages[seq]? = some entry) (kind : removed = true → entry.durability = .ephemeral) :
    Contents sent (alsoAcked acked topic group seq) (alsoGone gone topic seq removed) docs
      (topics.insert topic (state.acknowledge group seq entry newAck removed)) := by
  have buffered : messageAt topics topic seq = some entry := (messageAt_held held seq).trans there
  obtain ⟨own, keyed⟩ := contents.memory topic seq entry buffered
  have buffer : ∀ other n, messageAt (topics.insert topic (state.acknowledge group seq entry newAck removed)) other n =
      if removed = true ∧ topic = other ∧ seq = n then none else messageAt topics other n := by
    intro other n
    rw [messageAt_insert, messages_acknowledge]
    by_cases same : topic = other
    · subst same
      simp only [↓reduceIte, true_and, messageAt_held held]
    · simp only [same, ↓reduceIte, false_and, and_false]
  have acks : ∀ other member n,
      ackedAt (topics.insert topic (state.acknowledge group seq entry newAck removed)) other member n = true ↔
        ackedAt topics other member n = true ∨ other = topic ∧ member = group ∧ n = seq := by
    intro other member n
    rw [ackedAt_insert]
    by_cases same : topic = other
    · subst same
      rw [if_pos rfl, ackedBy_acknowledge, ackedAt, held]
      simp
    · rw [if_neg same]
      simp [Ne.symm same]
  -- Only an Ephemeral message is taken.
  have spared : ∀ other, ∀ one ∈ sent other, one.durability ≠ .ephemeral →
      ¬ (removed = true ∧ topic = other ∧ seq = one.record.seq) := by
    rintro other one member durable ⟨took, rfl, same⟩
    have equal := contents.unique own member (keyed.trans same)
    apply durable
    rw [← equal]
    exact kind took
  constructor
  · exact contents.ordered
  · exact contents.small
  · intro other id doc found
    obtain ⟨one, member, durable, spelled, content, absent⟩ := contents.disk other id doc found
    refine ⟨one, member, durable, spelled, content, ?_⟩
    rw [buffer, if_neg (spared other one member durable)]
    exact absent
  · intro other n found here
    rw [buffer] at here
    split at here
    · cases here
    · exact contents.memory other n found here
  · intro other one member durable
    rw [buffer, if_neg (spared other one member durable)]
    exact contents.kept other one member durable
  · intro other one member ephemeral
    rw [buffer]
    have before := contents.ephemeral other one member ephemeral
    split
    · rename_i took
      obtain ⟨took, rfl, same⟩ := took
      simp only [isSome_none, Bool.false_eq_true, false_iff, not_not]
      exact .inr ⟨took, rfl, same.symm⟩
    · rename_i stays
      rw [before]
      constructor
      · rintro was (old | ⟨took, same, equal⟩)
        · exact was old
        · exact stays ⟨took, same.symm, equal.symm⟩
      · exact fun still old => still (.inl old)
  · rintro other n (old | ⟨_, rfl, rfl⟩)
    · exact contents.taken other n old
    · exact ⟨_, own, keyed⟩
  · rintro other member n (old | ⟨_, _, rfl⟩)
    · exact contents.ackSmall other member n old
    · rw [← keyed]
      exact contents.small topic _ own
  · intro other member id doc found
    obtain ⟨first, second, n, same, was, rest⟩ := contents.ackDisk other member id doc found
    exact ⟨first, second, n, same, .inl was, rest⟩
  · intro other member n found
    rcases (acks other member n).mp found with old | ⟨rfl, rfl, rfl⟩
    · obtain ⟨was, absent⟩ := contents.ackMemory other member n old
      exact ⟨.inl was, absent⟩
    · exact ⟨.inr ⟨rfl, rfl, rfl⟩, contents.vacant buffered⟩
  · intro other member n was
    rw [acks]
    rcases was with old | now
    · rcases contents.ackKept other member n old with document | memory
      · exact .inl document
      · exact .inr (.inl memory)
    · exact .inr (.inr now)

end Contents

def sentAfter (sent : String → List Sent) : Answer → String → List Sent
  | .published topic record durability => extend sent topic ⟨record, durability⟩
  | _ => sent

def ackedAfter (acked : String → String → Nat → Prop) : Answer → String → String → Nat → Prop
  | .acked topic group seq _ => alsoAcked acked topic group seq
  | _ => acked

def goneAfter (gone : String → Nat → Prop) : Answer → String → Nat → Prop
  | .acked topic _ seq removed => alsoGone gone topic seq removed
  | _ => gone

namespace Task

variable {task : Task} {mq : Runtime}

theorem settle_result (planned : task.Planned mq.topics) {candidate : Candidate} (offered : task.candidate = some candidate)
    (held : mq.topics[candidate.topic]? = some state) :
    (task.settle mq).2 =
      (candidate.settle ((task.snapshotOf candidate.topic).elim state state.finalize)).2 := by
  have finalized := finalizeSnapshots_topics planned.distinct mq candidate.topic
  rw [held] at finalized
  simp only [settle, offered, settleCandidate, finalized, map_some]

theorem answer_cases (planned : task.Planned mq.topics) :
    (∃ candidate, task.candidate = some candidate ∧
        task.answer mq = .published candidate.topic candidate.record candidate.durability ∧ (task.settle mq).2 = .ok ()) ∨
      (∀ topic record durability, task.answer mq ≠ .published topic record durability) ∧
        ∀ candidate, task.candidate = some candidate → candidate.durability = .ephemeral ∧ (task.settle mq).2 ≠ .ok () := by
  cases offered : task.candidate with
  | none =>
    refine .inr ⟨?_, nofun⟩
    intro topic record durability
    simp only [answer, offered]
    exact nofun
  | some candidate =>
    obtain ⟨state, held, _⟩ := (planned.offers candidate offered).fresh
    have result := settle_result planned offered held
    rcases candidate.settle_cases ((task.snapshotOf candidate.topic).elim state state.finalize) with
      ⟨_, same⟩ | ⟨entry, some, same⟩ | ⟨_, _, _, same⟩
    · rw [same] at result
      exact .inl ⟨candidate, rfl, by simp only [answer, offered, result], result⟩
    · rw [same] at result
      refine .inr ⟨?_, ?_⟩
      · intro topic record durability
        simp only [answer, offered, result]
        exact nofun
      · intro found same
        cases same
        refine ⟨(planned.offers candidate offered).ephemeral.mpr (by rw [some]; rfl), ?_⟩
        rw [result]
        exact nofun
    · rw [same] at result
      exact .inl ⟨candidate, rfl, by simp only [answer, offered, result], result⟩

end Task

namespace Contents

variable {sent : String → List Sent} {acked : String → String → Nat → Prop} {gone : String → Nat → Prop} {docs : Docs}
  {mq : Runtime} {task : Task}

structure Sends (task : Task) (mq : Runtime) (sent after : String → List Sent) : Prop where
  before : ∀ topic, ∀ one ∈ sent topic, one ∈ after topic
  now : ∀ topic, ∀ one ∈ after topic, one ∈ sent topic ∨
    ∃ candidate, task.candidate = some candidate ∧ candidate.topic = topic ∧ one = ⟨candidate.record, candidate.durability⟩ ∧
      (task.settle mq).2 = .ok ()
  durable : ∀ candidate, task.candidate = some candidate →
    candidate.durability ≠ .ephemeral ∨ (task.settle mq).2 = .ok () →
    ⟨candidate.record, candidate.durability⟩ ∈ after candidate.topic
  ordered : ∀ topic, (after topic).Pairwise fun a b => a.record.seq < b.record.seq

theorem sends (contents : Contents sent acked gone docs mq.topics) (planned : task.Planned mq.topics)
    (above : ∀ candidate, task.candidate = some candidate →
      ∀ one ∈ sent candidate.topic, one.record.seq < candidate.record.seq) :
    Sends task mq sent (sentAfter sent (task.answer mq)) := by
  rcases Task.answer_cases planned with ⟨candidate, offered, same, ok⟩ | ⟨quiet, failed⟩
  · rw [same]
    refine ⟨?_, ?_, ?_, extend_ordered contents.ordered (above candidate offered)⟩
    · exact fun topic one member => mem_extend.mpr (.inl member)
    · intro topic one member
      rcases mem_extend.mp member with old | ⟨rfl, rfl⟩
      · exact .inl old
      · exact .inr ⟨candidate, offered, rfl, rfl, ok⟩
    · intro found here _
      rw [offered] at here
      cases here
      exact mem_extend.mpr (.inr ⟨rfl, rfl⟩)
  · have still : sentAfter sent (task.answer mq) = sent := by
      unfold sentAfter
      split
      · rename_i topic record durability published
        exact absurd published (quiet topic record durability)
      · rfl
    rw [still]
    refine ⟨fun _ _ member => member, fun _ _ member => .inl member, ?_, contents.ordered⟩
    intro candidate offered kind
    obtain ⟨ephemeral, bad⟩ := failed candidate offered
    rcases kind with other | ok
    · exact absurd ephemeral other
    · exact absurd ok bad

variable {settled : BTreeMap String Topic}

theorem messageAt_settled (planned : task.Planned mq.topics)
    (sane : ∀ (name : String) (state : Topic), mq.topics[name]? = some state → state.Sane)
    (each : ∀ name, settled[name]? = (mq.topics[name]?).map (task.after name)) (topic : String) (seq : Nat) (entry : Buffered) :
    messageAt settled topic seq = some entry ↔
      messageAt mq.topics topic seq = some entry ∧ ¬ ((task.snapshotOf topic).isSome ∧ entry.durability = .adaptive) ∨
        ∃ candidate, task.candidate = some candidate ∧ candidate.topic = topic ∧ candidate.retained = some entry ∧
          (task.settle mq).2 = .ok () ∧ entry.record.seq = seq := by
  unfold messageAt
  rw [each]
  cases held : mq.topics[topic]? with
  | none =>
    simp only [map_none, bind_none, reduceCtorEq, false_and, false_or, false_iff]
    rintro ⟨candidate, offered, rfl, _⟩
    obtain ⟨state, there, _⟩ := (planned.offers candidate offered).fresh
    rw [held] at there
    cases there
  | some state =>
    simp only [map_some, bind_some]
    rw [Task.after_messages planned held (sane topic state held)]
    constructor
    · rintro (old | ⟨⟨candidate, offered, rfl, some, ok⟩, keyed⟩)
      · exact .inl old
      · exact .inr ⟨candidate, offered, rfl, some, (Task.settle_result planned offered held).trans ok, keyed⟩
    · rintro (old | ⟨candidate, offered, rfl, some, ok, keyed⟩)
      · exact .inl old
      · exact .inr ⟨⟨candidate, offered, rfl, some, (Task.settle_result planned offered held).symm.trans ok⟩, keyed⟩

theorem ackedAt_settled
    (each : ∀ name, settled[name]? = (mq.topics[name]?).map (task.after name)) (topic group : String) (seq : Nat) :
    ackedAt settled topic group seq = true ↔ task.snapshotOf topic = none ∧ ackedAt mq.topics topic group seq = true := by
  unfold ackedAt
  rw [each]
  rcases mq.topics[topic]? with _ | state
  · simp
  simp only [map_some, any_some, Topic.ackedBy, Task.after_acks]
  cases task.snapshotOf topic with
  | none => simp
  | some snapshot => simp

variable {after : String → List Sent}

section

variable (contents : Contents sent acked gone docs mq.topics) (planned : task.Planned mq.topics) (sends : Sends task mq sent after) (member : one ∈ after topic)

include contents planned sends member

theorem put_doc
    {put : Put} (listed : put ∈ taskPuts docs task) (place : put.At (mqMessageCollection topic) (toString one.record.seq)) :
    put.doc = messageDoc one.record := by
  obtain ⟨state, record, held, spelled, content, source⟩ := planned.message_source listed place
  have same : one.record.seq = record.seq := toString_injective spelled
  have known : ∃ durability, ⟨record, durability⟩ ∈ after topic := by
    rcases source with ⟨key, entry, there, _, equal, _⟩ | ⟨candidate, offered, mine, equal, kind⟩
    · have buffered : messageAt mq.topics topic key = some entry := (messageAt_held held key).trans there
      refine ⟨entry.durability, sends.before topic _ ?_⟩
      rw [← equal]
      exact (contents.memory topic key entry buffered).1
    · refine ⟨candidate.durability, ?_⟩
      rw [← equal, ← mine]
      exact sends.durable candidate offered (.inl kind)
  obtain ⟨durability, found⟩ := known
  rcases Sorted.trichotomy (sends.ordered topic) member found with equal | less | more
  · rw [content, equal]
  · dsimp only at less
    omega
  · dsimp only at more
    omega

theorem on_disk (listed : messagePut topic one.record ∈ taskPuts docs task) :
    (putAll docs (taskPuts docs task)).get (mqMessageCollection topic) (toString one.record.seq) =
      some (messageDoc one.record) := by
  rcases get_putAll docs (taskPuts docs task) (mqMessageCollection topic) (toString one.record.seq) with
    ⟨_, none⟩ | ⟨put, found, place, held⟩
  · exact absurd ⟨rfl, rfl⟩ (none _ listed)
  · rw [held, contents.put_doc planned sends member found place]

end

theorem not_message_or_hw (topic group : String) (other : String) :
    mqAckCollection topic group ≠ mqMessageCollection other ∧ mqAckCollection topic group ≠ mqHwCollection other :=
  ⟨fun same => message_ne_ack other topic group same.symm, fun same => hw_ne_ack other topic group same.symm⟩

theorem settle (contents : Contents sent acked gone docs mq.topics) (planned : task.Planned mq.topics)
    (sane : ∀ (name : String) (state : Topic), mq.topics[name]? = some state → state.Sane)
    (above : ∀ candidate, task.candidate = some candidate →
      ∀ one ∈ sent candidate.topic, one.record.seq < candidate.record.seq)
    (each : ∀ name, settled[name]? = (mq.topics[name]?).map (task.after name)) :
    Contents (sentAfter sent (task.answer mq)) acked gone (putAll docs (taskPuts docs task)) settled := by
  have sends := contents.sends planned above
  -- A message sent before does not have the candidate's sequence.
  have older : ∀ topic, ∀ one ∈ sent topic, ∀ candidate, task.candidate = some candidate → candidate.topic = topic →
      candidate.record.seq ≠ one.record.seq := by
    intro topic one member candidate offered mine same
    subst mine
    have less := above candidate offered one member
    omega
  have retained : ∀ candidate entry, task.candidate = some candidate → candidate.retained = some entry →
      entry.record = candidate.record ∧ entry.durability = .ephemeral ∧ candidate.durability = .ephemeral := by
    intro candidate entry offered some
    have offers := planned.offers candidate offered
    obtain ⟨record, kind⟩ := offers.retained entry some
    exact ⟨record, kind, offers.ephemeral.mpr (by rw [some]; rfl)⟩
  have settledAt := messageAt_settled planned sane each
  constructor
  · exact sends.ordered
  · intro topic one member
    rcases sends.now topic one member with old | ⟨candidate, offered, _, rfl, _⟩
    · exact contents.small topic one old
    · obtain ⟨_, _, _, small, _⟩ := (planned.offers candidate offered).fresh
      exact small
  · intro topic id doc held
    rcases get_putAll docs (taskPuts docs task) (mqMessageCollection topic) id with ⟨same, _⟩ | ⟨put, listed, place, found⟩
    · rw [same] at held
      obtain ⟨one, member, kind, spelled, content, absent⟩ := contents.disk topic id doc held
      refine ⟨one, sends.before topic one member, kind, spelled, content, ?_⟩
      apply eq_none_iff_forall_ne_some.mpr
      intro entry there
      rcases (settledAt topic _ entry).mp there with ⟨old, _⟩ | ⟨candidate, offered, mine, some, _, keyed⟩
      · rw [absent] at old
        cases old
      · rw [(retained candidate entry offered some).1] at keyed
        exact older topic one member candidate offered mine keyed
    · obtain ⟨state, record, here, spelled, content, source⟩ := planned.message_source listed place
      rw [found, content] at held
      cases held
      rcases source with ⟨key, entry, there, adaptive, equal, spilled⟩ | ⟨candidate, offered, mine, equal, kind⟩
      · have buffered : messageAt mq.topics topic key = some entry := (messageAt_held here key).trans there
        obtain ⟨member, keyed⟩ := contents.memory topic key entry buffered
        refine ⟨⟨entry.record, entry.durability⟩, sends.before topic _ member, by rw [adaptive]; nofun, ?_, ?_, ?_⟩
        · rw [spelled, equal]
        · rw [equal]
        apply eq_none_iff_forall_ne_some.mpr
        intro other after
        rcases (settledAt topic _ other).mp after with ⟨old, stays⟩ | ⟨candidate, offered, mine, some, _, same⟩
        · rw [keyed, buffered] at old
          cases old
          exact stays ⟨spilled, adaptive⟩
        · rw [(retained candidate other offered some).1] at same
          exact older topic _ member candidate offered mine same
      · refine ⟨⟨candidate.record, candidate.durability⟩, ?_, kind, ?_, ?_, ?_⟩
        · rw [← mine]
          exact sends.durable candidate offered (.inl kind)
        · rw [spelled, equal]
        · rw [equal]
        apply eq_none_iff_forall_ne_some.mpr
        intro other after
        rcases (settledAt topic _ other).mp after with ⟨old, _⟩ | ⟨again, offered', _, some, _, _⟩
        · obtain ⟨member, keyed⟩ := contents.memory topic _ other old
          exact older topic _ member candidate offered mine keyed.symm
        · rw [offered] at offered'
          cases offered'
          exact kind (retained candidate other offered some).2.2
  · intro topic seq entry there
    rcases (settledAt topic seq entry).mp there with ⟨old, _⟩ | ⟨candidate, offered, rfl, some, ok, keyed⟩
    · obtain ⟨member, keyed⟩ := contents.memory topic seq entry old
      exact ⟨sends.before topic _ member, keyed⟩
    obtain ⟨record, kind, same⟩ := retained candidate entry offered some
    refine ⟨?_, keyed⟩
    rw [record, kind, ← same]
    exact sends.durable candidate offered (.inr ok)
  · intro topic one member kind
    rcases sends.now topic one member with old | ⟨candidate, offered, rfl, rfl, _⟩
    · rcases contents.kept topic one old kind with document | buffered
      · left
        rcases get_putAll docs (taskPuts docs task) (mqMessageCollection topic) (toString one.record.seq) with
          ⟨same, _⟩ | ⟨put, listed, place, found⟩
        · rw [same]
          exact document
        · rw [found, contents.put_doc planned sends member listed place]
      · obtain ⟨entry, there⟩ := isSome_iff_exists.mp buffered
        obtain ⟨known, keyed⟩ := contents.memory topic _ entry there
        have equal := contents.unique old known keyed.symm
        by_cases spilled : (task.snapshotOf topic).isSome ∧ entry.durability = .adaptive
        · left
          apply contents.on_disk planned sends member
          obtain ⟨state, here, found⟩ := bind_eq_some_iff.mp there
          rw [equal]
          exact planned.puts_adaptive (sane topic state here) here spilled.1 found spilled.2
        · right
          rw [(settledAt topic _ entry).mpr (.inl ⟨there, spilled⟩)]
          rfl
    · left
      exact contents.on_disk planned sends member (planned.puts_candidate offered kind)
  · intro topic one member kind
    rcases sends.now topic one member with old | ⟨candidate, offered, rfl, rfl, ok⟩
    · rw [← contents.ephemeral topic one old kind]
      constructor
      · intro buffered
        obtain ⟨entry, there⟩ := isSome_iff_exists.mp buffered
        rcases (settledAt topic _ entry).mp there with ⟨before, _⟩ | ⟨candidate, offered, mine, some, _, keyed⟩
        · rw [before]
          rfl
        · rw [(retained candidate entry offered some).1] at keyed
          exact absurd keyed (older topic one old candidate offered mine)
      · intro buffered
        obtain ⟨entry, there⟩ := isSome_iff_exists.mp buffered
        obtain ⟨known, keyed⟩ := contents.memory topic _ entry there
        have equal := contents.unique old known keyed.symm
        have stays : ¬ ((task.snapshotOf topic).isSome ∧ entry.durability = .adaptive) := by
          rintro ⟨_, adaptive⟩
          rw [equal] at kind
          dsimp only at kind
          rw [adaptive] at kind
          cases kind
        rw [(settledAt topic _ entry).mpr (.inl ⟨there, stays⟩)]
        rfl
    · constructor
      · intro _ was
        obtain ⟨before, known, same⟩ := contents.taken candidate.topic _ was
        exact older _ before known candidate offered rfl same.symm
      · intro _
        obtain ⟨entry, some⟩ := isSome_iff_exists.mp ((planned.offers candidate offered).ephemeral.mp kind)
        have keyed : entry.record.seq = candidate.record.seq := by rw [(retained candidate entry offered some).1]
        rw [(settledAt candidate.topic _ entry).mpr (.inr ⟨candidate, offered, rfl, some, ok, keyed⟩)]
        rfl
  · intro topic seq was
    obtain ⟨one, member, same⟩ := contents.taken topic seq was
    exact ⟨one, sends.before topic one member, same⟩
  · exact contents.ackSmall
  · intro topic group id doc held
    rcases get_putAll docs (taskPuts docs task) (mqAckCollection topic group) id with ⟨same, _⟩ | ⟨put, listed, place, found⟩
    · rw [same] at held
      exact contents.ackDisk topic group id doc held
    obtain ⟨other, member, state, seq, here, was, collection, spelled, content⟩ :=
      planned.ack_source (not_message_or_hw topic group) listed place
    rw [found, content] at held
    cases held
    have before : ackedAt mq.topics other member seq = true := by
      rw [ackedAt, here]
      exact was
    exact ⟨other, member, seq, collection.symm, (contents.ackMemory other member seq before).1, spelled, rfl⟩
  · intro topic group seq found
    obtain ⟨untaken, before⟩ := (ackedAt_settled each topic group seq).mp found
    obtain ⟨was, absent⟩ := contents.ackMemory topic group seq before
    refine ⟨was, ?_⟩
    rcases get_putAll docs (taskPuts docs task) (mqMessageCollection topic) (toString seq) with ⟨same, _⟩ | ⟨put, listed, place, _⟩
    · rw [same]
      exact absent
    exfalso
    obtain ⟨state, record, here, _, _, source⟩ := planned.message_source listed place
    rcases source with ⟨_, _, _, _, _, spilled⟩ | ⟨candidate, offered, mine, _, _⟩
    · rw [untaken] at spilled
      cases spilled
    obtain ⟨state', there, _, _, quiet⟩ := (planned.offers candidate offered).fresh
    rw [mine, here] at there
    cases there
    rw [mine] at quiet
    have settled := quiet untaken
    rw [ackedAt, here] at before
    simp only [Topic.pending, Bool.or_eq_false_iff, Bool.not_eq_false', Std.ExtTreeMap.isEmpty_iff] at settled
    simp [Topic.ackedBy, settled.1.2] at before
  · intro topic group seq was
    have ack : (putAll docs (taskPuts docs task)).get (mqAckCollection topic group) (toString seq) = some (seqDoc seq) ∨
        (putAll docs (taskPuts docs task)).get (mqAckCollection topic group) (toString seq) =
          docs.get (mqAckCollection topic group) (toString seq) ∧
        ∀ put ∈ taskPuts docs task, ¬ put.At (mqAckCollection topic group) (toString seq) := by
      rcases get_putAll docs (taskPuts docs task) (mqAckCollection topic group) (toString seq) with
        same | ⟨put, listed, place, found⟩
      · exact .inr same
      · obtain ⟨_, _, _, n, _, _, _, spelled, content⟩ := planned.ack_source (not_message_or_hw topic group) listed place
        left
        rw [found, content, toString_injective spelled]
    rcases ack with document | ⟨same, none⟩
    · exact .inl document
    rcases contents.ackKept topic group seq was with document | memory
    · rw [same]
      exact .inl document
    right
    rw [ackedAt_settled each]
    refine ⟨?_, memory⟩
    rcases taken : task.snapshotOf topic with _ | snapshot
    · rfl
    obtain ⟨state, here⟩ : ∃ state, mq.topics[topic]? = some state := by
      obtain ⟨state, here, _⟩ := planned.taken topic snapshot (Task.mem_of_snapshotOf taken)
      exact ⟨state, here⟩
    rw [ackedAt, here] at memory
    exact absurd ⟨rfl, rfl⟩ (none _ (planned.puts_ack here (by rw [taken]; rfl) memory))

end Contents

end FerroLoop.Queue

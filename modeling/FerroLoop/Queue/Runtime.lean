import FerroLoop.Lib.Machine
import FerroLoop.Queue.Documents

/-!
The message queue of one owning handle: the durable documents, the buffer of the memory tier, and
the spills that move one into the other.
-/

namespace FerroLoop.Queue

open Store

inductive MqDurability where
  | durable
  | adaptive
  | ephemeral
deriving DecidableEq

structure MqTierPolicy where
  maxMemoryMessages : Nat
  maxMemoryBytes : Nat
  /-- In milliseconds. -/
  maxMemoryLag : Nat
  minAvailableRamBytes : Nat
  minFreeDiskBytes : Nat

def MqTierPolicy.default : MqTierPolicy :=
  ⟨10000, 16 * 1024 * 1024, 30 * 1000, 256 * 1024 * 1024, 1024 * 1024 * 1024⟩

/-- What the resource probe and the clock say. -/
structure Sample where
  now : Nat
  availableRamBytes : Option Nat
  freeDiskBytes : Option Nat

structure MqTierObservation where
  memoryMessages : Nat
  memoryBytes : Nat
  oldestUnackedLag : Nat
  availableRamBytes : Option Nat
  freeDiskBytes : Option Nat

inductive MqTierDecision where
  | memory
  | spill
  | spillBlocked
deriving DecidableEq

def MqTierPolicy.evaluate (policy : MqTierPolicy) (observation : MqTierObservation) : MqTierDecision :=
  let pressure := policy.maxMemoryMessages ≤ observation.memoryMessages ∨
    policy.maxMemoryBytes ≤ observation.memoryBytes ∨ policy.maxMemoryLag ≤ observation.oldestUnackedLag ∨
    observation.availableRamBytes.all fun ram => decide (ram < policy.minAvailableRamBytes)
  if ¬ pressure then .memory
  else if observation.freeDiskBytes.any fun disk => decide (policy.minFreeDiskBytes < disk) then .spill
  else .spillBlocked

def mqMaxMemoryTopics : Nat := 1024

def mqMaxMemoryGroups : Nat := 4096

def mqMaxMemoryAcks : Nat := 8192

def mqMaxNameBytes : Nat := 256

structure Buffered where
  record : MqRecord
  durability : MqDurability
  bytes : Nat
  at_ : Nat

structure Topic where
  highWater : Nat
  persistedHighWater : Nat
  messages : BTreeMap Nat Buffered
  acks : BTreeMap String (BTreeSet Nat)
  groups : BTreeSet String
  memoryBytes : Nat
  spilledMessagesTotal : Nat
  ackedInMemoryTotal : Nat

/-- `busy` is not kept here: it is set exactly while the handle has a task. -/
structure Runtime where
  policy : MqTierPolicy
  evictOnFirstAck : Bool
  topics : BTreeMap String Topic
  groups : Nat
  acks : Nat

def Runtime.default : Runtime := ⟨MqTierPolicy.default, false, ∅, 0, 0⟩

def Runtime.setTopic (mq : Runtime) (name : String) (state : Topic) : Runtime :=
  { mq with topics := mq.topics.insert name state }

def saturatingAdd (a b : Nat) : Nat := min (a + b) (u64Max - 1)

namespace Topic

def seeded (floor : Nat) : Topic := ⟨floor, floor, ∅, ∅, ∅, 0, 0, 0⟩

def buffered (state : Topic) : List Buffered := state.messages.toList.map Prod.snd

def adaptive (state : Topic) : List Buffered := state.buffered.filter fun entry => entry.durability = .adaptive

section

variable (state : Topic)

/-- A flush has something to write. -/
def pending : Bool :=
  decide (state.persistedHighWater < state.highWater) || !state.acks.isEmpty || !state.adaptive.isEmpty

def reusable : Bool :=
  state.messages.isEmpty && state.acks.isEmpty && state.highWater == state.persistedHighWater &&
    state.spilledMessagesTotal == 0 && state.ackedInMemoryTotal == 0

def ackedBy (group : String) (seq : Nat) : Bool :=
  (state.acks[group]?).any fun acked => acked.contains seq

def hold (entry : Buffered) : Topic :=
  { state with highWater := entry.record.seq, memoryBytes := state.memoryBytes + entry.bytes, messages := state.messages.insert entry.record.seq entry }

/-- The snapshot of a spill that a publish causes: the candidate is part of it when it may be
persisted. -/
def withCandidate (entry : Buffered) : Topic :=
  let raised := { state with highWater := entry.record.seq }
  if entry.durability = .adaptive then { raised with messages := raised.messages.insert entry.record.seq entry } else raised

def raise (seq : Nat) : Topic := { state with highWater := seq, persistedHighWater := seq }

def acknowledge (group : String) (seq : Nat) (entry : Buffered) (newAck removed : Bool) : Topic where
  highWater := state.highWater
  persistedHighWater := state.persistedHighWater
  messages := if removed then state.messages.erase seq else state.messages
  acks := state.acks.insert group (((state.acks[group]?).getD ∅).insert seq)
  groups := state.groups.insert group
  memoryBytes := if removed then state.memoryBytes - entry.bytes else state.memoryBytes
  spilledMessagesTotal := state.spilledMessagesTotal
  ackedInMemoryTotal := if newAck then saturatingAdd state.ackedInMemoryTotal 1 else state.ackedInMemoryTotal

def spilled (entry : Buffered) : Topic where
  highWater := state.highWater
  persistedHighWater := state.persistedHighWater
  messages := state.messages.erase entry.record.seq
  acks := state.acks
  groups := state.groups
  memoryBytes := state.memoryBytes - ((state.messages[entry.record.seq]?).elim 0 Buffered.bytes)
  spilledMessagesTotal := saturatingAdd state.spilledMessagesTotal 1
  ackedInMemoryTotal := state.ackedInMemoryTotal

end

def finalize (state snapshot : Topic) : Topic :=
  let emptied := snapshot.adaptive.foldl spilled state
  { emptied with acks := ∅, persistedHighWater := emptied.persistedHighWater.max snapshot.highWater }

end Topic

def mqBusy : StoreError := backend "MQ busy; retry"

def sizeOverflow : StoreError := backend "MQ memory size overflow"

def countOverflow : StoreError := backend "MQ memory count overflow"

def checked (error : StoreError) : Option Nat → Except StoreError Nat
  | some n => .ok n
  | none => .error error

/-- `try_fold` with `checked_add`. -/
def checkedSum (first : Nat) (parts : List Nat) : Option Nat := parts.foldlM checkedAdd first

namespace Runtime

def states (mq : Runtime) : List Topic := mq.topics.toList.map Prod.snd

def buffered (mq : Runtime) : List Buffered := mq.states.flatMap Topic.buffered

/-- Forget a topic that keeps nothing when the table is full. -/
def makeRoom (mq : Runtime) : Except StoreError Runtime :=
  if mq.topics.size < mqMaxMemoryTopics then .ok mq
  else
    match mq.topics.toList.find? fun entry => entry.2.reusable with
    | some (name, removed) => .ok { mq with topics := mq.topics.erase name, groups := mq.groups - removed.groups.size }
    | none => .error (backend "MQ memory topic limit reached; flush MQ or use Durable")

/-- A topic's buffer starts above the high-water and every stored message. The topic that made
room is gone even when the documents of this one cannot be read. -/
def mqSeed (docs : Docs) (mq : Runtime) (topic : String) : Runtime × Except StoreError Unit :=
  if mq.topics.contains topic then (mq, .ok ())
  else if mqMaxNameBytes < topic.utf8ByteSize then (mq, .error (backend "MQ topic name exceeds memory-tier limit"))
  else
    match mq.makeRoom with
    | .error err => (mq, .error err)
    | .ok roomy =>
      match nextMqSeqForMemory docs topic with
      | .error err => (roomy, .error err)
      | .ok next => (roomy.setTopic topic (.seeded (next - 1)), .ok ())

end Runtime

def oldestLag (sample : Sample) (entries : List Buffered) : Nat :=
  (entries.map fun entry => sample.now - entry.at_).foldl max 0

def Sample.observe (sample : Sample) (messages bytes lag : Nat) : MqTierObservation :=
  ⟨messages, bytes, lag, sample.availableRamBytes, sample.freeDiskBytes⟩

def ephemeralFits (mq : Runtime) (sample : Sample) (bytes : Nat) : Except StoreError Unit := do
  let retained := mq.buffered.filter fun entry => entry.durability = .ephemeral
  let retainedBytes ← checked sizeOverflow (checkedSum bytes (retained.map Buffered.bytes))
  let afterSpill := sample.observe (saturatingAdd retained.length 1) retainedBytes (oldestLag sample retained)
  if mq.policy.evaluate afterSpill = .memory then .ok ()
  else .error (backend "Ephemeral MQ memory pressure; retry after consumption")

def admission (serde : SerdeJson) (mq : Runtime) (state : Topic) (sample : Sample) (key : String) (payload : Value)
    (durability : MqDurability) : Except StoreError (Buffered × Bool) := do
  let bytes ← checked sizeOverflow (checkedAdd key.utf8ByteSize (serde.toVec payload).length)
  let seq ← nextAfter state.highWater
  let _ ← checked sizeOverflow (checkedAdd state.memoryBytes bytes)
  let totalMessages ← checked countOverflow (checkedSum 1 (mq.states.map fun current => current.messages.size))
  let totalBytes ← checked sizeOverflow (checkedSum bytes (mq.states.map Topic.memoryBytes))
  let entry : Buffered := ⟨⟨seq, key, payload⟩, durability, bytes, sample.now⟩
  match mq.policy.evaluate (sample.observe totalMessages totalBytes (oldestLag sample mq.buffered)) with
  | .spillBlocked => .error (backend "insufficient disk headroom for MQ spill")
  | .memory => .ok (entry, false)
  | .spill => do
    if durability = .ephemeral then ephemeralFits mq sample bytes
    .ok (entry, true)

/-- The message whose publish caused the spill; an Ephemeral one is retained in memory. -/
structure Candidate where
  topic : String
  record : MqRecord
  durability : MqDurability
  retained : Option Buffered

structure Task where
  snapshots : List (String × Topic)
  extra : Option (String × MqRecord)
  candidate : Option Candidate
  persisted : Bool

section

variable (docs : Docs)

def putMessage (topic : String) (record : MqRecord) : Docs :=
  docs.insert (mqMessageCollection topic) (toString record.seq) (messageDoc record)

def putHighWater (topic : String) (seq : Nat) : Docs :=
  docs.insert (mqHwCollection topic) mqHighWaterId (seqDoc seq)

def putAck (topic group : String) (seq : Nat) : Docs :=
  docs.insert (mqAckCollection topic group) (toString seq) (seqDoc seq)

def storeMessage (topic : String) (record : MqRecord) : Docs :=
  putHighWater (putMessage docs topic record) topic record.seq

def putAcks (topic : String) (acks : List (String × BTreeSet Nat)) : Docs :=
  acks.foldl (fun docs entry => entry.2.toList.foldl (fun docs seq => putAck docs topic entry.1 seq) docs) docs

def persistSnapshot (topic : String) (state : Topic) : Except StoreError Docs := do
  let messages := state.adaptive.foldl (fun docs entry => putMessage docs topic entry.record) docs
  let acked := putAcks messages topic state.acks.toList
  if state.pending then do
    let existing ← mqHighWater acked topic
    .ok (putHighWater acked topic ((existing.getD 0).max state.highWater))
  else .ok acked

end

def persistSnapshots (docs : Docs) (extra : Option (String × MqRecord)) :
    List (String × Topic) → Except StoreError Docs
  | [] =>
    match extra with
    | none => .ok docs
    | some (topic, record) => .ok (storeMessage docs topic record)
  | (topic, state) :: rest => do
    let docs ← persistSnapshot docs topic state
    persistSnapshots docs extra rest

def ackCount (state : Topic) : Nat := (state.acks.toList.map fun entry => entry.2.size).sum

/-- `mq_finalize_snapshots`. -/
def finalizeSnapshots (mq : Runtime) : List (String × Topic) → Runtime
  | [] => mq
  | (name, snapshot) :: rest =>
    match mq.topics[name]? with
    | none => finalizeSnapshots mq rest
    | some state =>
      finalizeSnapshots { mq with topics := mq.topics.insert name (state.finalize snapshot), acks := mq.acks - ackCount state } rest

def Candidate.settle (candidate : Candidate) (state : Topic) : Topic × Except StoreError Unit :=
  let raised := state.raise candidate.record.seq
  match candidate.retained with
  | none => (raised, .ok ())
  | some entry =>
    match checkedAdd raised.memoryBytes entry.bytes with
    | none => (raised, .error sizeOverflow)
    | some bytes => ({ raised with memoryBytes := bytes, messages := raised.messages.insert entry.record.seq entry }, .ok ())

def settleCandidate (mq : Runtime) (candidate : Candidate) : Runtime × Except StoreError Unit :=
  match mq.topics[candidate.topic]? with
  | none => (mq, .ok ())
  | some state => (mq.setTopic candidate.topic (candidate.settle state).1, (candidate.settle state).2)

def Task.settle (task : Task) (mq : Runtime) : Runtime × Except StoreError Unit :=
  let finalized := finalizeSnapshots mq task.snapshots
  match task.candidate with
  | none => (finalized, .ok ())
  | some candidate => settleCandidate finalized candidate

/-- `used` is `mq_used`: some message was admitted to the memory tier. -/
structure Handle where
  docs : Docs
  runtime : Runtime
  used : Bool
  task : Option Task

inductive Answer where
  | published (topic : String) (record : MqRecord) (durability : MqDurability)
  /-- Whether the acknowledgement took the message out of memory. -/
  | acked (topic group : String) (seq : Nat) (removed : Bool)
  | refused (error : StoreError)
  | done

/-- What a publish that spilled will answer. No other call changes the buffer while the queue is
busy, so the commit decides it. -/
def Task.answer (task : Task) (mq : Runtime) : Answer :=
  match task.candidate with
  | none => .done
  | some candidate =>
    match (task.settle mq).2 with
    | .error err => .refused err
    | .ok () => .published candidate.topic candidate.record candidate.durability

namespace Handle

def opened (docs : Docs) : Handle := ⟨docs, Runtime.default, false, none⟩

def busy (handle : Handle) : Bool := handle.task.isSome

def spill (handle : Handle) (task : Task) : Handle := { handle with task := some task }

/-- `publish_mq_detail` outside the memory tier. A commit that is durable but was not delivered to
the adapter counts as one. -/
def publishDirect (handle : Handle) (topic key : String) (payload : Value) (commit : Except StoreError Unit) :
    Handle × Answer :=
  match nextMqSeq handle.docs topic with
  | .error err => (handle, .refused err)
  | .ok seq =>
    match commit with
    | .error err => (handle, .refused err)
    | .ok () =>
      ({ handle with docs := storeMessage handle.docs topic ⟨seq, key, payload⟩ }, .published topic ⟨seq, key, payload⟩ .durable)

def lowDisk (handle : Handle) (sample : Sample) : Bool :=
  sample.freeDiskBytes.all fun free => decide (free ≤ handle.runtime.policy.minFreeDiskBytes)

section

variable (handle : Handle) (sample : Sample) (topic key : String) (payload : Value) (requireSingle : Bool)
  (commit : Except StoreError Unit)

/-- `mq_publish_durable_buffered`. -/
def publishDurableBuffered : Handle × Answer :=
  if handle.busy then (handle, .refused mqBusy)
  else
    match handle.runtime.topics[topic]? with
    | none => handle.publishDirect topic key payload commit
    | some state =>
      match nextAfter state.highWater with
      | .error err => (handle, .refused err)
      | .ok seq =>
        if requireSingle && state.pending then
          (handle, .refused (backend ("buffered MQ work exists; flush on the owner before publishing with a client " ++
            "SyncAdapter")))
        else if state.pending && handle.lowDisk sample then
          (handle, .refused (backend "insufficient disk headroom for MQ flush"))
        else
          let snapshots := if requireSingle then [] else [(topic, { state with highWater := seq })]
          (handle.spill ⟨snapshots, some (topic, ⟨seq, key, payload⟩), some ⟨topic, ⟨seq, key, payload⟩, .durable, none⟩, false⟩,
            .done)

def publishDurable : Handle × Answer :=
  if handle.used then handle.publishDurableBuffered sample topic key payload requireSingle commit
  else handle.publishDirect topic key payload commit

end

def spillSnapshots (mq : Runtime) (topic : String) (entry : Buffered) : List (String × Topic) :=
  (mq.topics.toList.filter fun current => current.1 = topic || !current.2.adaptive.isEmpty).map fun current =>
    (current.1, if current.1 = topic then current.2.withCandidate entry else current.2)

def spillTask (mq : Runtime) (topic : String) (entry : Buffered) : Task where
  snapshots := spillSnapshots mq topic entry
  extra := none
  candidate := some ⟨topic, entry.record, entry.durability, if entry.durability = .ephemeral then some entry else none⟩
  persisted := false

section

variable (serde : SerdeJson) (handle : Handle) (sample : Sample) (topic key : String) (payload : Value)
  (durability : MqDurability)

/-- `publish_mq_with_detail` for Adaptive and Ephemeral, with no adapter attached. -/
def publishBuffered : Handle × Answer :=
  if handle.busy then (handle, .refused mqBusy)
  else
    let seeded : Handle := { handle with runtime := (handle.runtime.mqSeed handle.docs topic).1 }
    match (handle.runtime.mqSeed handle.docs topic).2, seeded.runtime.topics[topic]? with
    | .error err, _ => (seeded, .refused err)
    | .ok (), none => (seeded, .done)
    | .ok (), some state =>
      match admission serde seeded.runtime state sample key payload durability with
      | .error err => (seeded, .refused err)
      | .ok (entry, false) =>
        ({ seeded with used := true, runtime := seeded.runtime.setTopic topic (state.hold entry) },
          .published topic entry.record durability)
      | .ok (entry, true) =>
        ({ seeded with used := true, task := some (spillTask seeded.runtime topic entry) }, .done)

/-- `publish_mq_with`. -/
def publish (commit : Except StoreError Unit) : Handle × Answer :=
  if durability = .durable then handle.publishDurable sample topic key payload false commit
  else handle.publishBuffered serde sample topic key payload durability

end

section

variable (handle : Handle)

section

variable (topic group : String) (seq : Nat) (commit : Except StoreError Unit)

def commitAck : Handle × Answer :=
  match commit with
  | .error err => (handle, .refused err)
  | .ok () => ({ handle with docs := putAck handle.docs topic group seq }, .acked topic group seq false)

def ackInMemory (mq : Runtime) (topic group : String) (seq : Nat) (state : Topic) (entry : Buffered) :
    Except StoreError (Runtime × Bool) :=
  let newGroup := !state.groups.contains group
  let newAck := !state.ackedBy group seq
  if newGroup ∧ mqMaxNameBytes < group.utf8ByteSize then .error (backend "MQ group name exceeds memory-tier limit")
  else if newGroup ∧ mqMaxMemoryGroups ≤ mq.groups then .error (backend "MQ memory group limit reached")
  else if newAck ∧ mqMaxMemoryAcks ≤ mq.acks then .error (backend "MQ memory ACK limit reached; call flush_mq")
  else
    let removed := newAck && (mq.evictOnFirstAck || entry.durability = .ephemeral)
    let counted := { mq with groups := if newGroup then mq.groups + 1 else mq.groups, acks := if newAck then mq.acks + 1 else mq.acks }
    .ok (counted.setTopic topic (state.acknowledge group seq entry newAck removed), removed)

/-- `ack_mq`, without the maintenance that follows it. -/
def ackMq : Handle × Answer :=
  if ¬ handle.used then handle.commitAck topic group seq commit
  else if handle.busy then (handle, .refused mqBusy)
  else
    match handle.runtime.topics[topic]? with
    | none => handle.commitAck topic group seq commit
    | some state =>
      match state.messages[seq]? with
      | none => handle.commitAck topic group seq commit
      | some entry =>
        match ackInMemory handle.runtime topic group seq state entry with
        | .error err => (handle, .refused err)
        | .ok (mq, removed) => ({ handle with runtime := mq }, .acked topic group seq removed)

end

def flushMq (sample : Sample) (topic : Option String) : Handle × Answer :=
  if handle.busy then (handle, .refused mqBusy)
  else
    let snapshots := handle.runtime.topics.toList.filter fun entry => topic.all fun wanted => entry.1 = wanted
    if ¬ snapshots.any fun entry => entry.2.pending then (handle, .done)
    else if handle.lowDisk sample then (handle, .refused (backend "insufficient disk headroom for MQ flush"))
    else (handle.spill ⟨snapshots, none, none, false⟩, .done)

/-- `maintain_mq` once something Adaptive is buffered: the decision. -/
def maintainDecision (mq : Runtime) (sample : Sample) : Except StoreError MqTierDecision := do
  let messages ← checked countOverflow (checkedSum 0 (mq.states.map fun state => state.messages.size))
  let bytes ← checked sizeOverflow (checkedSum 0 (mq.states.map Topic.memoryBytes))
  .ok (mq.policy.evaluate (sample.observe messages bytes (oldestLag sample mq.buffered)))

def maintainMq (sample : Sample) : Handle × Answer :=
  if ¬ handle.used then (handle, .done)
  else if handle.busy then (handle, .refused mqBusy)
  else
    let snapshots := handle.runtime.topics.toList.filter fun entry => !entry.2.adaptive.isEmpty
    if snapshots.isEmpty then (handle, .done)
    else
      match maintainDecision handle.runtime sample with
      | .error err => (handle, .refused err)
      | .ok .memory => (handle, .done)
      | .ok .spillBlocked => (handle, .refused (backend "insufficient disk headroom for MQ maintenance"))
      | .ok .spill => (handle.spill ⟨snapshots, none, none, false⟩, .done)

/-- The transaction of a spill. When it fails the claim is released and the buffer is as before. -/
def persist (commit : Except StoreError Unit) : Handle × Answer :=
  match handle.task with
  | none => (handle, .done)
  | some task =>
    if task.persisted then (handle, .done)
    else
      match persistSnapshots handle.docs task.extra task.snapshots, commit with
      | .error err, _ => ({ handle with task := none }, .refused err)
      | .ok _, .error err => ({ handle with task := none }, .refused err)
      | .ok docs, .ok () => ({ handle with docs := docs, task := some { task with persisted := true } }, Task.answer task handle.runtime)

/-- The buffer catches up with a committed spill, and the claim is released. -/
def finish : Handle × Answer :=
  match handle.task with
  | none => (handle, .done)
  | some task =>
    if task.persisted then ({ handle with runtime := (task.settle handle.runtime).1, task := none }, .done)
    else (handle, .done)

def configureMq (policy : MqTierPolicy) (evictOnFirstAck : Bool) : Handle × Answer :=
  if handle.busy then (handle, .refused mqBusy)
  else ({ handle with runtime := { handle.runtime with policy := policy, evictOnFirstAck := evictOnFirstAck } }, .done)

end

end Handle

inductive Event where
  | configure (policy : MqTierPolicy) (evictOnFirstAck : Bool)
  | publish (sample : Sample) (topic key : String) (payload : Value) (durability : MqDurability)
      (commit : Except StoreError Unit)
  /-- A durable publish for a client that can send on only one publish. -/
  | publishSingle (sample : Sample) (topic key : String) (payload : Value) (commit : Except StoreError Unit)
  | ack (topic group : String) (seq : UInt64) (commit : Except StoreError Unit)
  /-- The commit of an acknowledgement that looked for its message earlier. -/
  | ackLate (topic group : String) (seq : UInt64) (commit : Except StoreError Unit)
  | flush (sample : Sample) (topic : Option String)
  | maintain (sample : Sample)
  | persist (commit : Except StoreError Unit)
  | finish
  /-- A checkpoint flushes as `flush` does, and then rewrites the file with the same documents. -/
  | checkpoint
  | put (collection id : String) (doc : Value)
  | delete (collection id : String)

def step (serde : SerdeJson) (handle : Handle) : Event → Handle × Answer
  | .configure policy evictOnFirstAck => handle.configureMq policy evictOnFirstAck
  | .publish sample topic key payload durability commit => handle.publish serde sample topic key payload durability commit
  | .publishSingle sample topic key payload commit => handle.publishDurable sample topic key payload true commit
  | .ack topic group seq commit => handle.ackMq topic group seq.toNat commit
  | .ackLate topic group seq commit => handle.commitAck topic group seq.toNat commit
  | .flush sample topic => handle.flushMq sample topic
  | .maintain sample => handle.maintainMq sample
  | .persist commit => handle.persist commit
  | .finish => handle.finish
  | .checkpoint => (handle, .done)
  | .put collection id doc => ({ handle with docs := handle.docs.insert collection id doc }, .done)
  | .delete collection id => ({ handle with docs := handle.docs.remove collection id }, .done)

def mergeMemory (hidden : Nat → Bool) : List MqRecord → List Buffered → Except StoreError (List MqRecord)
  | merged, [] => .ok merged
  | merged, entry :: rest =>
    if hidden entry.record.seq then mergeMemory hidden merged rest
    else if merged.any fun record => record.seq == entry.record.seq then
      .error (backend "MQ sequence appears in both memory and disk")
    else mergeMemory hidden (merged ++ [entry.record]) rest

def Handle.mergeBuffer (handle : Handle) (topic group : String) (disk : List MqRecord) : Except StoreError (List MqRecord) :=
  match handle.runtime.topics[topic]? with
  | none => .ok disk
  | some buffer =>
    let persistedAcks := ackedSeqs handle.docs topic group
    mergeMemory (fun seq => persistedAcks.contains seq || buffer.ackedBy group seq) disk buffer.buffered

def Handle.pollMqGroup (handle : Handle) (topic group : String) (limit : Nat) : Except StoreError (List MqRecord) :=
  if ¬ handle.used then unreadMq handle.docs topic group limit
  else if handle.busy then .error mqBusy
  else do
    let disk ← unreadMq handle.docs topic group limit
    let merged ← handle.mergeBuffer topic group disk
    .ok ((merged.mergeSort notAfter).take limit)

end FerroLoop.Queue

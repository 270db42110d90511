import FerroLoop.Queue.Polling

namespace FerroLoop.Queue

open Store Checked Machine List Handle

variable {other topic group member : String}

theorem inCollection_insert_other (docs : Docs) {collection : String} (differ : collection ≠ other) (id : String)
    (doc : Value) : (docs.insert collection id doc).inCollection other = docs.inCollection other := by
  have same : (docs.insert collection id doc).nested[other]? = docs.nested[other]? := by
    unfold Docs.insert Docs.replace
    split
    · rw [Map.getElem?_erase, if_neg differ]
    · rw [Map.getElem?_insert, if_neg differ]
  unfold Docs.inCollection
  rw [same]

theorem unreadMq_congr {first second : Docs}
    (messages : first.inCollection (mqMessageCollection topic) = second.inCollection (mqMessageCollection topic))
    (acks : first.inCollection (mqAckCollection topic group) = second.inCollection (mqAckCollection topic group)) (limit : Nat) :
    unreadMq first topic group limit = unreadMq second topic group limit := by
  unfold unreadMq loadMq ackedSeqs
  rw [messages, acks]

variable {handle : Handle}

theorem poll_putAck (seq : Nat)
    (differ : mqAckCollection topic group ≠ mqAckCollection other member) (limit : Nat) :
    ({ handle with docs := putAck handle.docs topic group seq } : Handle).pollMqGroup other member limit =
      handle.pollMqGroup other member limit := by
  have messages := inCollection_insert_other handle.docs (message_ne_ack other topic group).symm (toString seq) (seqDoc seq)
  have acks := inCollection_insert_other handle.docs differ (toString seq) (seqDoc seq)
  have disk : unreadMq (putAck handle.docs topic group seq) other member limit = unreadMq handle.docs other member limit :=
    unreadMq_congr messages acks limit
  have acked : ackedSeqs (putAck handle.docs topic group seq) other member = ackedSeqs handle.docs other member := by
    unfold ackedSeqs putAck
    rw [acks]
  unfold pollMqGroup mergeBuffer busy
  rw [disk, acked]

theorem poll_acknowledge {next : Runtime} {state : Topic} {seq : Nat}
    {entry : Buffered} {newAck : Bool} (held : handle.runtime.topics[topic]? = some state)
    (changed : next.topics = handle.runtime.topics.insert topic (state.acknowledge group seq entry newAck false))
    (differ : (topic, group) ≠ (other, member)) (limit : Nat) :
    ({ handle with runtime := next } : Handle).pollMqGroup other member limit = handle.pollMqGroup other member limit := by
  have buffer : ∀ disk, ({ handle with runtime := next } : Handle).mergeBuffer other member disk =
      handle.mergeBuffer other member disk := by
    intro disk
    unfold mergeBuffer
    rw [changed, Map.getElem?_insert]
    by_cases same : topic = other
    · subst same
      have acks : ∀ n, (state.acknowledge group seq entry newAck false).ackedBy member n = state.ackedBy member n := by
        intro n
        rw [Bool.eq_iff_iff, Contents.ackedBy_acknowledge]
        constructor
        · rintro (old | ⟨rfl, _⟩)
          · exact old
          · exact absurd rfl differ
        · exact .inl
      have messages : (state.acknowledge group seq entry newAck false).buffered = state.buffered := rfl
      rw [if_pos rfl, held]
      simp only [acks, messages]
    · rw [if_neg same]
  unfold pollMqGroup
  simp only [buffer]
  rfl

theorem poll_ackMq (handle : Handle) {seq : Nat} {commit : Except StoreError Unit}
    (names : mqAckCollection topic group ≠ mqAckCollection other member)
    (takes : (handle.ackMq topic group seq commit).2 ≠ .acked topic group seq true) (limit : Nat) :
    (handle.ackMq topic group seq commit).1.pollMqGroup other member limit = handle.pollMqGroup other member limit := by
  have pairs : (topic, group) ≠ (other, member) := by
    intro same
    obtain ⟨rfl, rfl⟩ := Prod.mk.inj same
    exact names rfl
  have committed : (handle.commitAck topic group seq commit).1.pollMqGroup other member limit =
      handle.pollMqGroup other member limit := by
    unfold commitAck
    split
    · rfl
    · exact poll_putAck seq names limit
  unfold ackMq at takes ⊢
  split
  · exact committed
  split
  · rfl
  split
  · exact committed
  rename_i state held
  split
  · exact committed
  rename_i entry found
  split
  · rfl
  rename_i next removed ok
  have spared : removed = false := by
    cases removed with
    | false => rfl
    | true => simp_all
  subst spared
  exact poll_acknowledge held (ackInMemory_ok ok).1 pairs limit

/-- In every state, an acknowledgement for the first pair that evicts nothing leaves every poll of
the second. -/
def AckKeepsPolls (topic group other member : String) : Prop :=
  ∀ (handle : Handle) (seq : UInt64) (commit : Except StoreError Unit) (limit : Nat),
    (handle.ackMq topic group seq.toNat commit).2 ≠ .acked topic group seq.toNat true →
    (handle.ackMq topic group seq.toNat commit).1.pollMqGroup other member limit = handle.pollMqGroup other member limit

/-- So does the acknowledgement with the maintenance that follows it, from every idle state that a run
reaches without a pair of the second's joined name having acknowledged. -/
def MaintainedAckKeepsPolls (topic group other member : String) : Prop :=
  ∀ (serde : SerdeJson) (docs : Docs) (stored : String → List MqRecord) (events later : List Event) (seq : UInt64)
    (commit : Except StoreError Unit) (limit : Nat),
    Opened docs stored →
    Machine.Throughout (step serde) Undisturbed (.opened docs) (events ++ .ack topic group seq commit :: later) →
    NamesApart (trace (step serde) (.opened docs) events) other member →
    (step serde (run (step serde) (.opened docs) events) (.ack topic group seq commit)).2 ≠
      .acked topic group seq.toNat true →
    Quiet (trace (step serde) (run (step serde) (.opened docs) (events ++ [.ack topic group seq commit])) later) →
    (run (step serde) (.opened docs) events).busy = false →
    (run (step serde) (.opened docs) (events ++ .ack topic group seq commit :: later)).busy = false →
    (run (step serde) (.opened docs) (events ++ .ack topic group seq commit :: later)).pollMqGroup other member limit =
      (run (step serde) (.opened docs) events).pollMqGroup other member limit

theorem polled_other {docs : Docs} {stored : String → List MqRecord} {past : List (Event × Answer)} {event : Event}
    {answer : Answer}
    (other : (∀ name record durability, answer ≠ .published name record durability) ∧
      ∀ name member seq removed, answer = .acked name member seq removed → removed = false ∧ (name, member) ≠ (topic, group))
    (limit : Nat) :
    polled docs stored (past ++ [(event, answer)]) topic group limit = polled docs stored past topic group limit := by
  have sentSame : sentIn stored (past ++ [(event, answer)]) topic = sentIn stored past topic := by
    rw [sentIn_snoc]
    cases answer with
    | published name record durability => exact absurd rfl (other.1 name record durability)
    | _ => rfl
  have rest : ackedIn docs (past ++ [(event, answer)]) topic group = ackedIn docs past topic group ∧
      goneIn (past ++ [(event, answer)]) topic = goneIn past topic := by
    unfold ackedIn goneIn
    cases answer with
    | acked name member seq removed =>
      obtain ⟨rfl, differ⟩ := other.2 name member seq removed rfl
      have unlike : ¬ (topic = name ∧ group = member) := fun same => differ (by rw [same.1, same.2])
      simp [unlike]
    | _ => simp
  unfold polled
  rw [sentSame, rest.1, rest.2]

theorem ackMq_answer (handle : Handle) (topic group : String) (seq : Nat) (commit : Except StoreError Unit) :
    (∃ error, (handle.ackMq topic group seq commit).2 = .refused error) ∨
      ∃ removed, (handle.ackMq topic group seq commit).2 = .acked topic group seq removed := by
  have committed : (∃ error, (handle.commitAck topic group seq commit).2 = .refused error) ∨
      ∃ removed, (handle.commitAck topic group seq commit).2 = .acked topic group seq removed := by
    unfold commitAck
    split
    · exact .inl ⟨_, rfl⟩
    · exact .inr ⟨_, rfl⟩
  unfold ackMq
  split
  · exact committed
  split
  · exact .inl ⟨_, rfl⟩
  split
  · exact committed
  split
  · exact committed
  · split
    · exact .inl ⟨_, rfl⟩
    · exact .inr ⟨_, rfl⟩

theorem maintained_of_names
    (names : mqAckCollection topic group ≠ mqAckCollection other member) : MaintainedAckKeepsPolls topic group other member := by
  intro serde docs stored events later seq commit limit opened undisturbed apart takes quiet idle settled
  have rejoin : events ++ .ack topic group seq commit :: later = (events ++ [.ack topic group seq commit]) ++ later := by
    rw [append_assoc]
    rfl
  have before := (run_recorded opened (Machine.Throughout.append.mp undisturbed).1).poll apart limit
  have after := run_recorded opened undisturbed
  rw [rejoin, trace_append, trace_append] at after
  rw [rejoin] at settled ⊢
  generalize acknowledged : step serde (run (step serde) (.opened docs) events) (.ack topic group seq commit) = result
    at takes
  have traced : trace (step serde) (run (step serde) (.opened docs) events) [.ack topic group seq commit] =
      [(.ack topic group seq commit, result.2)] := by
    rw [trace, acknowledged]
    rfl
  have answer := ackMq_answer (run (step serde) (.opened docs) events) topic group seq.toNat commit
  rw [show (run (step serde) (.opened docs) events).ackMq topic group seq.toNat commit = result from acknowledged]
    at answer
  rw [traced] at after
  have unlike : (∀ name record durability, result.2 ≠ .published name record durability) ∧
      ∀ name who n removed, result.2 = .acked name who n removed → removed = false ∧ (name, who) ≠ (other, member) := by
    rcases answer with ⟨error, same⟩ | ⟨removed, same⟩
    · rw [same]
      exact ⟨by rintro _ _ _ ⟨⟩, by rintro _ _ _ _ ⟨⟩⟩
    rw [same] at takes ⊢
    refine ⟨by rintro _ _ _ ⟨⟩, ?_⟩
    rintro name who n again equal
    cases equal
    refine ⟨?_, ?_⟩
    · cases removed with
      | false => rfl
      | true => exact absurd rfl takes
    · intro pairs
      obtain ⟨rfl, rfl⟩ := Prod.mk.inj pairs
      exact names rfl
  have still : NamesApart (trace (step serde) (.opened docs) events ++ [(.ack topic group seq commit, result.2)])
      other member := by
    intro event name who n removed inside collide
    rcases mem_append.mp inside with old | now
    · exact apart event name who n removed old collide
    have same := (Prod.mk.inj (mem_singleton.mp now)).2
    rcases answer with ⟨error, refused⟩ | ⟨again, is⟩
    · rw [refused] at same
      cases same
    · rw [is] at same
      cases same
      exact absurd collide names
  rw [after.poll (still.quiet quiet), before, polled_quiet quiet, polled_other unlike, idle, settled]

theorem unreadMq_unacked {docs : Docs} {limit : Nat} {records : List MqRecord}
    (ok : unreadMq docs topic group limit = .ok records) : ∀ record ∈ records, record.seq ∉ ackedSeqs docs topic group := by
  unfold unreadMq at ok
  split at ok
  · cases ok
    exact nofun
  obtain ⟨all, _, rest⟩ := bind_ok ok
  cases rest
  intro record member
  have shown := (mem_filter.mp (mem_of_mem_take member)).2
  simpa using shown

theorem not_kept_of_collision
    (collide : mqAckCollection topic group = mqAckCollection other member) : ¬ AckKeepsPolls topic group other member := by
  intro kept
  let serde := Store.Sample.serde
  let events : List Event := [.publish Sample.quiet other "k" Value.null .durable (.ok ())]
  let handle := run (step serde) (.opened Docs.empty) events
  have undisturbed : Machine.Throughout (step serde) Undisturbed (.opened Docs.empty) events := ⟨fun _ _ => rfl, trivial⟩
  have answers : trace (step serde) (.opened Docs.empty) events =
      [(.publish Sample.quiet other "k" Value.null .durable (.ok ()), .published other ⟨1, "k", Value.null⟩ .durable)] := rfl
  have names : NamesApart (trace (step serde) (.opened Docs.empty) events) other member := by
    intro event name who seq removed inside
    cases mem_singleton.mp inside
  have before : handle.pollMqGroup other member 1 = .ok [⟨1, "k", Value.null⟩] := by
    rw [(run_recorded opened_empty undisturbed).poll names 1, answers]
    simp only [polled, sentIn, Contents.unread, ackedIn, goneIn, filterMap_cons, filterMap_nil, ↓reduceIte]
    rfl
  have after : unreadMq (putAck handle.docs topic group 1) other member 1 = handle.pollMqGroup other member 1 :=
    kept handle 1 (.ok ()) 1 (by rintro ⟨⟩)
  rw [before] at after
  have hidden := unreadMq_unacked after ⟨1, "k", Value.null⟩ mem_cons_self
  apply hidden
  refine mem_filterMap.mpr ⟨("1", seqDoc 1), mem_inCollection.mpr ?_, rfl⟩
  show (putAck handle.docs topic group 1).get (mqAckCollection other member) "1" = some (seqDoc 1)
  rw [putAck, Docs.get_insert, if_pos (by rw [collide]; rfl)]

/-- Acknowledgements of two different pairs are kept apart exactly when their joined names differ. -/
theorem acks_isolated_iff (topic group other member : String) :
    (AckKeepsPolls topic group other member ∧ MaintainedAckKeepsPolls topic group other member) ↔
      topic ++ ":" ++ group ≠ other ++ ":" ++ member := by
  have joined : mqAckCollection topic group = mqAckCollection other member ↔
      topic ++ ":" ++ group = other ++ ":" ++ member := ⟨append_left_cancel, fun same => by rw [mqAckCollection, same]; rfl⟩
  constructor
  · rintro ⟨kept, _⟩ same
    exact not_kept_of_collision (joined.mpr same) kept
  · intro names
    have apart : mqAckCollection topic group ≠ mqAckCollection other member := fun same => names (joined.mp same)
    exact ⟨fun handle seq commit limit takes => poll_ackMq handle apart takes limit, maintained_of_names apart⟩

/-- The names of two different pairs collide when a topic or a group holds a colon. -/
theorem acks_of_joined_names_collide :
    ("a:b", "c") ≠ ("a", "b:c") ∧ ¬ AckKeepsPolls "a:b" "c" "a" "b:c" :=
  ⟨by decide, not_kept_of_collision rfl⟩

end FerroLoop.Queue

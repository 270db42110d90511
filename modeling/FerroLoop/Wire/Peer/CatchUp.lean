import FerroLoop.Wire.Peer.Gains

namespace FerroLoop.Wire.Peer

open List hiding isEmpty_iff
open Std Inbox Option ExtTreeMap Link
open Store (BTreeMap)

section

variable (store : WireStore)

def Phase.brings (id : MessageId) : Phase → Prop
  | .start | .countedMessages _ | .countedReceipts _ _ | .authed _ | .greeted _ _ | .readEvents _ _ _ =>
    (store.message? id).isSome = true
  | .readMessages _ _ _ messages => Has messages id
  | .readReceipts _ batch => Has batch.messages id
  | .batched _ | .registered _ => False

def MessageOnWay (me : Party) (id : MessageId) : Prop :=
  me.phase.brings me.store id ∨ ∃ frame ∈ me.outgoing, Has frame.messages id

def Logged (receipt : DeliveryReceipt) : Prop :=
  (store.message? receipt.messageId).isSome = true ∧
    ∃ seq : Nat, store.rcptLog[seq]? = some receipt ∧ seq ≤ store.nextWireRcptSeq

def Phase.owes (store other : WireStore) (receipt : DeliveryReceipt) (phase : Phase) : Prop :=
  match phase with
  | .start | .countedMessages _ | .countedReceipts _ _ | .authed _ | .greeted _ _ | .readEvents _ _ _
  | .readMessages _ _ _ _ =>
    Logged store receipt ∧ (Settles other receipt.messageId ∨ phase.brings store receipt.messageId)
  | .readReceipts _ batch =>
    receipt ∈ batch.receipts ∧ (Settles other receipt.messageId ∨ Has batch.messages receipt.messageId)
  | .batched _ | .registered _ => False

def ReceiptOnWay (me other : Party) (receipt : DeliveryReceipt) : Prop :=
  me.phase.owes me.store other.store receipt ∨
    ∃ frame ∈ me.outgoing, receipt ∈ frame.receipts ∧
      (Settles other.store receipt.messageId ∨ Has frame.messages receipt.messageId)

def Phase.tells (event : RegistryEvent) : Phase → Prop
  | .start | .countedMessages _ | .countedReceipts _ _ | .authed _ | .greeted _ _ =>
    ∃ seq : Nat, store.registry.events[seq]? = some event ∧ seq ≤ store.registry.nextAgentEvent
  | .readEvents _ _ events | .readMessages _ _ events _ => event ∈ events
  | .readReceipts _ batch => event ∈ batch.registryEvents
  | .batched _ | .registered _ => False

end

def EventOnWay (me : Party) (event : RegistryEvent) : Prop :=
  me.phase.tells me.store event ∨ ∃ frame ∈ me.outgoing, event ∈ frame.events

/-- What is not broadcast, because the peer is not registered yet, reaches the other side all the same. -/
def Carried (me other : Party) (message : WireMessage) (receipts : List DeliveryReceipt) : Prop :=
  (Settles other.store message.id ∨ MessageOnWay me message.id) ∧
    ∀ receipt ∈ receipts, SettlesReceipt other.store receipt ∨ ReceiptOnWay me other receipt

/-- The next read skips an item that the other side has not: its number is not above the number the other side gave of
its own log. -/
def Party.skips (me other : Party) : Prop :=
  match me.phase with
  | .greeted _ remote =>
    ∃ (seq : Nat) (event : RegistryEvent), me.store.registry.events[seq]? = some event ∧ seq ≤ remote.agent ∧
      ¬KnowsEvent other.store event
  | .readEvents _ remote _ =>
    ∃ (seq : Nat) (id : MessageId), me.store.msgLog[seq]? = some id ∧ seq ≤ remote.msg ∧
      (me.store.message? id).isSome = true ∧ ¬Settles other.store id
  | .readMessages _ remote _ _ =>
    ∃ (seq : Nat) (receipt : DeliveryReceipt), me.store.rcptLog[seq]? = some receipt ∧ seq ≤ remote.rcpt ∧
      (me.store.message? receipt.messageId).isSome = true ∧ ¬SettlesReceipt other.store receipt
  | _ => False

def Party.overwrites (me : Party) (args : SendWireArgs) (minted : Iri) : Prop :=
  ∃ registry message, compose me.store args minted = .ok (registry, message) ∧
    ∃ one ∈ registry.recipients message, (me.store.inbox[inboxKey one.1 message.id]?).isSome = true

def Party.drops (me other : Party) : Prop :=
  me.phase.isRegistered = false ∧
    ∃ message receipts, me.publishing = some (message, receipts) ∧ ¬Carried me other message receipts

def Party.refuses (me other : Party) : Prop :=
  ∃ frame rest err, other.outgoing = frame :: rest ∧
    me.store.registry.importRegistryEvents me.label frame.events = .error err

def Loses (link : Link) : Action → Prop
  | .advance side => (link.me side).skips (link.other side)
  | .send side args minted => (link.me side).overwrites args minted
  | .broadcast side => (link.me side).drops (link.other side)
  | .receive side => (link.me side).refuses (link.other side)

def Lossless : Link → List Action → Prop
  | _, [] => True
  | link, action :: rest => ¬Loses link action ∧ ∀ next, link.step action = some next → Lossless next rest

def Phase.messages : Phase → List WireMessage
  | .readMessages _ _ _ messages => messages
  | .readReceipts _ batch => batch.messages
  | _ => []

structure Bound (me other : Party) : Prop where
  numbered : Numbered me.store
  messages : ∀ message ∈ me.own.messages, Settles other.store message.id ∨ MessageOnWay me message.id ∨
    ∃ receipts, me.publishing = some (message, receipts)
  receipts : ∀ receipt ∈ me.own.receipts, SettlesReceipt other.store receipt ∨ ReceiptOnWay me other receipt ∨
    ∃ message receipts, me.publishing = some (message, receipts) ∧ receipt ∈ receipts
  events : ∀ event ∈ me.own.events, KnowsEvent other.store event ∨ EventOnWay me event
  sound : ∀ message ∈ me.phase.messages, validate message = .ok ()
  frames : ∀ frame ∈ me.outgoing, ∀ message ∈ frame.messages, validate message = .ok ()
  publishing : ∀ message receipts, me.publishing = some (message, receipts) →
    validate message = .ok () ∧ ∀ receipt ∈ receipts, receipt.messageId = message.id

variable {store : WireStore}

theorem Bound.start {label : String} (numbered : Numbered store) (other : Party) :
    Bound (Party.start label store) other where
  numbered := numbered
  messages := by
    intro message mem
    obtain ⟨entry, memEntry, rfl⟩ := mem_map.mp mem
    have held := mem_toList_iff_getElem?_eq_some.mp memEntry
    refine .inr (.inl (.inl ?_))
    show (store.messages[entry.2.id.iri.text]?).isSome = true
    rw [numbered.filed.messages _ _ held, held]
    rfl
  receipts := by
    intro receipt mem
    obtain ⟨entry, memEntry, rfl⟩ := mem_map.mp mem
    have held := mem_toList_iff_getElem?_eq_some.mp memEntry
    have owned := numbered.owned _ _ held
    exact .inr (.inl (.inl ⟨⟨owned, numbered.rows _ _ held⟩, .inr owned⟩))
  events := by
    intro event mem
    obtain ⟨entry, memEntry, rfl⟩ := mem_map.mp mem
    have held := mem_toList_iff_getElem?_eq_some.mp memEntry
    exact .inr (.inl ⟨entry.1, held, (numbered.events.2 _ _ held).1⟩)
  sound := by
    intro message mem
    cases mem
  frames := by
    intro frame mem
    cases mem
  publishing := by
    intro message receipts now
    cases now

variable {store : WireStore} {me other next : Party} {minted : Iri} {args : SendWireArgs} {link : Link}

variable {receipt : DeliveryReceipt} {phase : Phase}

theorem Phase.owes_gains {before after : WireStore} (gains : Gains before after)
    (due : phase.owes store before receipt) : phase.owes store after receipt := by
  cases phase with
  | batched | registered => exact due
  | _ => exact ⟨due.1, due.2.imp gains.settles id⟩

variable {next : Party}

theorem ReceiptOnWay.gains {me other : Party} (gains : Gains other.store next.store)
    (onWay : ReceiptOnWay me other receipt) : ReceiptOnWay me next receipt := by
  rcases onWay with due | ⟨frame, mem, carries, message⟩
  · exact .inl (Phase.owes_gains gains due)
  · exact .inr ⟨frame, mem, carries, message.imp gains.settles id⟩

theorem Bound.gains {me other : Party} (bound : Bound me other) (gains : Gains other.store next.store) : Bound me next where
  numbered := bound.numbered
  messages := fun message mem => (bound.messages message mem).imp gains.settles id
  receipts := fun receipt mem => (bound.receipts receipt mem).imp gains.settlesReceipt (Or.imp (·.gains gains) id)
  events := fun event mem => (bound.events event mem).imp gains.knows id
  sound := bound.sound
  frames := bound.frames
  publishing := bound.publishing

theorem Bound.took (bound : Bound me other) (registered : me.phase.isRegistered = true)
    (numbered : Numbered store) : Bound { me with store } other := by
  obtain ⟨cursors, phase⟩ : ∃ cursors, me.phase = .registered cursors := by
    cases phase : me.phase with
    | registered cursors => exact ⟨cursors, rfl⟩
    | _ =>
      rw [phase] at registered
      cases registered
  refine { numbered, messages := ?_, receipts := ?_, events := ?_, sound := bound.sound, frames := bound.frames,
           publishing := bound.publishing }
  · intro message mem
    refine (bound.messages message mem).imp id (Or.imp ?_ id)
    rintro (due | flying)
    · rw [phase] at due
      cases due
    · exact .inr flying
  · intro receipt mem
    refine (bound.receipts receipt mem).imp id (Or.imp ?_ id)
    rintro (due | flying)
    · rw [phase] at due
      cases due
    · exact .inr flying
  · intro event mem
    refine (bound.events event mem).imp id ?_
    rintro (due | flying)
    · rw [phase] at due
      cases due
    · exact .inr flying

theorem Bound.delivered (bound : Bound me other) (numbered : Numbered other.store) {frame : PeerFrame}
    {rest : List PeerFrame} (flying : me.outgoing = frame :: rest)
    (accepted : ∀ err, other.store.registry.importRegistryEvents other.label frame.events ≠ .error err) :
    Bound { me with outgoing := rest } { other with store := processFrame other.label other.store frame } := by
  have validFrame : ∀ message ∈ frame.messages, validate message = .ok () :=
    bound.frames frame (by rw [flying]; exact mem_cons_self)
  obtain ⟨settledMessages, settledReceipts, knownEvents⟩ := processFrame_settles numbered validFrame accepted
  have gains := Gains.processFrame numbered other.label frame
  refine { numbered := bound.numbered, messages := ?_, receipts := ?_, events := ?_, sound := bound.sound, frames := ?_,
           publishing := bound.publishing }
  · intro message mem
    rcases bound.messages message mem with settled | (due | ⟨one, memOne, has⟩) | now
    · exact .inl (gains.settles settled)
    · exact .inr (.inl (.inl due))
    · rw [flying] at memOne
      rcases mem_cons.mp memOne with rfl | later
      · obtain ⟨carried, memCarried, same⟩ := has
        refine .inl ?_
        rw [← same]
        exact settledMessages carried memCarried
      · exact .inr (.inl (.inr ⟨one, later, has⟩))
    · exact .inr (.inr now)
  · intro receipt mem
    rcases bound.receipts receipt mem with settled | (due | ⟨one, memOne, carries, message⟩) | now
    · exact .inl (gains.settlesReceipt settled)
    · exact .inr (.inl (.inl (Phase.owes_gains gains due)))
    · rw [flying] at memOne
      rcases mem_cons.mp memOne with rfl | later
      · exact .inl (settledReceipts receipt carries message)
      · exact .inr (.inl (.inr ⟨one, later, carries, message.imp gains.settles id⟩))
    · exact .inr (.inr now)
  · intro event mem
    rcases bound.events event mem with known | due | ⟨one, memOne, carries⟩
    · exact .inl (gains.knows known)
    · exact .inr (.inl due)
    rw [flying] at memOne
    rcases mem_cons.mp memOne with rfl | later
    · exact .inl (knownEvents event carries)
    · exact .inr (.inr ⟨one, later, carries⟩)
  · intro one mem
    exact bound.frames one (by rw [flying]; exact mem_cons_of_mem _ mem)

variable {event : RegistryEvent}

section Grows

variable {before after : WireStore} (grows : StoreGrows before after)

include grows

variable {phase : Phase}

theorem Phase.brings_grows {id : MessageId} (due : phase.brings before id) : phase.brings after id := by
  cases phase with
  | readMessages | readReceipts | batched | registered => exact due
  | _ => exact grows.message id due

theorem Logged.kept (logged : Logged before receipt) : Logged after receipt := by
  obtain ⟨stored, seq, entry, within⟩ := logged
  exact ⟨grows.message _ stored, seq, grows.rcptEntry seq receipt entry within⟩

theorem Phase.owes_grows {other : WireStore}
    (due : phase.owes before other receipt) : phase.owes after other receipt := by
  cases phase with
  | readReceipts | batched | registered => exact due
  | _ => exact ⟨Logged.kept grows due.1, due.2.imp id (Phase.brings_grows grows)⟩

theorem Phase.tells_grows (due : phase.tells before event) : phase.tells after event := by
  cases phase with
  | readEvents | readMessages | readReceipts | batched | registered => exact due
  | _ =>
    obtain ⟨seq, entry, within⟩ := due
    exact ⟨seq, grows.registry.entry seq event entry within⟩

end Grows

theorem sendWire_frame {next : WireStore} {message : WireMessage}
    {receipts : List DeliveryReceipt} (sent : store.sendWire args minted = .ok (next, message, receipts)) :
    validate message = .ok () ∧ ∀ receipt ∈ receipts, receipt.messageId = message.id := by
  obtain ⟨registry, made, all, _⟩ := sendWire_ok sent
  refine ⟨(StoreGrows.compose_ok made).2, ?_⟩
  intro receipt mem
  rw [all] at mem
  obtain ⟨one, _, rfl⟩ := mem_map.mp mem
  rfl

theorem Bound.send (bound : Bound me other)
    (sent : me.send args minted = some next) : Bound next other := by
  unfold Party.send at sent
  split at sent
  · cases sent
  rename_i idle
  split at sent
  · cases sent
    exact bound
  rename_i store message receipts done
  cases sent
  have grows := StoreGrows.sendWire done
  refine { numbered := grows.numbered bound.numbered, messages := ?_, receipts := ?_, events := ?_, sound := bound.sound,
           frames := bound.frames, publishing := ?_ }
  · intro one mem
    rcases mem_append.mp mem with old | new
    · rcases bound.messages one old with settled | (due | flying) | ⟨_, now⟩
      · exact .inl settled
      · exact .inr (.inl (.inl (Phase.brings_grows grows due)))
      · exact .inr (.inl (.inr flying))
      · rw [idle] at now
        cases now
    · rw [mem_singleton.mp new]
      exact .inr (.inr ⟨receipts, rfl⟩)
  · intro one mem
    rcases mem_append.mp mem with old | new
    · rcases bound.receipts one old with settled | (due | flying) | ⟨_, _, now, _⟩
      · exact .inl settled
      · exact .inr (.inl (.inl (Phase.owes_grows grows due)))
      · exact .inr (.inl (.inr flying))
      · rw [idle] at now
        cases now
    · exact .inr (.inr ⟨message, receipts, rfl, new⟩)
  · intro event mem
    rcases bound.events event mem with known | due | flying
    · exact .inl known
    · exact .inr (.inl (Phase.tells_grows grows due))
    · exact .inr (.inr flying)
  · intro one list now
    cases now
    exact sendWire_frame done

theorem Bound.broadcast (bound : Bound me other) (sent : me.broadcast = some next)
    (carried : me.phase.isRegistered = false → ∀ message receipts, me.publishing = some (message, receipts) →
      Carried me other message receipts) : Bound next other := by
  unfold Party.broadcast at sent
  split at sent
  · cases sent
  rename_i message receipts now
  obtain ⟨valid, own⟩ := bound.publishing message receipts now
  have dropped : me.phase.isRegistered = false → Bound { me with publishing := none } other := by
    intro unregistered
    obtain ⟨settledMessage, settledReceipts⟩ := carried unregistered message receipts now
    refine { numbered := bound.numbered, messages := ?_, receipts := ?_, events := bound.events, sound := bound.sound,
             frames := bound.frames, publishing := fun _ _ none_ => by cases none_ }
    · intro one mem
      rcases bound.messages one mem with settled | onWay | ⟨list, same⟩
      · exact .inl settled
      · exact .inr (.inl onWay)
      · rw [now] at same
        cases same
        exact settledMessage.imp id .inl
    · intro one mem
      rcases bound.receipts one mem with settled | onWay | ⟨_, list, same, memList⟩
      · exact .inl settled
      · exact .inr (.inl onWay)
      · rw [now] at same
        cases same
        exact (settledReceipts one memList).imp id .inl
  split at sent
  · cases sent
    refine { numbered := bound.numbered, messages := ?_, receipts := ?_, events := ?_, sound := bound.sound, frames := ?_,
             publishing := fun _ _ none_ => by cases none_ }
    · intro one mem
      rcases bound.messages one mem with settled | (due | ⟨frame, memFrame, has⟩) | ⟨list, same⟩
      · exact .inl settled
      · exact .inr (.inl (.inl due))
      · exact .inr (.inl (.inr ⟨frame, mem_append_left _ memFrame, has⟩))
      · rw [now] at same
        cases same
        exact .inr (.inl (.inr ⟨_, mem_append_right _ mem_cons_self, _, mem_cons_self, rfl⟩))
    · intro one mem
      rcases bound.receipts one mem with settled | (due | ⟨frame, memFrame, carries⟩) | ⟨_, list, same, memList⟩
      · exact .inl settled
      · exact .inr (.inl (.inl due))
      · exact .inr (.inl (.inr ⟨frame, mem_append_left _ memFrame, carries⟩))
      rw [now] at same
      cases same
      exact .inr (.inl (.inr ⟨_, mem_append_right _ mem_cons_self, memList,
        .inr ⟨message, mem_cons_self, (own one memList).symm⟩⟩))
    · intro event mem
      rcases bound.events event mem with known | due | ⟨frame, memFrame, carries⟩
      · exact .inl known
      · exact .inr (.inl due)
      · exact .inr (.inr ⟨frame, mem_append_left _ memFrame, carries⟩)
    · intro frame mem one memOne
      rcases mem_append.mp mem with old | new
      · exact bound.frames frame old one memOne
      · rw [mem_singleton.mp new] at memOne
        rw [mem_singleton.mp memOne]
        exact valid
  · rename_i unregistered
    cases sent
    apply dropped
    cases phase : me.phase with
    | registered cursors => exact absurd phase (unregistered cursors)
    | _ => rfl

theorem mem_wireMessagesAfter (numbered : Numbered store) {id : MessageId} {cursor : Nat}
    (stored : (store.message? id).isSome = true) :
    (∃ seq : Nat, store.msgLog[seq]? = some id ∧ seq ≤ cursor) ∨ Has ((wireMessagesAfter store cursor).map Prod.snd) id := by
  obtain ⟨message, held⟩ := isSome_iff_exists.mp stored
  have same : message.id = id := messageKey_injective (numbered.filed.messages _ _ held)
  obtain ⟨seq, entry, _⟩ := numbered.logged held
  rw [same] at entry
  by_cases below : seq ≤ cursor
  · exact .inl ⟨seq, entry, below⟩
  refine .inr ⟨message, ?_, same⟩
  refine mem_map.mpr ⟨(seq, message), ?_, rfl⟩
  refine mem_filterMap.mpr ⟨(seq, id), mem_toList_iff_getElem?_eq_some.mpr entry, ?_⟩
  simp only [if_neg below, held, map_some]

theorem wireMessagesAfter_valid (numbered : Numbered store) (cursor : Nat) :
    ∀ message ∈ (wireMessagesAfter store cursor).map Prod.snd, validate message = .ok () := by
  intro message mem
  obtain ⟨row, memRow, rfl⟩ := mem_map.mp mem
  obtain ⟨entry, _, made⟩ := mem_filterMap.mp memRow
  split at made
  · cases made
  · obtain ⟨held, found, rfl⟩ := map_eq_some_iff.mp made
    exact numbered.valid _ held found

theorem mem_wireReceiptsAfter {cursor : Nat} (logged : Logged store receipt) :
    (∃ seq : Nat, store.rcptLog[seq]? = some receipt ∧ seq ≤ cursor) ∨
      receipt ∈ (wireReceiptsAfter store cursor).map Prod.snd := by
  obtain ⟨stored, seq, entry, _⟩ := logged
  by_cases below : seq ≤ cursor
  · exact .inl ⟨seq, entry, below⟩
  refine .inr (mem_map.mpr ⟨(seq, receipt), ?_, rfl⟩)
  refine mem_filter.mpr ⟨mem_toList_iff_getElem?_eq_some.mpr entry, ?_⟩
  simp [below, stored]

theorem mem_registryEventsAfter {registry : Registry} {cursor seq : Nat}
    (entry : registry.events[seq]? = some event) :
    seq ≤ cursor ∨ event ∈ (registry.registryEventsAfter cursor).map Prod.snd := by
  by_cases below : seq ≤ cursor
  · exact .inl below
  refine .inr (mem_map.mpr ⟨(seq, event), ?_, rfl⟩)
  refine mem_filter.mpr ⟨mem_toList_iff_getElem?_eq_some.mpr entry, ?_⟩
  simpa using below

theorem Bound.moved (bound : Bound me other) {outgoing : List PeerFrame}
    (messages : ∀ id, me.phase.brings me.store id →
      Settles other.store id ∨ MessageOnWay { me with phase, outgoing } id)
    (receipts : ∀ receipt, me.phase.owes me.store other.store receipt →
      SettlesReceipt other.store receipt ∨ ReceiptOnWay { me with phase, outgoing } other receipt)
    (events : ∀ event, me.phase.tells me.store event →
      KnowsEvent other.store event ∨ EventOnWay { me with phase, outgoing } event)
    (flying : ∀ frame ∈ me.outgoing, frame ∈ outgoing) (sound : ∀ message ∈ phase.messages, validate message = .ok ())
    (frames : ∀ frame ∈ outgoing, ∀ message ∈ frame.messages, validate message = .ok ()) :
    Bound { me with phase, outgoing } other where
  numbered := bound.numbered
  messages := by
    intro message mem
    rcases bound.messages message mem with settled | (due | ⟨frame, memFrame, has⟩) | now
    · exact .inl settled
    · exact (messages message.id due).imp id .inl
    · exact .inr (.inl (.inr ⟨frame, flying frame memFrame, has⟩))
    · exact .inr (.inr now)
  receipts := by
    intro receipt mem
    rcases bound.receipts receipt mem with settled | (due | ⟨frame, memFrame, has⟩) | now
    · exact .inl settled
    · exact (receipts receipt due).imp id .inl
    · exact .inr (.inl (.inr ⟨frame, flying frame memFrame, has⟩))
    · exact .inr (.inr now)
  events := by
    intro event mem
    rcases bound.events event mem with known | (due | ⟨frame, memFrame, has⟩)
    · exact .inl known
    · exact events event due
    · exact .inr (.inr ⟨frame, flying frame memFrame, has⟩)
  sound := sound
  frames := frames
  publishing := bound.publishing

theorem Bound.advance {me other : Party} (bound : Bound me other) (advanced : me.advance other = some next)
    (kept : ¬me.skips other) : Bound next other := by
  unfold Party.advance at advanced
  unfold Party.skips at kept
  -- Before the reads begin the phases owe the same.
  have early : ∀ phase : Phase, (∀ id, me.phase.brings me.store id → phase.brings me.store id) →
      (∀ receipt, me.phase.owes me.store other.store receipt → phase.owes me.store other.store receipt) →
      (∀ event, me.phase.tells me.store event → phase.tells me.store event) →
      (∀ message ∈ phase.messages, validate message = .ok ()) → Bound { me with phase } other := by
    intro phase brings owes tells sound
    exact bound.moved (fun id due => .inr (.inl (brings id due))) (fun receipt due => .inr (.inl (owes receipt due)))
      (fun event due => .inr (.inl (tells event due))) (fun _ mem => mem) sound bound.frames
  cases now : me.phase with
  | start | countedMessages msg | countedReceipts msg rcpt =>
    rw [now] at advanced
    cases advanced
    apply early <;> simp [now, Phase.brings, Phase.owes, Phase.tells, Phase.messages]
  | authed cursors =>
    rw [now] at advanced
    simp only at advanced
    split at advanced
    · cases advanced
    · cases advanced
      apply early <;> simp [now, Phase.brings, Phase.owes, Phase.tells, Phase.messages]
  | greeted cursors remote =>
    rw [now] at advanced kept
    cases advanced
    refine bound.moved ?_ ?_ ?_ (fun _ mem => mem) (by simp [Phase.messages]) bound.frames
    · intro id due
      rw [now] at due
      exact .inr (.inl due)
    · intro receipt due
      rw [now] at due
      exact .inr (.inl due)
    intro event due
    rw [now] at due
    obtain ⟨seq, entry, _⟩ := due
    rcases @mem_registryEventsAfter _ _ remote.agent _ entry with below | listed
    · refine .inl (by_contra fun unknown => kept ⟨seq, event, entry, below, unknown⟩)
    · exact .inr (.inl listed)
  | readEvents cursors remote events =>
    rw [now] at advanced kept
    cases advanced
    have read : ∀ id, (me.store.message? id).isSome = true →
        Settles other.store id ∨ Has ((wireMessagesAfter me.store remote.msg).map Prod.snd) id := by
      intro id stored
      rcases @mem_wireMessagesAfter _ bound.numbered _ remote.msg stored with ⟨seq, entry, below⟩ | has
      · exact .inl (by_contra fun open_ => kept ⟨seq, id, entry, below, stored, open_⟩)
      · exact .inr has
    refine bound.moved ?_ ?_ ?_ (fun _ mem => mem) (wireMessagesAfter_valid bound.numbered _) bound.frames
    · intro message due
      rw [now] at due
      exact (read message due).imp id .inl
    · intro receipt due
      rw [now] at due
      obtain ⟨logged, settled | stored⟩ := due
      · exact .inr (.inl ⟨logged, .inl settled⟩)
      · exact .inr (.inl ⟨logged, read receipt.messageId stored⟩)
    · intro event due
      rw [now] at due
      exact .inr (.inl due)
  | readMessages cursors remote events messages =>
    have sound := bound.sound
    rw [now] at advanced kept sound
    cases advanced
    refine bound.moved ?_ ?_ ?_ (fun _ mem => mem) sound bound.frames
    · intro id due
      rw [now] at due
      exact .inr (.inl due)
    · intro receipt due
      rw [now] at due
      obtain ⟨logged, message⟩ := due
      rcases @mem_wireReceiptsAfter _ _ remote.rcpt logged with ⟨seq, entry, below⟩ | listed
      · exact .inl (by_contra fun open_ => kept ⟨seq, receipt, entry, below, logged.1, open_⟩)
      · exact .inr (.inl ⟨listed, message⟩)
    · intro event due
      rw [now] at due
      exact .inr (.inl due)
  | readReceipts cursors batch =>
    have sound := bound.sound
    rw [now] at advanced sound
    cases advanced
    have last : PeerFrame.syncBatch batch ∈ me.outgoing ++ [.syncBatch batch] := mem_append_right _ mem_cons_self
    refine bound.moved ?_ ?_ ?_ (fun _ mem => mem_append_left _ mem) (by simp [Phase.messages]) ?_
    · intro id due
      rw [now] at due
      exact .inr (.inr ⟨_, last, due⟩)
    · intro receipt due
      rw [now] at due
      exact .inr (.inr ⟨_, last, due⟩)
    · intro event due
      rw [now] at due
      exact .inr (.inr ⟨_, last, due⟩)
    · intro frame mem message memMessage
      rcases mem_append.mp mem with old | new
      · exact bound.frames frame old message memMessage
      · rw [mem_singleton.mp new] at memMessage
        exact sound message memMessage
  | batched cursors =>
    rw [now] at advanced
    cases advanced
    apply early <;> simp [now, Phase.brings, Phase.owes, Phase.tells, Phase.messages]
  | registered cursors =>
    rw [now] at advanced
    cases advanced

def Link.Bound (link : Link) : Prop := Peer.Bound link.left link.right ∧ Peer.Bound link.right link.left

variable {action : Action}

variable {actions : List Action}

def Link.start (labels : Side → String) (stores : Side → WireStore) : Link where
  left := .start (labels .left) (stores .left)
  right := .start (labels .right) (stores .right)

def calm (link : Link) : Action → Bool
  | .advance side =>
    match (link.me side).phase with
    | .greeted _ remote => (link.me side).store.registry.events.toList.all fun row => remote.agent < row.1
    | .readEvents _ remote _ => (link.me side).store.msgLog.toList.all fun row => remote.msg < row.1
    | .readMessages _ remote _ _ => (link.me side).store.rcptLog.toList.all fun row => remote.rcpt < row.1
    | _ => true
  | .receive side =>
    match (link.other side).outgoing with
    | frame :: _ => ((link.me side).store.registry.importRegistryEvents (link.me side).label frame.events).isOk
    | [] => true
  | _ => false

/-- Each side counts, greets, reads, sends its batch and registers; then each takes in the other's batch. -/
def connection : List Action :=
  List.replicate 3 (.advance .left) ++ List.replicate 3 (.advance .right) ++ List.replicate 6 (.advance .left) ++
    List.replicate 6 (.advance .right) ++ [.receive .left, .receive .right]

def home : Side → String
  | .left => "left"
  | .right => "right"

def after (histories : Side → List Op) (side : Side) : WireStore := Inbox.run (home side) (histories side) (.empty Registry.empty)

end FerroLoop.Wire.Peer

import FerroLoop.Wire.Inbox.Growth
import FerroLoop.Wire.Peer.Link

namespace FerroLoop.Wire.Peer

open Inbox List

/-- The held receipt is at least as far as the other. -/
def Covers (held receipt : DeliveryReceipt) : Prop :=
  rank receipt.status ≤ rank held.status ∧ receipt.attempts ≤ held.attempts ∧ receipt.updatedAt ≤ held.updatedAt

def HoldsReceipt (store : WireStore) (receipt : DeliveryReceipt) : Prop :=
  ∃ held, store.inbox[inboxKey receipt.recipientId receipt.messageId]? = some held ∧ Covers held receipt

/-- The message is stored, or its id is taken by something else. -/
def Settles (store : WireStore) (id : MessageId) : Prop :=
  (store.message? id).isSome = true ∨ store.registry.free id = false

def SettlesReceipt (store : WireStore) (receipt : DeliveryReceipt) : Prop :=
  HoldsReceipt store receipt ∨ (store.message? receipt.messageId = none ∧ store.registry.free receipt.messageId = false)

def KnowsEvent (store : WireStore) (event : RegistryEvent) : Prop :=
  (store.registry.eventIds[event.eventId.text]?).isSome = true

def PeerFrame.messages : PeerFrame → List WireMessage
  | .syncBatch batch => batch.messages
  | .publish message _ => [message]

def PeerFrame.receipts : PeerFrame → List DeliveryReceipt
  | .syncBatch batch => batch.receipts
  | .publish _ receipts => receipts

def PeerFrame.events : PeerFrame → List RegistryEvent
  | .syncBatch batch => batch.registryEvents
  | .publish _ _ => []

def Has (messages : List WireMessage) (id : MessageId) : Prop := ∃ message ∈ messages, message.id = id

variable {receipt : DeliveryReceipt}

theorem Covers.merged {held : DeliveryReceipt} (incoming : DeliveryReceipt) (covers : Covers held receipt) :
    Covers (merge held incoming) receipt := by
  obtain ⟨status, attempts, time⟩ := covers
  refine ⟨?_, ?_, ?_⟩
  · show rank receipt.status ≤ rank (further held.status incoming.status)
    unfold further
    split <;> omega
  · show receipt.attempts ≤ max held.attempts incoming.attempts
    omega
  · show receipt.updatedAt.unixMillis ≤ (held.updatedAt.max incoming.updatedAt).unixMillis
    rw [At.max_unixMillis]
    exact Nat.le_trans time (Nat.le_max_left _ _)

theorem Covers.incoming (held receipt : DeliveryReceipt) : Covers (merge held receipt) receipt := by
  refine ⟨?_, ?_, ?_⟩
  · show rank receipt.status ≤ rank (further held.status receipt.status)
    unfold further
    split <;> omega
  · show receipt.attempts ≤ max held.attempts receipt.attempts
    omega
  · show receipt.updatedAt.unixMillis ≤ (held.updatedAt.max receipt.updatedAt).unixMillis
    rw [At.max_unixMillis]
    exact Nat.le_max_right _ _

theorem Covers.refl (receipt : DeliveryReceipt) : Covers receipt receipt :=
  ⟨Nat.le_refl _, Nat.le_refl _, Nat.le_refl receipt.updatedAt.unixMillis⟩

/-- Nothing that was held is lost, and no receipt falls back. -/
structure Gains (before after : WireStore) : Prop where
  grows : StoreGrows before after
  holds : ∀ receipt, HoldsReceipt before receipt → HoldsReceipt after receipt

variable {message : WireMessage} {receipts : List DeliveryReceipt}

namespace Gains

theorem refl (store : WireStore) : Gains store store := ⟨.refl store, fun _ held => held⟩

theorem trans {first second third : WireStore} (one : Gains first second) (two : Gains second third) : Gains first third :=
  ⟨one.grows.trans two.grows, fun receipt held => two.holds receipt (one.holds receipt held)⟩

variable {before after : WireStore}

theorem settles (gains : Gains before after) {id : MessageId} (settled : Settles before id) :
    Settles after id := by
  rcases settled with stored | taken
  · exact .inl (gains.grows.message id stored)
  · exact .inr (gains.grows.registry.taken id taken)

theorem settlesReceipt (gains : Gains before after)
    (settled : SettlesReceipt before receipt) : SettlesReceipt after receipt := by
  rcases settled with held | ⟨absent, taken⟩
  · exact .inl (gains.holds receipt held)
  · exact .inr ⟨gains.grows.refused _ absent taken, gains.grows.registry.taken _ taken⟩

theorem knows (gains : Gains before after) {event : RegistryEvent}
    (known : KnowsEvent before event) : KnowsEvent after event :=
  gains.grows.registry.known _ known

variable {store : WireStore}

theorem importItem (numbered : Numbered store) (item : Item) : Gains store (importItem store item) where
  grows := StoreGrows.importItem numbered item
  holds := by
    rintro receipt ⟨held, row, covers⟩
    exact importItem_row (Covers · receipt) (fun _ incoming covers => covers.merged incoming) item row covers

theorem importItems (numbered : Numbered store) (items : List Item) :
    Gains store (items.foldl Inbox.importItem store) := by
  induction items generalizing store with
  | nil => exact refl store
  | cons first rest ih =>
    have one := importItem numbered first
    exact one.trans (ih (one.grows.numbered numbered))

theorem importEvents (label : String) (events : List RegistryEvent) :
    Gains store (Inbox.apply label store (.importEvents events)) where
  grows := by
    exact StoreGrows.withRegistry store fun next done => (RegistryGrows.importRegistryEvents done).1
  holds := by
    rintro receipt ⟨held, row, covers⟩
    refine ⟨held, ?_, covers⟩
    simp only [Inbox.apply, withRegistry_inbox]
    exact row

theorem importBatch (numbered : Numbered store) (label : String) (batch : Batch) :
    Gains store (Inbox.apply label store (.importBatch batch)) := by
  simp only [Inbox.apply, importBatch_items]
  exact importItems numbered _

theorem processFrame (numbered : Numbered store) (label : String) (frame : PeerFrame) :
    Gains store (processFrame label store frame) := by
  cases frame with
  | syncBatch batch =>
    have events := @importEvents store label batch.registryEvents
    exact events.trans (importBatch (events.grows.numbered numbered) label _)
  | publish message receipts => exact importBatch numbered label _

theorem sendWire {next : WireStore} {args : SendWireArgs} {minted : Iri}
    (sent : store.sendWire args minted = .ok (next, message, receipts))
    (fresh : ∀ registry composed, compose store args minted = .ok (registry, composed) →
      ∀ one ∈ registry.recipients composed, store.inbox[inboxKey one.1 composed.id]? = none) : Gains store next where
  grows := StoreGrows.sendWire sent
  holds := by
    rintro receipt ⟨held, row, covers⟩
    obtain ⟨registry, made, all, rfl⟩ := sendWire_ok sent
    refine ⟨held, ?_, covers⟩
    rw [putAll_other, appendWireMessage_inbox]
    · exact row
    intro one mem same
    rw [all] at mem
    obtain ⟨recipient, memRecipient, rfl⟩ := mem_map.mp mem
    have absent := fresh registry message made recipient memRecipient
    rw [← same] at row
    rw [show store.inbox[inboxKey recipient.1 message.id]? = some held from row] at absent
    cases absent

end Gains

variable {store : WireStore}

theorem importItem_message_settles (among : List DeliveryReceipt)
    (valid : validate message = .ok ()) : Settles (importItem store (.message among message)) message.id := by
  rcases @importItem_message store among _ valid with ⟨there, same⟩ | ⟨_, taken, same⟩ | ⟨_, _, next, _, same⟩
  · rw [same]
    exact .inl there
  · rw [same]
    exact .inr taken
  rw [same]
  refine .inl ?_
  rw [storeMessage_message?, if_pos rfl]
  rfl

theorem importItem_receipt_settles
    (settled : Settles store receipt.messageId) : SettlesReceipt (importItem store (.receipt receipt)) receipt := by
  rcases importItem_receipt store receipt with ⟨absent, same⟩ | ⟨_, _, _, inbox⟩
  · rw [same]
    rcases settled with stored | taken
    · rw [absent] at stored
      cases stored
    · exact .inr ⟨absent, taken⟩
  · refine .inl ⟨_, by rw [inbox, if_pos rfl], ?_⟩
    cases store.inbox[inboxKey receipt.recipientId receipt.messageId]? with
    | none => exact Covers.refl receipt
    | some held => exact Covers.incoming held receipt

theorem importMessages_settle (among : List DeliveryReceipt) {messages : List WireMessage}
    (numbered : Numbered store) (valid : ∀ message ∈ messages, validate message = .ok ()) :
    ∀ message ∈ messages, Settles ((messages.map (.message among)).foldl importItem store) message.id := by
  induction messages generalizing store with
  | nil =>
    intro message mem
    cases mem
  | cons first rest ih =>
    have one := Gains.importItem numbered (.message among first)
    have validRest : ∀ message ∈ rest, validate message = .ok () := fun message mem => valid message (mem_cons_of_mem _ mem)
    intro message mem
    rcases mem_cons.mp mem with rfl | later
    · exact (Gains.importItems (one.grows.numbered numbered) _).settles
        (importItem_message_settles among (valid message mem_cons_self))
    · exact ih (one.grows.numbered numbered) validRest message later

theorem importReceipts_settle (numbered : Numbered store) :
    ∀ receipt ∈ receipts, Settles store receipt.messageId →
      SettlesReceipt ((receipts.map Item.receipt).foldl importItem store) receipt := by
  induction receipts generalizing store with
  | nil =>
    intro receipt mem
    cases mem
  | cons first rest ih =>
    have one := Gains.importItem numbered (.receipt first)
    intro receipt mem settled
    rcases mem_cons.mp mem with rfl | later
    · exact (Gains.importItems (one.grows.numbered numbered) _).settlesReceipt (importItem_receipt_settles settled)
    · exact ih (one.grows.numbered numbered) receipt later (one.settles settled)

theorem importBatch_settles (numbered : Numbered store) (label : String) {batch : Batch}
    (valid : ∀ message ∈ batch.messages, validate message = .ok ()) :
    (∀ message ∈ batch.messages, Settles (Inbox.apply label store (.importBatch batch)) message.id) ∧
    ∀ receipt ∈ batch.receipts, Settles store receipt.messageId ∨ Has batch.messages receipt.messageId →
      SettlesReceipt (Inbox.apply label store (.importBatch batch)) receipt := by
  simp only [Inbox.apply, importBatch_items, Batch.items, foldl_append]
  have first := Gains.importItems numbered (batch.messages.map (Item.message batch.receipts))
  have numberedFirst := first.grows.numbered numbered
  have messages := importMessages_settle batch.receipts numbered valid
  refine ⟨?_, ?_⟩
  · intro message mem
    exact (Gains.importItems numberedFirst _).settles (messages message mem)
  intro receipt mem settled
  apply importReceipts_settle numberedFirst receipt mem
  rcases settled with before | ⟨message, memMessage, same⟩
  · exact first.settles before
  · rw [← same]
    exact messages message memMessage

theorem processFrame_settles (numbered : Numbered store) {label : String} {frame : PeerFrame}
    (valid : ∀ message ∈ frame.messages, validate message = .ok ())
    (accepted : ∀ err, store.registry.importRegistryEvents label frame.events ≠ .error err) :
    (∀ message ∈ frame.messages, Settles (processFrame label store frame) message.id) ∧
    (∀ receipt ∈ frame.receipts, Settles store receipt.messageId ∨ Has frame.messages receipt.messageId →
      SettlesReceipt (processFrame label store frame) receipt) ∧
    ∀ event ∈ frame.events, KnowsEvent (processFrame label store frame) event := by
  cases frame with
  | publish message receipts =>
    obtain ⟨messages, rows⟩ := @importBatch_settles store numbered label ⟨[message], receipts⟩ valid
    refine ⟨messages, rows, ?_⟩
    intro event mem
    cases mem
  | syncBatch batch =>
    have events := @Gains.importEvents store label batch.registryEvents
    have numberedEvents := events.grows.numbered numbered
    obtain ⟨messages, rows⟩ := @importBatch_settles _ numberedEvents label ⟨batch.messages, batch.receipts⟩ valid
    refine ⟨messages, ?_, ?_⟩
    · intro receipt mem settled
      apply rows receipt mem
      rcases settled with before | here
      · exact .inl (events.settles before)
      · exact .inr here
    · intro event mem
      apply (Gains.importBatch numberedEvents label _).knows
      cases done : store.registry.importRegistryEvents label batch.registryEvents with
      | error err => exact absurd done (accepted err)
      | ok next =>
        simp only [Inbox.apply, KnowsEvent, done, WireStore.withRegistry]
        exact (RegistryGrows.importRegistryEvents done).2 event mem

end FerroLoop.Wire.Peer

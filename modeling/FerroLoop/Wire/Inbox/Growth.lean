import FerroLoop.Wire.Inbox.Acked

namespace FerroLoop.Wire.Inbox

open Checked Map WireStore Registry
open Agents (RegisterAgentArgs Minted)

open Store (BTreeMap)

def EventsNumbered (registry : Registry) : Prop :=
  (∀ (id : String) (seq : Nat), registry.eventIds[id]? = some seq → (registry.events[seq]?).isSome = true) ∧
  (∀ (seq : Nat) (event : RegistryEvent), registry.events[seq]? = some event → seq ≤ registry.nextAgentEvent ∧
    (registry.eventIds[event.eventId.text]?).isSome = true)

structure RegistryGrows (before after : Registry) : Prop where
  entry : ∀ (seq : Nat) (event : RegistryEvent), before.events[seq]? = some event → seq ≤ before.nextAgentEvent →
    after.events[seq]? = some event ∧ seq ≤ after.nextAgentEvent
  known : ∀ id : String, (before.eventIds[id]?).isSome = true → (after.eventIds[id]?).isSome = true
  numbered : EventsNumbered before → EventsNumbered after
  taken : ∀ id, before.free id = false → after.free id = false

variable {id : MessageId} {at_ : At}

namespace RegistryGrows

theorem refl (registry : Registry) : RegistryGrows registry registry :=
  ⟨fun _ _ held within => ⟨held, within⟩, fun _ held => held, fun numbered => numbered, fun _ held => held⟩

theorem trans {first second third : Registry} (one : RegistryGrows first second) (two : RegistryGrows second third) :
    RegistryGrows first third where
  entry := by
    intro seq event held within
    obtain ⟨next, bound⟩ := one.entry seq event held within
    exact two.entry seq event next bound
  known := fun id held => two.known id (one.known id held)
  numbered := fun numbered => two.numbered (one.numbered numbered)
  taken := fun id held => two.taken id (one.taken id held)

theorem quiet {before after : Registry} (events : after.events = before.events) (eventIds : after.eventIds = before.eventIds)
    (next : after.nextAgentEvent = before.nextAgentEvent) (taken : ∀ id, before.free id = false → after.free id = false) :
    RegistryGrows before after where
  entry := by
    intro seq event held within
    rw [events, next]
    exact ⟨held, within⟩
  known := by
    intro id held
    rw [eventIds]
    exact held
  numbered := by
    intro numbered
    unfold EventsNumbered
    rw [events, eventIds, next]
    exact numbered
  taken := taken

theorem append (registry : Registry) (event : RegistryEvent) : RegistryGrows registry (registry.appendRegistryEvent event) where
  entry := by
    intro seq held found within
    simp only [appendRegistryEvent, getElem?_insert]
    rw [if_neg (by omega)]
    exact ⟨found, by omega⟩
  known := by
    intro id held
    simp only [appendRegistryEvent, getElem?_insert]
    split
    · rfl
    · exact held
  numbered := by
    intro numbered
    refine ⟨?_, ?_⟩
    · intro id seq held
      simp only [appendRegistryEvent, getElem?_insert] at held ⊢
      split
      · rfl
      split at held
      · rename_i other _
        cases held
        exact absurd rfl other
      · exact numbered.1 id seq held
    · intro seq held found
      simp only [appendRegistryEvent, getElem?_insert] at found ⊢
      split at found
      · rename_i same
        cases found
        rw [if_pos rfl]
        exact ⟨by omega, rfl⟩
      · obtain ⟨within, known⟩ := numbered.2 seq held found
        refine ⟨by omega, ?_⟩
        split
        · rfl
        · exact known
  taken := fun _ held => held

theorem appendAll (events : List RegistryEvent) (registry : Registry) :
    RegistryGrows registry (events.foldl appendRegistryEvent registry) := by
  induction events generalizing registry with
  | nil => exact refl registry
  | cons first rest ih => exact (append registry first).trans (ih _)

theorem putAgent (registry : Registry) (agent : AgentRecord) : RegistryGrows registry (registry.putAgent agent) :=
  quiet rfl rfl rfl fun _ held => held

variable {next registry : Registry} {eventId : Iri} {mint : Minted Iri} {args : RegisterAgentArgs At}
  {label : String}

theorem indexNew {id : Iri} {kind : Kind} (indexed : registry.indexNew id kind = .ok next) :
    RegistryGrows registry next := by
  unfold Registry.indexNew at indexed
  split at indexed
  · cases indexed
  rename_i absent
  cases indexed
  refine quiet rfl rfl rfl ?_
  intro other held
  unfold free at held ⊢
  simp only [getElem?_insert]
  split
  · rename_i same
    rw [← same, Option.not_isSome_iff_eq_none.mp absent] at held
    cases held
  · exact held

theorem indexImported {kind : Kind} {id : Iri} (indexed : registry.indexImported kind id = .ok next) :
    RegistryGrows registry next := by
  unfold Registry.indexImported at indexed
  split at indexed
  · cases indexed
    exact refl _
  · split at indexed
    · cases indexed
    · cases indexed
      exact refl _
  · exact indexNew indexed

theorem indexMessageId (indexed : Inbox.indexMessageId registry id.iri = .ok next) :
    RegistryGrows registry next := by
  obtain ⟨_, _, _, free⟩ := indexMessageId_ok indexed
  have same : next.events = registry.events ∧ next.eventIds = registry.eventIds ∧
      next.nextAgentEvent = registry.nextAgentEvent := by
    unfold Inbox.indexMessageId at indexed
    split at indexed
    · cases indexed
    · split at indexed
      · cases indexed
      · cases indexed
        exact ⟨rfl, rfl, rfl⟩
    · cases indexed
      exact ⟨rfl, rfl, rfl⟩
  exact quiet same.1 same.2.1 same.2.2 fun other held => by rw [free]; exact held

theorem aliasUnpublished (registry : Registry) (oldId newId : Iri) :
    RegistryGrows registry (registry.aliasUnpublished .agent oldId newId) := by
  unfold Registry.aliasUnpublished
  split
  · exact refl registry
  refine quiet rfl rfl rfl ?_
  intro other held
  unfold free at held ⊢
  simp only [getElem?_insert]
  split
  · rfl
  · split
    · rfl
    · exact held

theorem upsertArea {area : AreaRecord}
    (done : registry.upsertArea area eventId = .ok next) : RegistryGrows registry next := by
  obtain ⟨norm, _, done⟩ := bind_ok done
  cases done
  exact (quiet rfl rfl rfl fun _ held => held : RegistryGrows registry (registry.putArea norm)).trans (append _ _)

variable {author : String}

theorem deleteArea {areaKey : String}
    (done : registry.deleteArea areaKey at_ author eventId = .ok next) : RegistryGrows registry next := by
  obtain ⟨key, _, done⟩ := bind_ok done
  split at done
  · cases done
    exact refl _
  · cases done
    exact (quiet rfl rfl rfl fun _ held => held :
      RegistryGrows registry { registry with areas := registry.areas.erase key }).trans (append _ _)

variable {events : List RegistryEvent}

theorem registerAreas {keys : List String}
    {pending : List RegistryEvent}
    (done : registerAreas args mint keys (registry, pending) = .ok (next, events)) : RegistryGrows registry next := by
  induction keys generalizing registry pending with
  | nil =>
    cases done
    exact refl _
  | cons first rest ih =>
    unfold registerAreas at done
    split at done
    · exact ih done
    split at done
    · cases done
    · exact (quiet rfl rfl rfl fun _ held => held :
        RegistryGrows registry (registry.putArea (Agents.registeredArea first args))).trans (ih done)

theorem takeLead
    {project nameKey : String} (done : registry.takeLead args mint project nameKey = .ok next) :
    RegistryGrows registry next := by
  unfold Registry.takeLead at done
  split at done
  · cases done
    exact refl _
  split at done
  · cases done
    exact refl _
  split at done
  · cases done
  · cases done
    exact (putAgent _ _).trans (append _ _)

variable {id : AgentId}

theorem registeredId {existing : Option AgentRecord}
    (done : registry.registeredId existing mint = .ok (next, id)) : RegistryGrows registry next := by
  unfold Registry.registeredId at done
  split at done
  · cases done
    exact refl _
  · obtain ⟨indexed, made, done⟩ := bind_ok done
    cases done
    exact indexNew made

variable {record : AgentRecord}

theorem registerAgent
    (done : registry.registerAgent args mint = .ok (next, record)) : RegistryGrows registry next := by
  obtain ⟨⟨nameKey, displayName, email⟩, _, done⟩ := bind_ok done
  obtain ⟨project, _, done⟩ := bind_ok done
  obtain ⟨areas, _, done⟩ := bind_ok done
  obtain ⟨⟨withAreas, pending⟩, made, done⟩ := bind_ok done
  have logged := (registerAreas made).trans (appendAll pending withAreas)
  obtain ⟨_, _, done⟩ := bind_ok done
  obtain ⟨led, lead, done⟩ := bind_ok done
  obtain ⟨⟨indexed, id⟩, named, done⟩ := bind_ok done
  cases done
  have named' : RegistryGrows indexed { indexed with agentByName := indexed.agentByName.insert nameKey id.iri } :=
    quiet rfl rfl rfl fun _ held => held
  exact logged.trans ((takeLead lead).trans ((registeredId named).trans (named'.trans ((putAgent _ _).trans (append _ _)))))

theorem retireAgent
    (done : registry.retireAgent label id at_ author eventId = .ok (next, record)) :
    RegistryGrows registry next := by
  obtain ⟨⟨resolved, kind⟩, _, done⟩ := bind_ok done
  simp only at done
  split at done
  · cases done
  split at done
  · cases done
  · cases done
    exact (putAgent _ _).trans (append _ _)

theorem putAgents (agents : List AgentRecord) (registry : Registry) :
    RegistryGrows registry (agents.foldl Registry.putAgent registry) := by
  induction agents generalizing registry with
  | nil => exact refl registry
  | cons first rest ih => exact (putAgent registry first).trans (ih _)

theorem takeName (registry : Registry) (agent : AgentRecord) : RegistryGrows registry (registry.takeName agent) := by
  unfold Registry.takeName
  split
  · exact refl registry
  · split
    · exact refl registry
    · exact (aliasUnpublished registry _ _).trans (quiet rfl rfl rfl fun _ held => held)

theorem retireLeads (registry : Registry) (agent : AgentRecord) : RegistryGrows registry (registry.retireLeads agent) := by
  unfold Registry.retireLeads
  split
  · exact putAgents _ registry
  · exact refl registry

variable {event : RegistryEvent}

theorem applyEvent
    (done : registry.applyEvent label event = .ok next) : RegistryGrows registry next := by
  unfold Registry.applyEvent at done
  split at done
  · obtain ⟨norm, _, done⟩ := bind_ok done
    cases done
    exact quiet rfl rfl rfl fun _ held => held
  · rename_i agent _
    obtain ⟨indexed, made, done⟩ := bind_ok done
    cases done
    have named : RegistryGrows indexed
        { indexed with agentByName := indexed.agentByName.insert agent.nameKey agent.id.iri } :=
      quiet rfl rfl rfl fun _ held => held
    exact (takeName registry agent).trans ((retireLeads _ agent).trans
      ((indexImported made).trans (named.trans (putAgent _ _))))
  · cases done
    exact quiet rfl rfl rfl fun _ held => held
  · obtain ⟨resolved, _, done⟩ := bind_ok done
    split at done
    · cases done
      exact refl _
    · cases done
      exact putAgent _ _

theorem importEvent
    (done : importEvent label registry event = .ok next) :
    RegistryGrows registry next ∧ (next.eventIds[event.eventId.text]?).isSome = true := by
  unfold Registry.importEvent at done
  split at done
  · rename_i seq known
    split at done
    · cases done
    split at done
    · cases done
    · cases done
      exact ⟨refl _, by rw [known]; rfl⟩
  · obtain ⟨applied, made, done⟩ := bind_ok done
    cases done
    refine ⟨(applyEvent made).trans (append _ _), ?_⟩
    simp [appendRegistryEvent]

theorem importRegistryEvents
    (done : registry.importRegistryEvents label events = .ok next) :
    RegistryGrows registry next ∧ ∀ event ∈ events, (next.eventIds[event.eventId.text]?).isSome = true := by
  unfold Registry.importRegistryEvents at done
  induction events generalizing registry with
  | nil =>
    cases done
    refine ⟨refl _, ?_⟩
    intro event mem
    cases mem
  | cons first rest ih =>
    obtain ⟨one, made, done⟩ := bind_ok done
    obtain ⟨grown, known⟩ := importEvent made
    obtain ⟨more, all⟩ := ih done
    refine ⟨grown.trans more, ?_⟩
    intro event mem
    rcases List.mem_cons.mp mem with rfl | later
    · exact more.known _ known
    · exact all event later

end RegistryGrows

structure Numbered (store : WireStore) : Prop where
  filed : Filed store
  valid : ∀ (key : String) (message : WireMessage), store.messages[key]? = some message → validate message = .ok ()
  counted : ∀ (key : String) (message : WireMessage), store.messages[key]? = some message →
    (store.msgSeq[key]?).isSome = true
  seqs : ∀ (key : String) (seq : Nat), store.msgSeq[key]? = some seq → seq ≤ store.nextWireMsgSeq ∧
    ∃ id, store.msgLog[seq]? = some id ∧ id.iri.text = key
  rows : ∀ (key : String) (receipt : DeliveryReceipt), store.inbox[key]? = some receipt →
    ∃ seq, store.rcptLog[seq]? = some receipt ∧ seq ≤ store.nextWireRcptSeq
  owned : ∀ (key : String) (receipt : DeliveryReceipt), store.inbox[key]? = some receipt →
    (store.message? receipt.messageId).isSome = true
  events : EventsNumbered store.registry

theorem Numbered.empty : Numbered (empty empty) where
  filed := Filed.empty _
  valid := fun key message held => by simp [WireStore.empty] at held
  counted := fun key message held => by simp [WireStore.empty] at held
  seqs := fun key seq held => by simp [WireStore.empty] at held
  rows := fun key receipt held => by simp [WireStore.empty] at held
  owned := fun key receipt held => by simp [WireStore.empty] at held
  events := by simp [EventsNumbered, WireStore.empty, Registry.empty]

variable {store : WireStore} {key : String}

theorem Numbered.logged (numbered : Numbered store) {message : WireMessage}
    (held : store.messages[key]? = some message) :
    ∃ seq, store.msgLog[seq]? = some message.id ∧ seq ≤ store.nextWireMsgSeq := by
  obtain ⟨seq, counted⟩ := Option.isSome_iff_exists.mp (numbered.counted key message held)
  obtain ⟨within, id, entry, same⟩ := numbered.seqs key seq counted
  rw [← numbered.filed.messages key message held] at same
  exact ⟨seq, by rw [← messageKey_injective same]; exact entry, within⟩

structure StoreGrows (before after : WireStore) : Prop where
  registry : RegistryGrows before.registry after.registry
  message : ∀ id, (before.message? id).isSome = true → (after.message? id).isSome = true
  msgEntry : ∀ (seq : Nat) (id : MessageId), before.msgLog[seq]? = some id → seq ≤ before.nextWireMsgSeq →
    after.msgLog[seq]? = some id ∧ seq ≤ after.nextWireMsgSeq
  rcptEntry : ∀ (seq : Nat) (receipt : DeliveryReceipt), before.rcptLog[seq]? = some receipt →
    seq ≤ before.nextWireRcptSeq → after.rcptLog[seq]? = some receipt ∧ seq ≤ after.nextWireRcptSeq
  refused : ∀ id, before.message? id = none → before.registry.free id = false → after.message? id = none
  numbered : Numbered before → Numbered after

namespace StoreGrows

theorem refl (store : WireStore) : StoreGrows store store where
  registry := .refl _
  message := fun _ held => held
  msgEntry := fun _ _ held within => ⟨held, within⟩
  rcptEntry := fun _ _ held within => ⟨held, within⟩
  refused := fun _ absent _ => absent
  numbered := fun numbered => numbered

theorem trans {first second third : WireStore} (one : StoreGrows first second) (two : StoreGrows second third) :
    StoreGrows first third where
  registry := one.registry.trans two.registry
  message := fun id held => two.message id (one.message id held)
  msgEntry := by
    intro seq id held within
    obtain ⟨next, bound⟩ := one.msgEntry seq id held within
    exact two.msgEntry seq id next bound
  rcptEntry := by
    intro seq receipt held within
    obtain ⟨next, bound⟩ := one.rcptEntry seq receipt held within
    exact two.rcptEntry seq receipt next bound
  refused := fun id absent taken => two.refused id (one.refused id absent taken) (one.registry.taken id taken)
  numbered := fun numbered => two.numbered (one.numbered numbered)

variable {store : WireStore} {next : Registry} {message : WireMessage}

theorem register (grown : RegistryGrows store.registry next) :
    StoreGrows store { store with registry := next } where
  registry := grown
  message := fun _ held => held
  msgEntry := fun _ _ held within => ⟨held, within⟩
  rcptEntry := fun _ _ held within => ⟨held, within⟩
  refused := fun _ absent _ => absent
  numbered := fun numbered =>
    { filed := ⟨numbered.filed.messages, numbered.filed.rows⟩, valid := numbered.valid, counted := numbered.counted,
      seqs := numbered.seqs, rows := numbered.rows, owned := numbered.owned, events := grown.numbered numbered.events }

theorem putReceipt {receipt : DeliveryReceipt}
    (own : key = inboxKey receipt.recipientId receipt.messageId) (stored : (store.message? receipt.messageId).isSome = true) :
    StoreGrows store (store.putReceipt key receipt) where
  registry := .refl _
  message := fun _ held => held
  msgEntry := fun _ _ held within => ⟨held, within⟩
  rcptEntry := by
    intro seq held found within
    simp only [WireStore.putReceipt, getElem?_insert]
    rw [if_neg (by omega)]
    exact ⟨found, by omega⟩
  refused := fun _ absent _ => absent
  numbered := fun numbered =>
    { filed := numbered.filed.putReceipt own, valid := numbered.valid, counted := numbered.counted, seqs := numbered.seqs
      events := numbered.events
      rows := by
        intro other held row
        simp only [WireStore.putReceipt, getElem?_insert] at row ⊢
        split at row
        · cases row
          exact ⟨_, if_pos rfl, Nat.le_refl _⟩
        · obtain ⟨seq, entry, within⟩ := numbered.rows other held row
          exact ⟨seq, by rw [if_neg (by omega)]; exact entry, by omega⟩
      owned := by
        intro other held row
        rcases insert_cases row with ⟨_, rfl⟩ | ⟨_, row⟩
        · exact stored
        · exact numbered.owned other held row }

theorem append (valid : validate message = .ok ())
    (free : store.registry.free message.id = true) : StoreGrows store (store.appendWireMessage message) where
  registry := by
    rw [appendWireMessage_registry]
    exact .refl _
  message := by
    intro id held
    unfold message?
    rw [appendWireMessage_messages, getElem?_insert]
    split
    · rfl
    · exact held
  msgEntry := by
    intro seq id held within
    simp only [appendWireMessage]
    split
    · exact ⟨held, within⟩
    · simp only [getElem?_insert]
      rw [if_neg (by omega)]
      exact ⟨held, by omega⟩
  rcptEntry := by
    intro seq receipt held within
    simp only [appendWireMessage]
    split <;> exact ⟨held, within⟩
  refused := by
    intro id absent taken
    unfold message?
    rw [appendWireMessage_messages, getElem?_insert]
    split
    · rename_i same
      rw [messageKey_injective same, taken] at free
      cases free
    · exact absent
  numbered := by
    intro numbered
    refine { filed := ?_, valid := ?_, counted := ?_, seqs := ?_, rows := ?_, owned := ?_, events := ?_ }
    · exact numbered.filed.append store.registry message
    · intro key found held
      rw [appendWireMessage_messages] at held
      rcases insert_cases held with ⟨_, rfl⟩ | ⟨_, held⟩
      · exact valid
      · exact numbered.valid key found held
    · intro key found held
      rw [appendWireMessage_messages, getElem?_insert] at held
      simp only [appendWireMessage]
      split
      · rename_i seq counted
        split at held
        · rename_i same
          rw [← same, counted]
          rfl
        · exact numbered.counted key found held
      · simp only [getElem?_insert]
        split
        · rfl
        · rename_i other
          rw [if_neg other] at held
          exact numbered.counted key found held
    · intro key seq held
      simp only [appendWireMessage] at held ⊢
      split
      · rename_i counted
        rw [counted] at held
        exact numbered.seqs key seq held
      rename_i counted
      rw [counted] at held
      simp only [getElem?_insert] at held ⊢
      split at held
      · rename_i same
        cases held
        exact ⟨Nat.le_refl _, message.id, if_pos rfl, same⟩
      · obtain ⟨within, id, entry, same⟩ := numbered.seqs key seq held
        exact ⟨by omega, id, by rw [if_neg (by omega)]; exact entry, same⟩
    · intro key receipt row
      rw [appendWireMessage_inbox] at row
      obtain ⟨seq, entry, within⟩ := numbered.rows key receipt row
      simp only [appendWireMessage]
      split <;> exact ⟨seq, entry, within⟩
    · intro key receipt row
      rw [appendWireMessage_inbox] at row
      unfold message?
      rw [appendWireMessage_messages, getElem?_insert]
      split
      · rfl
      · exact numbered.owned key receipt row
    · rw [appendWireMessage_registry]
      exact numbered.events

theorem openAll (among : List DeliveryReceipt) (list : List (Iri × String))
    (stored : (store.message? message.id).isSome = true) :
    StoreGrows store (list.foldl (openReceipt among message) store) := by
  induction list generalizing store with
  | nil => exact refl store
  | cons first rest ih =>
    have one : StoreGrows store (store.openReceipt among message first) := by
      simp only [openReceipt]
      split
      · exact putReceipt rfl stored
      · exact refl store
    exact one.trans (ih (one.message _ stored))

theorem storeMessage {among : List DeliveryReceipt}
    (valid : validate message = .ok ()) (indexed : indexMessageId store.registry message.id.iri = .ok next) :
    StoreGrows store (store.storeMessage among next message) := by
  obtain ⟨free, _, _, frees⟩ := indexMessageId_ok indexed
  have registered := @register store _ (RegistryGrows.indexMessageId indexed)
  have appended : StoreGrows { store with registry := next } ({ store with registry := next }.appendWireMessage message) :=
    append valid ((frees message.id).trans free)
  refine registered.trans (appended.trans (openAll among _ ?_))
  unfold message?
  rw [appendWireMessage_messages]
  simp

theorem importItem (numbered : Numbered store) (item : Item) : StoreGrows store (importItem store item) := by
  cases item with
  | message among message =>
    rcases judged : validate message with err | _
    · simpa only [Inbox.importItem, importMessage, judged] using refl store
    rcases @importItem_message store among _ judged with ⟨_, same⟩ | ⟨_, _, same⟩ | ⟨_, _, next, indexed, same⟩
    · rw [same]
      exact refl store
    · rw [same]
      exact refl store
    · rw [same]
      exact storeMessage judged indexed
  | receipt receipt =>
    simp only [Inbox.importItem, importReceipt]
    rcases known : store.message? receipt.messageId with _ | message
    · exact refl store
    have stored : (store.message? receipt.messageId).isSome = true := by
      rw [known]
      rfl
    rcases held : store.inbox[inboxKey receipt.recipientId receipt.messageId]? with _ | existing
    · exact putReceipt rfl stored
    simp only
    split
    · exact putReceipt (numbered.filed.rows _ existing held) (numbered.owned _ existing held)
    · exact refl store

theorem importItems (numbered : Numbered store) (items : List Item) :
    StoreGrows store (items.foldl Inbox.importItem store) := by
  induction items generalizing store with
  | nil => exact refl store
  | cons first rest ih =>
    have one := importItem numbered first
    exact one.trans (ih (one.numbered numbered))

variable {args : SendWireArgs} {minted : Iri}

theorem compose_ok {registry : Registry}
    (made : compose store args minted = .ok (registry, message)) :
    indexMessageId store.registry message.id.iri = .ok registry ∧ validate message = .ok () := by
  obtain ⟨subject, _, made⟩ := bind_ok made
  obtain ⟨body, _, made⟩ := bind_ok made
  obtain ⟨senderName, _, made⟩ := bind_ok made
  obtain ⟨⟨parentThread, correlationId⟩, _, made⟩ := bind_ok made
  simp only at made
  split at made
  · cases made
  rename_i indexed
  obtain ⟨_, judged, made⟩ := bind_ok made
  obtain ⟨_, _, made⟩ := bind_ok made
  cases made
  exact ⟨indexed, mapError_ok judged⟩

variable {receipts : List DeliveryReceipt}

theorem putAll (own : ∀ receipt ∈ receipts, receipt.messageId = id)
    (stored : (store.message? id).isSome = true) :
    StoreGrows store
      (receipts.foldl (fun done receipt => done.putReceipt (inboxKey receipt.recipientId id) receipt) store) := by
  induction receipts generalizing store with
  | nil => exact refl store
  | cons first rest ih =>
    have same := own first List.mem_cons_self
    have one : StoreGrows store (store.putReceipt (inboxKey first.recipientId id) first) :=
      putReceipt (by rw [same]) (by rw [same]; exact stored)
    exact one.trans (ih (fun receipt mem => own receipt (List.mem_cons_of_mem _ mem)) stored)

theorem sendWire {next : WireStore}
    (sent : store.sendWire args minted = .ok (next, message, receipts)) :
    StoreGrows store next := by
  obtain ⟨registry, made, all, rfl⟩ := sendWire_ok sent
  obtain ⟨indexed, valid⟩ := compose_ok made
  obtain ⟨free, _, _, frees⟩ := indexMessageId_ok indexed
  have registered := @register store _ (RegistryGrows.indexMessageId indexed)
  have appended : StoreGrows { store with registry } ({ store with registry }.appendWireMessage message) :=
    append valid ((frees message.id).trans free)
  refine registered.trans (appended.trans (putAll ?_ ?_))
  · intro receipt mem
    rw [all] at mem
    obtain ⟨one, _, rfl⟩ := List.mem_map.mp mem
    rfl
  · unfold message?
    rw [appendWireMessage_messages]
    simp

theorem update {next : WireStore} (numbered : Numbered store) {label : String} {recipient : String}
    {status : DeliveryStatus} {incrementAttempts : Bool} {result : Option DeliveryReceipt}
    (done : store.updateWireReceipt label id recipient status incrementAttempts at_ = .ok (next, result)) :
    StoreGrows store next := by
  rcases updateWireReceipt_ok done with ⟨rfl, _⟩ | ⟨owner, existing, row, rfl, _⟩
  · exact refl _
  · exact putReceipt (numbered.filed.rows _ existing row) (numbered.owned _ existing row)

theorem withRegistry (store : WireStore) {result : Except StoreError Registry}
    (grown : ∀ next, result = .ok next → RegistryGrows store.registry next) : StoreGrows store (store.withRegistry result) := by
  unfold WireStore.withRegistry
  split
  · exact register (grown _ rfl)
  · exact refl store

theorem mapped {result : Except StoreError (Registry × AgentRecord)}
    (done : result.map Prod.fst = .ok next) : ∃ record, result = .ok (next, record) := by
  cases result with
  | error err => cases done
  | ok pair =>
    cases done
    exact ⟨pair.2, rfl⟩

theorem pushes (numbered : Numbered store) (label : String) (id : MessageId) (vendors : Vendors) (now : At)
    (entries : List (DeliveryReceipt × Nat)) :
    StoreGrows store (entries.foldl (recordPush label id vendors now) store) := by
  induction entries generalizing store with
  | nil => exact refl store
  | cons first rest ih =>
    have one : StoreGrows store (store.recordPush label id vendors now first) := by
      simp only [recordPush]
      split
      · rename_i done
        exact update numbered done
      · exact refl store
    exact one.trans (ih (one.numbered numbered))

theorem apply (numbered : Numbered store) (label : String) (op : Op) :
    StoreGrows store (apply label store op) := by
  cases op with
  | send args minted =>
    simp only [Inbox.apply]
    split
    · rename_i sent
      exact sendWire sent
    · exact refl store
  | importBatch batch =>
    simp only [Inbox.apply, importBatch_items]
    exact importItems numbered _
  | update id recipient status incrementAttempts at_ =>
    simp only [Inbox.apply]
    split
    · rename_i done
      exact update numbered done
    · exact refl store
  | dispatch id recipient vendors now =>
    simp only [Inbox.apply, dispatchMessageSelected]
    split
    · exact refl store
    · exact pushes numbered label id vendors now _
  | upsertArea area eventId =>
    simp only [Inbox.apply]
    exact withRegistry store fun next done => RegistryGrows.upsertArea done
  | deleteArea areaKey at_ author eventId =>
    exact withRegistry store fun next done => RegistryGrows.deleteArea done
  | registerAgent args mint =>
    simp only [Inbox.apply]
    refine withRegistry store ?_
    intro next done
    obtain ⟨record, made⟩ := mapped done
    exact RegistryGrows.registerAgent made
  | retireAgent id at_ author eventId =>
    refine withRegistry store ?_
    intro next done
    obtain ⟨record, made⟩ := mapped done
    exact RegistryGrows.retireAgent made
  | importEvents events =>
    exact withRegistry store fun next done => (RegistryGrows.importRegistryEvents done).1

end StoreGrows

theorem run_numbered (label : String) (ops : List Op) (numbered : Numbered store) :
    Numbered (run label ops store) := by
  induction ops generalizing store with
  | nil => exact numbered
  | cons op rest ih => exact ih ((StoreGrows.apply numbered label op).numbered numbered)

theorem run_grows (label : String) (ops : List Op) {store : WireStore} (numbered : Numbered store) :
    StoreGrows store (run label ops store) := by
  induction ops generalizing store with
  | nil => exact .refl store
  | cons op rest ih =>
    have grown := StoreGrows.apply numbered label op
    exact grown.trans (ih (grown.numbered numbered))

/-- Whatever a store did, its logs only grow: what has a number keeps it, and what is stored is valid, numbered and
belongs to a message that is stored. -/
theorem history_append_only (label : String) (ops more : List Op) :
    Numbered (run label (ops ++ more) (.empty .empty)) ∧
      StoreGrows (run label ops (.empty .empty)) (run label (ops ++ more) (.empty .empty)) := by
  refine ⟨run_numbered label _ .empty, ?_⟩
  unfold run
  rw [List.foldl_append]
  exact run_grows label more (run_numbered label ops .empty)

end FerroLoop.Wire.Inbox

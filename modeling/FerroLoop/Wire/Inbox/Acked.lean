import FerroLoop.Lib.Search
import FerroLoop.Wire.Inbox.Holdings
import FerroLoop.Wire.Inbox.Mailbox

namespace FerroLoop.Wire.Inbox

open List hiding getElem?_insert
open Text Checked Map WireStore
open Agents (RegisterAgentArgs Minted)
open Store (BTreeMap)

inductive Op where
  | send (args : SendWireArgs) (minted : Iri)
  | importBatch (batch : Batch)
  | upsertArea (area : AreaRecord) (eventId : Iri)
  | deleteArea (areaKey : String) (at_ : At) (author : String) (eventId : Iri)
  | registerAgent (args : RegisterAgentArgs At) (mint : Minted Iri)
  | retireAgent (id : AgentId) (at_ : At) (author : String) (eventId : Iri)
  | importEvents (events : List RegistryEvent)
  | update (id : MessageId) (recipient : String) (status : DeliveryStatus) (incrementAttempts : Bool) (at_ : At)
  | dispatch (id : MessageId) (recipient : Option String) (vendors : Vendors) (now : At)

def WireStore.withRegistry (store : WireStore) (result : Except StoreError Registry) : WireStore :=
  match result with
  | .ok registry => { store with registry }
  | .error _ => store

def apply (label : String) (store : WireStore) : Op → WireStore
  | .send args minted =>
    match store.sendWire args minted with
    | .ok (next, _) => next
    | .error _ => store
  | .importBatch batch => Inbox.importBatch store batch
  | .upsertArea area eventId => store.withRegistry (store.registry.upsertArea area eventId)
  | .deleteArea areaKey at_ author eventId => store.withRegistry (store.registry.deleteArea areaKey at_ author eventId)
  | .registerAgent args mint => store.withRegistry ((store.registry.registerAgent args mint).map Prod.fst)
  | .retireAgent id at_ author eventId =>
    store.withRegistry ((store.registry.retireAgent label id at_ author eventId).map Prod.fst)
  | .importEvents events => store.withRegistry (store.registry.importRegistryEvents label events)
  | .update id recipient status incrementAttempts at_ =>
    match store.updateWireReceipt label id recipient status incrementAttempts at_ with
    | .ok (next, _) => next
    | .error _ => store
  | .dispatch id recipient vendors now => (store.dispatchMessageSelected label id recipient vendors now).1

def run (label : String) (ops : List Op) (store : WireStore) : WireStore := ops.foldl (apply label) store

def isFor (registry : Registry) (label recipient : String) (receipt : DeliveryReceipt) : Bool :=
  match recipientCandidates registry label recipient with
  | .error _ => false
  | .ok candidates =>
    match receiptMatchesResolving registry label receipt candidates recipient with
    | .ok matched => matched
    | .error _ => false

def Over (label : String) (id : MessageId) (recipient : String) (store : WireStore) : Prop :=
  (∀ filter items, filter.recipient = some recipient → filter.unreadOnly = true →
    store.listWireInbox label filter = .ok items → ∀ item ∈ items, item.message.id ≠ id) ∧
  ∀ selected vendors now, ∀ pushed ∈ (store.dispatchMessageSelected label id selected vendors now).2,
    isFor store.registry label recipient pushed = false

def aboutMessage (id : MessageId) (key : String) : Bool := ('\u001f' :: id.iri.text.toList).isSuffixOf key.toList

def Sole (label : String) (id : MessageId) (recipient : String) (receipt : DeliveryReceipt) (store : WireStore) : Prop :=
  ∀ entry ∈ store.inbox.toList, aboutMessage id entry.1 = true → settled entry.2.status = false →
    isFor store.registry label recipient entry.2 = true →
      entry.2.recipientId = receipt.recipientId ∧ entry.2.messageId = receipt.messageId

def Spares (receipt : DeliveryReceipt) (store : WireStore) : Op → Prop
  | .send args minted =>
    match compose store args minted with
    | .ok (registry, message) =>
      ∀ one ∈ registry.recipients message, inboxKey one.1 message.id ≠ inboxKey receipt.recipientId receipt.messageId
    | .error _ => True
  | _ => True

def Spared (label : String) (receipt : DeliveryReceipt) : WireStore → List Op → Prop
  | _, [] => True
  | store, op :: rest => Spares receipt store op ∧ Spared label receipt (apply label store op) rest

theorem pair_toList (a b : String) : (pair a b).toList = a.toList ++ '\u001f' :: b.toList := by
  simp [pair]

theorem aboutMessage_pair (owner : String) (id : MessageId) : aboutMessage id (pair owner id.iri.text) = true := by
  rw [aboutMessage, pair_toList, isSuffixOf_iff_suffix]
  exact suffix_append _ _

variable {row : Row} {store next : WireStore} {id : MessageId} {label recipient key : String} {at_ : At}
  {result : Option DeliveryReceipt} {status : DeliveryStatus} {incrementAttempts : Bool}
  {receipt held : DeliveryReceipt}

theorem inboxRow_key {entry : String × DeliveryReceipt} (read : inboxRow entry = .ok row) :
    entry.1 = pair row.recipient row.message ∧ entry.2 = row.receipt := by
  unfold inboxRow at read
  unfold splitOnce at read
  rcases split : splitAtFirst "\u001f".toList entry.1.toList with _ | ⟨before, after⟩
  · rw [split] at read
    cases read
  rw [split] at read
  cases read
  refine ⟨?_, rfl⟩
  apply String.toList_injective
  rw [pair_toList, (splitAtFirst_first split).whole]
  simp

variable {rows : List Row}

theorem inboxRows_mem (read : store.inboxRows = .ok rows)
    (mem : row ∈ rows) : store.inbox[pair row.recipient row.message]? = some row.receipt := by
  obtain ⟨entry, memEntry, found⟩ := mapM_ok read row mem
  obtain ⟨key, receipt⟩ := inboxRow_key found
  rw [← key, ← receipt]
  exact Std.ExtTreeMap.mem_toList_iff_getElem?_eq_some.mp memEntry

theorem matchedRow_some {registry : Registry} {candidates : Candidates}
    (found : matchedRow registry label id recipient candidates rows = .ok (some row)) :
    row ∈ rows ∧ row.message = id.iri.text := by
  induction rows with
  | nil => cases found
  | cons first rest ih =>
    unfold matchedRow at found
    have later : matchedRow registry label id recipient candidates rest = .ok (some row) →
        row ∈ first :: rest ∧ row.message = id.iri.text := by
      intro tail
      exact ⟨mem_cons_of_mem _ (ih tail).1, (ih tail).2⟩
    split at found
    · exact later found
    rename_i same
    obtain ⟨matched, _, found⟩ := bind_ok found
    cases matched with
    | false => exact later found
    | true =>
      cases found
      exact ⟨mem_cons_self, Decidable.not_not.mp same⟩

theorem updateWireReceipt_ok
    (done : store.updateWireReceipt label id recipient status incrementAttempts at_ = .ok (next, result)) :
    (next = store ∧ result = none) ∨
      ∃ owner existing, store.inbox[pair owner id.iri.text]? = some existing ∧
        next = store.putReceipt (pair owner id.iri.text) (updatedReceipt existing status incrementAttempts at_) ∧
        result = some (updatedReceipt existing status incrementAttempts at_) := by
  unfold updateWireReceipt at done
  split at done
  · cases done
  obtain ⟨candidates, _, done⟩ := bind_ok done
  obtain ⟨rows, read, done⟩ := bind_ok done
  obtain ⟨matched, found, done⟩ := bind_ok done
  rcases matched with _ | row
  · cases done
    exact .inl ⟨rfl, rfl⟩
  cases done
  obtain ⟨mem, same⟩ := matchedRow_some found
  refine .inr ⟨row.recipient, row.receipt, ?_, rfl, rfl⟩
  rw [← same]
  exact inboxRows_mem read mem

theorem putAll_frame (id : MessageId) (receipts : List DeliveryReceipt) (store : WireStore) :
    let after := receipts.foldl (fun done receipt => done.putReceipt (inboxKey receipt.recipientId id) receipt) store
    after.registry = store.registry ∧ after.messages = store.messages ∧
      ∀ key receipt, after.inbox[key]? = some receipt → store.inbox[key]? = some receipt ∨
        receipt ∈ receipts ∧ key = inboxKey receipt.recipientId id := by
  induction receipts generalizing store with
  | nil => exact ⟨rfl, rfl, fun _ _ held => .inl held⟩
  | cons first rest ih =>
    obtain ⟨registry, messages, rows⟩ := ih (store.putReceipt (inboxKey first.recipientId id) first)
    refine ⟨registry, messages, ?_⟩
    intro key receipt held
    rcases rows key receipt held with before | ⟨mem, same⟩
    · rcases insert_cases before with ⟨here, rfl⟩ | ⟨_, before⟩
      · exact .inr ⟨mem_cons_self, here.symm⟩
      · exact .inl before
    · exact .inr ⟨mem_cons_of_mem _ mem, same⟩

theorem putAll_other (id : MessageId) (receipts : List DeliveryReceipt) (store : WireStore)
    (other : ∀ receipt ∈ receipts, inboxKey receipt.recipientId id ≠ key) :
    (receipts.foldl (fun done receipt => done.putReceipt (inboxKey receipt.recipientId id) receipt) store).inbox[key]? =
      store.inbox[key]? := by
  induction receipts generalizing store with
  | nil => rfl
  | cons first rest ih =>
    rw [foldl_cons, ih _ fun receipt mem => other receipt (mem_cons_of_mem _ mem)]
    simp only [putReceipt, getElem?_insert, if_neg (other first mem_cons_self)]

theorem sendWire_ok {args : SendWireArgs} {minted : Iri} {message : WireMessage}
    {receipts : List DeliveryReceipt} (sent : store.sendWire args minted = .ok (next, message, receipts)) :
    ∃ registry, compose store args minted = .ok (registry, message) ∧
      receipts = (registry.recipients message).map (pendingReceipt message) ∧
      next = receipts.foldl (fun done receipt => done.putReceipt (inboxKey receipt.recipientId message.id) receipt)
        ({ store with registry }.appendWireMessage message) := by
  obtain ⟨⟨registry, composed⟩, made, sent⟩ := bind_ok sent
  cases sent
  exact ⟨registry, made, rfl, rfl⟩

structure Filed (store : WireStore) : Prop where
  messages : ∀ (key : String) (message : WireMessage), store.messages[key]? = some message → message.id.iri.text = key
  rows : ∀ (key : String) (receipt : DeliveryReceipt), store.inbox[key]? = some receipt → key = inboxKey receipt.recipientId receipt.messageId

theorem Filed.putReceipt (filed : Filed store)
    (own : key = inboxKey receipt.recipientId receipt.messageId) : Filed (store.putReceipt key receipt) where
  messages := filed.messages
  rows := by
    intro other held row
    rcases insert_cases row with ⟨here, rfl⟩ | ⟨_, row⟩
    · exact here.symm.trans own
    · exact filed.rows other held row

theorem Filed.append (filed : Filed store) (registry : Registry) (message : WireMessage) :
    Filed ({ store with registry }.appendWireMessage message) where
  messages := by
    intro key found held
    rw [appendWireMessage_messages] at held
    rcases insert_cases held with ⟨here, rfl⟩ | ⟨_, held⟩
    · exact here
    · exact filed.messages key found held
  rows := by
    intro key receipt held
    rw [appendWireMessage_inbox] at held
    exact filed.rows key receipt held

theorem Filed.openAll (filed : Filed store) (among : List DeliveryReceipt) (message : WireMessage)
    (list : List (Iri × String)) : Filed (list.foldl (openReceipt among message) store) := by
  induction list generalizing store with
  | nil => exact filed
  | cons first rest ih =>
    apply ih
    simp only [openReceipt]
    split
    · exact filed.putReceipt rfl
    · exact filed

theorem Filed.importItem (filed : Filed store) (item : Item) : Filed (importItem store item) := by
  cases item with
  | message among message =>
    rcases judged : validate message with err | _
    · simpa only [Inbox.importItem, importMessage, judged] using filed
    rcases @importItem_message store among _ judged with ⟨_, same⟩ | ⟨_, _, same⟩ | ⟨_, _, next, _, same⟩
    · rw [same]
      exact filed
    · rw [same]
      exact filed
    · rw [same]
      exact (filed.append next message).openAll among message _
  | receipt receipt =>
    simp only [Inbox.importItem, importReceipt]
    rcases store.message? receipt.messageId with _ | message
    · exact filed
    rcases held : store.inbox[inboxKey receipt.recipientId receipt.messageId]? with _ | existing
    · exact filed.putReceipt rfl
    simp only
    split
    · exact filed.putReceipt (filed.rows _ existing held)
    · exact filed

variable {store : WireStore}

section

variable (filed : Filed store)

include filed

theorem Filed.items (items : List Item) : Filed (items.foldl Inbox.importItem store) := by
  induction items generalizing store with
  | nil => exact filed
  | cons first rest ih => exact ih (filed.importItem first)

theorem Filed.update
    (done : store.updateWireReceipt label id recipient status incrementAttempts at_ = .ok (next, result)) : Filed next := by
  rcases updateWireReceipt_ok done with ⟨rfl, _⟩ | ⟨owner, existing, row, rfl, _⟩
  · exact filed
  · exact filed.putReceipt (filed.rows _ existing row)

theorem Filed.withRegistry (result : Except StoreError Registry) : Filed (store.withRegistry result) := by
  unfold WireStore.withRegistry
  split
  · exact ⟨filed.messages, filed.rows⟩
  · exact filed

theorem Filed.push (label : String) (id : MessageId) (vendors : Vendors) (now : At)
    (entry : DeliveryReceipt × Nat) : Filed (store.recordPush label id vendors now entry) := by
  simp only [recordPush]
  split
  · rename_i done
    exact filed.update done
  · exact filed

theorem Filed.apply (label : String) (op : Op) : Filed (apply label store op) := by
  cases op with
  | send args minted =>
    simp only [Inbox.apply]
    split
    · rename_i next result sent
      obtain ⟨message, receipts⟩ := result
      obtain ⟨registry, _, all, rfl⟩ := sendWire_ok sent
      have appended := filed.append registry message
      obtain ⟨_, messages, rows⟩ := putAll_frame message.id receipts ({ store with registry }.appendWireMessage message)
      refine ⟨?_, ?_⟩
      · rw [messages]
        exact appended.messages
      intro key receipt held
      rcases rows key receipt held with before | ⟨mem, same⟩
      · exact appended.rows key receipt before
      · rw [all] at mem
        obtain ⟨one, _, rfl⟩ := mem_map.mp mem
        exact same
    · exact filed
  | importBatch batch =>
    simp only [Inbox.apply, importBatch_items]
    exact filed.items _
  | update id recipient status incrementAttempts at_ =>
    simp only [Inbox.apply]
    split
    · rename_i done
      exact filed.update done
    · exact filed
  | dispatch id recipient vendors now =>
    simp only [Inbox.apply, dispatchMessageSelected]
    split
    · exact filed
    rename_i entries _
    show Filed (entries.foldl (recordPush label id vendors now) store)
    clear * - filed
    induction entries generalizing store with
    | nil => exact filed
    | cons first rest ih => exact ih (filed.push label id vendors now first)
  | upsertArea area eventId =>
    simp only [Inbox.apply]
    exact filed.withRegistry _
  | deleteArea areaKey at_ author eventId =>
    exact filed.withRegistry _
  | registerAgent args mint =>
    simp only [Inbox.apply]
    exact filed.withRegistry _
  | retireAgent id at_ author eventId | importEvents events =>
    exact filed.withRegistry _

end

theorem Filed.empty (registry : Registry) : Filed (empty registry) where
  messages := fun key message held => by simp [WireStore.empty] at held
  rows := fun key receipt held => by simp [WireStore.empty] at held

theorem Filed.run (filed : Filed store) (label : String) (ops : List Op) : Filed (run label ops store) := by
  induction ops generalizing store with
  | nil => exact filed
  | cons op rest ih => exact ih (filed.apply label op)

theorem merge_acked (held incoming : DeliveryReceipt) (acked : held.status = .acked) :
    (merge held incoming).status = .acked := by
  have top : rank incoming.status ≤ rank held.status := by
    rw [acked]
    cases incoming.status <;> decide
  show (if rank incoming.status ≤ rank held.status then held.status else incoming.status) = .acked
  rw [if_pos top, acked]

theorem updateWireReceipt_acked
    (done : store.updateWireReceipt label id recipient status incrementAttempts at_ = .ok (next, result))
    (row : store.inbox[key]? = some held) (acked : held.status = .acked) :
    ∃ after, next.inbox[key]? = some after ∧ after.status = .acked := by
  rcases updateWireReceipt_ok done with ⟨rfl, _⟩ | ⟨owner, existing, found, rfl, _⟩
  · exact ⟨held, row, acked⟩
  simp only [putReceipt, getElem?_insert]
  split
  · rename_i here
    rw [here, row] at found
    cases found
    exact ⟨_, rfl, merge_acked held _ acked⟩
  · exact ⟨held, row, acked⟩

theorem recordPush_acked (label : String) (id : MessageId) (vendors : Vendors) (now : At)
    (entry : DeliveryReceipt × Nat) (row : store.inbox[key]? = some held)
    (acked : held.status = .acked) :
    ∃ after, (store.recordPush label id vendors now entry).inbox[key]? = some after ∧ after.status = .acked := by
  simp only [recordPush]
  split
  · rename_i done
    exact updateWireReceipt_acked done row acked
  · exact ⟨held, row, acked⟩

theorem withRegistry_inbox (store : WireStore) (result : Except StoreError Registry) :
    (store.withRegistry result).inbox = store.inbox := by
  unfold withRegistry
  split <;> rfl

theorem apply_acked {op : Op} (spares : Spares receipt store op)
    (row : store.inbox[inboxKey receipt.recipientId receipt.messageId]? = some held)
    (acked : held.status = .acked) :
    ∃ after, (apply label store op).inbox[inboxKey receipt.recipientId receipt.messageId]? = some after ∧
      after.status = .acked := by
  have registered : ∀ result : Except StoreError Registry,
      ∃ after, (store.withRegistry result).inbox[inboxKey receipt.recipientId receipt.messageId]? = some after ∧
        after.status = .acked := by
    intro result
    rw [withRegistry_inbox]
    exact ⟨held, row, acked⟩
  cases op with
  | send args minted =>
    simp only [Inbox.apply]
    split
    · rename_i next result sent
      obtain ⟨registry, made, all, rfl⟩ := sendWire_ok sent
      simp only [Spares, made] at spares
      rw [putAll_other, appendWireMessage_inbox]
      · exact ⟨held, row, acked⟩
      · intro one mem
        rw [all] at mem
        obtain ⟨recipient, memRecipient, rfl⟩ := mem_map.mp mem
        exact spares recipient memRecipient
    · exact ⟨held, row, acked⟩
  | importBatch batch =>
    simp only [Inbox.apply, importBatch_items]
    exact importItems_row (fun next => next.status = .acked) merge_acked _ row acked
  | update id recipient status incrementAttempts at_ =>
    simp only [Inbox.apply]
    split
    · rename_i done
      exact updateWireReceipt_acked done row acked
    · exact ⟨held, row, acked⟩
  | dispatch id recipient vendors now =>
    simp only [Inbox.apply, dispatchMessageSelected]
    split
    · exact ⟨held, row, acked⟩
    rename_i entries _
    show ∃ after, (entries.foldl (recordPush label id vendors now) store).inbox[
      inboxKey receipt.recipientId receipt.messageId]? = some after ∧ after.status = .acked
    clear * - row acked
    induction entries generalizing store held with
    | nil => exact ⟨held, row, acked⟩
    | cons first rest ih =>
      obtain ⟨after, found, still⟩ := recordPush_acked label id vendors now first row acked
      exact ih found still
  | upsertArea area eventId =>
    simp only [Inbox.apply]
    exact registered _
  | deleteArea areaKey at_ author eventId =>
    exact registered _
  | registerAgent args mint =>
    simp only [Inbox.apply]
    exact registered _
  | retireAgent id at_ author eventId =>
    exact registered _
  | importEvents events =>
    simp only [Inbox.apply]
    exact registered _

theorem run_acked {label : String} {receipt : DeliveryReceipt} {ops : List Op}
    (spared : Spared label receipt store ops) {held : DeliveryReceipt}
    (row : store.inbox[inboxKey receipt.recipientId receipt.messageId]? = some held) (acked : held.status = .acked) :
    ∃ after, (run label ops store).inbox[inboxKey receipt.recipientId receipt.messageId]? = some after ∧
      after.status = .acked := by
  induction ops generalizing store held with
  | nil => exact ⟨held, row, acked⟩
  | cons op rest ih =>
    obtain ⟨after, found, still⟩ := apply_acked spared.1 row acked
    exact ih spared.2 found still

/-- Where the acknowledged receipt is the only one that may be open, all of the recipient's are settled. -/
theorem Sole.closed
    (sole : Sole label id recipient receipt store) (filed : Filed store)
    (row : store.inbox[inboxKey receipt.recipientId receipt.messageId]? = some held) (acked : held.status = .acked)
    {other : DeliveryReceipt} (found : store.inbox[key]? = some other) (about : aboutMessage id key = true)
    (mine : isFor store.registry label recipient other = true) : settled other.status = true := by
  cases open_ : settled other.status with
  | true => rfl
  | false =>
    obtain ⟨sameRecipient, sameMessage⟩ :=
      sole (key, other) (Std.ExtTreeMap.mem_toList_iff_getElem?_eq_some.mpr found) about open_ mine
    rw [filed.rows key other found, sameRecipient, sameMessage, row] at found
    cases found
    rw [acked] at open_
    cases open_

theorem listWireInbox_item {filter : WireFilter} {items : List WireInboxItem}
    (asked : filter.recipient = some recipient) (unread : filter.unreadOnly = true)
    (listed : store.listWireInbox label filter = .ok items) {item : WireInboxItem} (mem : item ∈ items) :
    ∃ key : String, store.inbox[key]? = some item.receipt ∧ settled item.receipt.status = false ∧
      isFor store.registry label recipient item.receipt = true ∧
      store.message? item.receipt.messageId = some item.message := by
  unfold listWireInbox at listed
  rw [asked] at listed
  obtain ⟨candidates, asked', listed⟩ := bind_ok listed
  obtain ⟨rows, read, listed⟩ := bind_ok listed
  obtain ⟨kept, kepts, listed⟩ := bind_ok listed
  cases listed
  obtain ⟨found, named, same⟩ : ∃ found, recipientCandidates store.registry label recipient = .ok found ∧
      candidates = some found := by
    obtain ⟨found, named, done⟩ := bind_ok asked'
    cases done
    exact ⟨found, named, rfl⟩
  have memKept : item ∈ kept := by
    cases limited : filter.limit with
    | none =>
      rw [limited] at mem
      exact (mem_mergeSort).mp mem
    | some limit =>
      rw [limited] at mem
      exact (mem_mergeSort).mp (mem_of_mem_take mem)
  obtain ⟨row, memRow, made⟩ := filterMapM_ok kepts item memKept
  unfold inboxItem at made
  rw [unread, Bool.true_and] at made
  split at made
  · cases made
  rename_i unsettled
  obtain ⟨wanted, matched, made⟩ := bind_ok made
  rcases wanted with _ | _
  · cases made
  simp only [Bool.not_true, Bool.false_eq_true, if_false] at made
  split at made
  · cases made
  rename_i message stored
  split at made
  · cases made
  split at made
  · cases made
  cases made
  refine ⟨_, inboxRows_mem read memRow, by simpa using unsettled, ?_, stored⟩
  simp only [forRecipient, asked, same] at matched
  simp only [isFor, named, matched]

theorem dispatch_pushed {selected : Option String} {vendors : Vendors}
    {now : At}
    (mem : receipt ∈ (store.dispatchMessageSelected label id selected vendors now).2) :
    ∃ owner, store.inbox[pair owner id.iri.text]? = some receipt ∧ settled receipt.status = false := by
  unfold dispatchMessageSelected at mem
  split at mem
  · cases mem
  rename_i entries pushed
  obtain ⟨entry, memEntry, rfl⟩ := mem_map.mp mem
  obtain ⟨receipts, listed, pushed⟩ := bind_ok pushed
  cases pushed
  obtain ⟨memRetained, due⟩ := mem_filter.mp memEntry
  have unsettled : settled entry.1.status = false := by
    simp only [deliverable, Bool.and_eq_true, Bool.not_eq_true'] at due
    exact due.1.1
  have memReceipts : entry.1 ∈ receipts := by
    have retained := fst_mem_of_mem_zipIdx memRetained
    cases selected with
    | none => exact retained
    | some name => exact (mem_filter.mp retained).1
  unfold listWireReceipts at listed
  split at listed
  · cases listed
  obtain ⟨rows, read, listed⟩ := bind_ok listed
  cases listed
  obtain ⟨row, memRow, same⟩ := mem_map.mp ((mem_mergeSort).mp memReceipts)
  obtain ⟨memRows, about⟩ := mem_filter.mp memRow
  refine ⟨row.recipient, ?_, unsettled⟩
  rw [← same, ← beq_iff_eq.mp about]
  exact inboxRows_mem read memRows

/-- After an acknowledgement, and through every history that sends nothing over the acknowledged receipt, a message is
over for its recipient as long as no other receipt of the message is an open one of the recipient. -/
theorem acked_message_over {registry : Registry} {label : String} {history : List Op} {id : MessageId} {recipient : String}
    {incrementAttempts : Bool} {at_ : At} {store : WireStore} {receipt : DeliveryReceipt}
    (acked : (run label history (.empty registry)).updateWireReceipt label id recipient .acked incrementAttempts at_ =
      .ok (store, some receipt))
    {later : List Op} (spared : Spared label receipt store later) (sole : Sole label id recipient receipt (run label later store)) :
    Over label id recipient (run label later store) := by
  have filedBefore := (Filed.empty registry).run label history
  have filed := (filedBefore.update acked).run label later
  obtain ⟨held, row, still⟩ : ∃ held,
      (run label later store).inbox[inboxKey receipt.recipientId receipt.messageId]? = some held ∧ held.status = .acked := by
    rcases updateWireReceipt_ok acked with ⟨_, none_⟩ | ⟨owner, existing, found, rfl, same⟩
    · cases none_
    cases same
    apply @run_acked _ _ _ _ spared (updatedReceipt existing .acked incrementAttempts at_)
    · have key := filedBefore.rows _ existing found
      rw [show inboxKey (updatedReceipt existing .acked incrementAttempts at_).recipientId
        (updatedReceipt existing .acked incrementAttempts at_).messageId = pair owner id.iri.text from key.symm]
      simp [putReceipt]
    · cases status : existing.status <;> simp [updatedReceipt, merge, status, rank]
  refine ⟨?_, ?_⟩
  · intro filter items asked unread listed item mem same
    obtain ⟨key, found, unsettled, mine, stored⟩ := listWireInbox_item asked unread listed mem
    have ofMessage : item.receipt.messageId = id := by
      rw [← same]
      exact (messageKey_injective (filed.messages _ _ stored)).symm
    have own := filed.rows key _ found
    have about : aboutMessage id key = true := by
      rw [own, ofMessage]
      exact aboutMessage_pair _ _
    rw [sole.closed filed row still found about mine] at unsettled
    cases unsettled
  · intro selected vendors now pushed mem
    obtain ⟨owner, found, unsettled⟩ := dispatch_pushed mem
    cases mine : isFor (run label later store).registry label recipient pushed with
    | false => rfl
    | true =>
      rw [sole.closed filed row still found (aboutMessage_pair owner id) mine] at unsettled
      cases unsettled

instance (label : String) (id : MessageId) (recipient : String) (receipt : DeliveryReceipt) (store : WireStore) :
    Decidable (Sole label id recipient receipt store) :=
  inferInstanceAs (Decidable (∀ entry ∈ store.inbox.toList, _ → _ → _ → _ ∧ _))

def mailId : MessageId := ⟨⟨"urn:uuid:m1"⟩⟩

def mailToFerris : SendWireArgs where
  id := some mailId
  senderId := none
  senderName := "owner"
  senderHost := none
  to_ := .agentName "ferris"
  kind := .mail
  urgency := .normal
  durable := true
  subject := "hello"
  body := "hello"
  replyTo := none
  threadId := none
  deadlineAt := none
  at_ := ⟨5, by decide⟩

def copyFor (recipient : Iri) : DeliveryReceipt where
  messageId := mailId
  recipientId := recipient
  recipientName := "ferris"
  status := .delivered
  attempts := 1
  updatedAt := ⟨6, by decide⟩
  ackedAt := none

def ferrisAcks (history : List Op) : Except StoreError (WireStore × Option DeliveryReceipt) :=
  (run "home" history (.empty Registry.empty)).updateWireReceipt "home" mailId "ferris" .acked false ⟨7, by decide⟩

def unreadOfFerris : WireFilter where
  recipient := some "ferris"
  unreadOnly := true
  threadId := none
  correlationId := none
  limit := none

theorem acked_message_over_own_copy :
    ∃ store receipt, ferrisAcks [.send mailToFerris ⟨"urn:uuid:m2"⟩] = .ok (store, some receipt) ∧
      Over "home" mailId "ferris" (run "home" [.importBatch ⟨[], [copyFor (fallbackAgentIri "ferris")]⟩] store) := by
  have computed : ((ferrisAcks [.send mailToFerris ⟨"urn:uuid:m2"⟩]).toOption.any fun acked =>
      acked.2.any fun receipt => decide (Sole "home" mailId "ferris" receipt
        (run "home" [.importBatch ⟨[], [copyFor (fallbackAgentIri "ferris")]⟩] acked.1))) = true := by decide +kernel
  rcases answer : ferrisAcks [.send mailToFerris ⟨"urn:uuid:m2"⟩] with err | result
  · rw [answer] at computed
    cases computed
  obtain ⟨store, returned⟩ := result
  rw [answer] at computed
  cases returned with
  | none => cases computed
  | some receipt =>
    exact ⟨store, receipt, rfl, acked_message_over answer ⟨trivial, trivial⟩ (of_decide_eq_true computed)⟩

/-- The mail was sent to a name, and another store's receipt has the agent's own id: the acknowledgement reaches the
first of the two, and the listing shows the other. -/
theorem acked_message_listed :
    ∃ store receipt items, ferrisAcks [.send mailToFerris ⟨"urn:uuid:m2"⟩,
        .importBatch ⟨[], [copyFor ⟨"urn:uuid:a1"⟩]⟩] = .ok (store, some receipt) ∧
      store.listWireInbox "home" unreadOfFerris = .ok items ∧ (∃ item ∈ items, item.message.id = mailId) ∧
      ¬Over "home" mailId "ferris" (run "home" [] store) := by
  have computed : ((ferrisAcks [.send mailToFerris ⟨"urn:uuid:m2"⟩,
        .importBatch ⟨[], [copyFor ⟨"urn:uuid:a1"⟩]⟩]).toOption.any fun acked =>
      acked.2.any fun _ => (acked.1.listWireInbox "home" unreadOfFerris).toOption.any fun items =>
        items.any fun item => item.message.id == mailId) = true := by decide +kernel
  rcases answer : ferrisAcks [.send mailToFerris ⟨"urn:uuid:m2"⟩, .importBatch ⟨[], [copyFor ⟨"urn:uuid:a1"⟩]⟩] with err | result
  · rw [answer] at computed
    cases computed
  obtain ⟨store, returned⟩ := result
  rw [answer] at computed
  rcases returned with _ | receipt
  · cases computed
  simp only [Except.toOption, Option.any_some] at computed
  rcases listed : store.listWireInbox "home" unreadOfFerris with err | items
  · rw [listed] at computed
    cases computed
  rw [listed] at computed
  obtain ⟨item, mem, same⟩ := any_eq_true.mp computed
  refine ⟨store, receipt, items, rfl, listed, ⟨item, mem, beq_iff_eq.mp same⟩, ?_⟩
  intro ended
  exact ended.1 unreadOfFerris items rfl rfl listed item mem (beq_iff_eq.mp same)

end FerroLoop.Wire.Inbox

import FerroLoop.Wire.Inbox.Store
import FerroLoop.Wire.Inbox.Merging

namespace FerroLoop.Wire.Inbox

open List

open Store (BTreeMap)

inductive Item where
  | message (among : List DeliveryReceipt) (message : WireMessage)
  | receipt (receipt : DeliveryReceipt)

section

variable (store : WireStore)

def importItem : Item → WireStore
  | .message among message => (importMessage among (store, {}) message).1
  | .receipt receipt => (importReceipt (store, {}) receipt).1

structure Batch where
  messages : List WireMessage
  receipts : List DeliveryReceipt

def Batch.items (batch : Batch) : List Item :=
  batch.messages.map (.message batch.receipts) ++ batch.receipts.map .receipt

def importBatch (batch : Batch) : WireStore :=
  (importWireBatch store batch.messages batch.receipts).1

def importAll (batches : List Batch) : WireStore := batches.foldl importBatch store

theorem importMessage_store (among : List DeliveryReceipt) (done : WireStore × WireImportReport) (message : WireMessage) :
    (importMessage among done message).1 = importItem done.1 (.message among message) := by
  obtain ⟨store, report⟩ := done
  simp only [importItem, importMessage]
  rcases judged : validate message with err | _
  · rfl
  cases held : store.message? message.id with
  | some existing =>
    simp only
    split <;> rfl
  | none => cases indexed : indexMessageId store.registry message.id.iri <;> rfl

theorem importReceipt_store (done : WireStore × WireImportReport) (receipt : DeliveryReceipt) :
    (importReceipt done receipt).1 = importItem done.1 (.receipt receipt) := by
  obtain ⟨store, report⟩ := done
  simp only [importItem, importReceipt]
  rcases known : store.message? receipt.messageId with _ | _
  · rfl
  cases held : store.inbox[inboxKey receipt.recipientId receipt.messageId]? with
  | none => rfl
  | some existing =>
    simp only
    split <;> rfl

theorem importBatch_items (batch : Batch) : importBatch store batch = batch.items.foldl importItem store := by
  have messages : ∀ (list : List WireMessage) (done : WireStore × WireImportReport),
      (list.foldl (importMessage batch.receipts) done).1 =
        (list.map (Item.message batch.receipts)).foldl importItem done.1 := by
    intro list
    induction list with
    | nil => exact fun done => rfl
    | cons first rest ih =>
      intro done
      rw [foldl_cons, map_cons, foldl_cons, ih, importMessage_store]
  have receipts : ∀ (list : List DeliveryReceipt) (done : WireStore × WireImportReport),
      (list.foldl importReceipt done).1 = (list.map Item.receipt).foldl importItem done.1 := by
    intro list
    induction list with
    | nil => exact fun done => rfl
    | cons first rest ih =>
      intro done
      rw [foldl_cons, map_cons, foldl_cons, ih, importReceipt_store]
  rw [importBatch, importWireBatch, receipts, messages, Batch.items, foldl_append]

theorem importAll_items (batches : List Batch) :
    importAll store batches = (batches.flatMap Batch.items).foldl importItem store := by
  induction batches generalizing store with
  | nil => rfl
  | cons batch rest ih =>
    rw [flatMap_cons, foldl_append, ← importBatch_items]
    exact ih (importBatch store batch)

end

theorem pair_cancel_right {a b c : String} (same : pair a c = pair b c) : a = b := by
  unfold pair at same
  have lists := congrArg String.toList same
  simp only [String.toList_append, append_assoc] at lists
  exact String.toList_injective (append_cancel_right lists)

theorem inboxKey_recipient {first second : Iri} {message : MessageId}
    (same : inboxKey first message = inboxKey second message) : first = second := by
  have text := pair_cancel_right same
  cases first
  cases second
  cases text
  rfl

theorem messageKey_injective {first second : MessageId} (same : first.iri.text = second.iri.text) : first = second := by
  obtain ⟨⟨a⟩⟩ := first
  cases same
  rfl

def Registry.free (registry : Registry) (id : MessageId) : Bool :=
  registry.ids[id.iri.text]?.all fun entry => entry == .kind .message

variable {registry : Registry} {id : MessageId}

theorem indexMessageId_ok {next : Registry}
    (indexed : indexMessageId registry id.iri = .ok next) :
    registry.free id = true ∧ next.agents = registry.agents ∧ next.areas = registry.areas ∧
      ∀ other, next.free other = registry.free other := by
  unfold indexMessageId at indexed
  cases held : registry.ids[id.iri.text]? with
  | none =>
    rw [held] at indexed
    cases indexed
    refine ⟨by rw [Registry.free, held]; rfl, rfl, rfl, ?_⟩
    intro other
    unfold Registry.free
    simp only [Map.getElem?_insert]
    by_cases here : id.iri.text = other.iri.text
    · rw [if_pos here, ← here, held]
      rfl
    · rw [if_neg here]
  | some entry =>
    rw [held] at indexed
    cases entry with
    | aliased => cases indexed
    | kind found =>
      simp only at indexed
      split at indexed
      · cases indexed
      rename_i same
      cases indexed
      refine ⟨?_, rfl, rfl, fun _ => rfl⟩
      rw [Registry.free, held, Decidable.not_not.mp same]
      rfl

theorem indexMessageId_error {found : Kind}
    (taken : indexMessageId registry id.iri = .error found) : registry.free id = false := by
  unfold indexMessageId at taken
  unfold Registry.free
  rcases held : registry.ids[id.iri.text]? with _ | entry
  · rw [held] at taken
    cases taken
  rw [held] at taken
  cases entry with
  | aliased => rfl
  | kind kind =>
    simp only at taken
    split at taken
    · rename_i differs
      simpa using differs
    · cases taken

end FerroLoop.Wire.Inbox

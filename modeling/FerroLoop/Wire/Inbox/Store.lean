import FerroLoop.Lib.Map
import FerroLoop.Wire.Inbox.Messages

/-!
The message store and its import of a batch (`crates/store/src/ferrostore/traits_wire.rs`): every
item of a batch is judged alone, messages first, then receipts.
-/

namespace FerroLoop.Wire.Inbox

open Store (BTreeMap)

/-- A row of `ids`: what an id names, or that it is another name of one. -/
inductive IdEntry where
  | kind (kind : Kind)
  | aliased
  deriving DecidableEq

abbrev RegistryEvent := Agents.RegistryEvent Iri AgentId At

structure Registry where
  ids : BTreeMap String IdEntry
  aliases : BTreeMap String Iri
  agents : BTreeMap String AgentRecord
  agentByName : BTreeMap String Iri
  areas : BTreeMap String AreaRecord
  events : BTreeMap Nat RegistryEvent
  eventIds : BTreeMap String Nat
  nextAgentEvent : Nat
  filed : ∀ (key : String) (agent : AgentRecord), agents[key]? = some agent → agent.id.iri.text = key

def Registry.empty : Registry where
  ids := ∅
  aliases := ∅
  agents := ∅
  agentByName := ∅
  areas := ∅
  events := ∅
  eventIds := ∅
  nextAgentEvent := 0
  filed := fun key agent held => by simp at held

structure WireStore where
  registry : Registry
  messages : BTreeMap String WireMessage
  msgLog : BTreeMap Nat MessageId
  msgSeq : BTreeMap String Nat
  nextWireMsgSeq : Nat
  inbox : BTreeMap String DeliveryReceipt
  rcptLog : BTreeMap Nat DeliveryReceipt
  nextWireRcptSeq : Nat

section

variable (registry : Registry)

def WireStore.empty : WireStore where
  registry
  messages := ∅
  msgLog := ∅
  msgSeq := ∅
  nextWireMsgSeq := 0
  inbox := ∅
  rcptLog := ∅
  nextWireRcptSeq := 0

def pair (a b : String) : String := a ++ "\u001f" ++ b

def inboxKey (recipient : Iri) (message : MessageId) : String := pair recipient.text message.iri.text

def WireStore.message? (store : WireStore) (id : MessageId) : Option WireMessage := store.messages[id.iri.text]?

def Registry.allAgents : List AgentRecord := registry.agents.toList.map Prod.snd

def Registry.allAreas : List AreaRecord := registry.areas.toList.map Prod.snd

def Registry.recipients (message : WireMessage) : List (Iri × String) :=
  resolveRecipients message.to_ message.senderId message.senderName registry.allAgents registry.allAreas

def indexMessageId (id : Iri) : Except Kind Registry :=
  match registry.ids[id.text]? with
  | some .aliased => .error .agent
  | some (.kind found) => if found ≠ .message then .error found else .ok registry
  | none => .ok { registry with ids := registry.ids.insert id.text (.kind .message) }

end

def wrongKind (id : Iri) (expected found : Kind) : String :=
  id.text ++ " is a " ++ found.asWire ++ " in this store, not a " ++ expected.asWire ++
    ", so it cannot be used where a " ++ expected.asWire ++ " is needed"

def WireStore.appendWireMessage (store : WireStore) (message : WireMessage) : WireStore :=
  let key := message.id.iri.text
  let logged :=
    match store.msgSeq[key]? with
    | some _ => store
    | none =>
      let seq := store.nextWireMsgSeq + 1
      { store with
        nextWireMsgSeq := seq, msgLog := store.msgLog.insert seq message.id, msgSeq := store.msgSeq.insert key seq }
  { logged with messages := logged.messages.insert key message }

def WireStore.putReceipt (store : WireStore) (key : String) (receipt : DeliveryReceipt) : WireStore :=
  let seq := store.nextWireRcptSeq + 1
  { store with
    inbox := store.inbox.insert key receipt, nextWireRcptSeq := seq, rcptLog := store.rcptLog.insert seq receipt }

inductive WireImportRejectReason where
  | invalidMessage | tamperedMessage | idCollision | unknownMessage
  deriving DecidableEq

structure WireImportRejection where
  messageId : MessageId
  isReceipt : Bool
  reason : WireImportRejectReason
  detail : String
  deriving DecidableEq

structure WireImportReport where
  importedMessages : Nat := 0
  importedReceipts : Nat := 0
  rejected : List WireImportRejection := []
  deriving DecidableEq

def WireImportReport.reject (report : WireImportReport) (messageId : MessageId) (isReceipt : Bool)
    (reason : WireImportRejectReason) (detail : String) : WireImportReport :=
  { report with rejected := report.rejected ++ [{ messageId, isReceipt, reason, detail }] }

def pendingReceipt (message : WireMessage) (recipient : Iri × String) : DeliveryReceipt where
  messageId := message.id
  recipientId := recipient.1
  recipientName := recipient.2
  status := .pending
  attempts := 0
  updatedAt := message.createdAt
  ackedAt := none

def mentions (message : WireMessage) (recipient : Iri × String) (receipt : DeliveryReceipt) : Bool :=
  receipt.messageId == message.id && (receipt.recipientId == recipient.1 || receipt.recipientName == recipient.2)

def WireStore.openReceipt (receipts : List DeliveryReceipt) (message : WireMessage) (store : WireStore)
    (recipient : Iri × String) : WireStore :=
  let key := inboxKey recipient.1 message.id
  if !receipts.any (mentions message recipient) && store.inbox[key]?.isNone then
    store.putReceipt key (pendingReceipt message recipient)
  else store

def WireStore.storeMessage (receipts : List DeliveryReceipt) (store : WireStore) (registry : Registry)
    (message : WireMessage) : WireStore :=
  (registry.recipients message).foldl (openReceipt receipts message)
    ({ store with registry }.appendWireMessage message)

def importMessage (receipts : List DeliveryReceipt) (done : WireStore × WireImportReport) (message : WireMessage) :
    WireStore × WireImportReport :=
  let (store, report) := done
  match validate message with
  | .error err => (store, report.reject message.id false .invalidMessage err.display)
  | .ok () =>
    match store.message? message.id with
    | some existing =>
      if existing ≠ message then
        (store, report.reject message.id false .tamperedMessage "imported wire message differs from stored copy")
      else (store, report)
    | none =>
      match indexMessageId store.registry message.id.iri with
      | .error found => (store, report.reject message.id false .idCollision (wrongKind message.id.iri .message found))
      | .ok registry =>
        (store.storeMessage receipts registry message, { report with importedMessages := report.importedMessages + 1 })

def importReceipt (done : WireStore × WireImportReport) (receipt : DeliveryReceipt) : WireStore × WireImportReport :=
  let (store, report) := done
  match store.message? receipt.messageId with
  | none => (store, report.reject receipt.messageId true .unknownMessage "no such wire message")
  | some _ =>
    let key := inboxKey receipt.recipientId receipt.messageId
    match store.inbox[key]? with
    | some existing =>
      let merged := merge existing receipt
      if merged ≠ existing then
        (store.putReceipt key merged, { report with importedReceipts := report.importedReceipts + 1 })
      else (store, report)
    | none => (store.putReceipt key receipt, { report with importedReceipts := report.importedReceipts + 1 })

/-- `import_wire_batch`; an empty batch opens no transaction. -/
def importWireBatch (store : WireStore) (messages : List WireMessage) (receipts : List DeliveryReceipt) :
    WireStore × WireImportReport :=
  receipts.foldl importReceipt (messages.foldl (importMessage receipts) (store, {}))

end FerroLoop.Wire.Inbox

import FerroLoop.Wire.Inbox.Registry

/-!
Sending, reading and acknowledging (`crates/store/src/ferrostore/traits_wire.rs`), and the pass that
pushes a message to its recipients (`crates/wire/src/dispatcher.rs`).
-/

namespace FerroLoop.Wire.Inbox

open Text
open Store (BTreeMap)
open Agents (StateError validateSlug)

structure SendWireArgs where
  id : Option MessageId
  senderId : Option AgentId
  senderName : String
  senderHost : Option String
  to_ : WireAddress
  kind : MessageKind
  urgency : MessageUrgency
  durable : Bool
  subject : String
  body : String
  replyTo : Option MessageId
  threadId : Option MessageId
  deadlineAt : Option At
  at_ : At

def checkGroupAddress (to_ : WireAddress) (areas : List AreaRecord) : Except StoreError Unit :=
  match to_ with
  | .group key =>
    match areas.find? fun area => area.areaKey == key with
    | some area =>
      if area.isVirtual then .ok ()
      else
        .error (.invalidState ("`@" ++ key ++ "` is not a virtual group: `" ++ key ++
          "` is an area with a path. Use `@area:" ++ key ++ "`"))
    | none =>
      .error (.invalidState ("`@" ++ key ++ "` names no virtual group: create one with `fl project create " ++ key ++
        " --virtual`"))
  | _ => .ok ()

section

variable (store : WireStore) (args : SendWireArgs)

def parentOf : Except StoreError (Option MessageId × Option MessageId) :=
  match args.replyTo with
  | none => if args.kind = .reply then .error (.invalidState StateError.replyRequiresParent.display) else .ok (none, none)
  | some parentId =>
    match store.message? parentId with
    | none => .error (.messageNotFound parentId)
    | some parent =>
      let correlation :=
        if parent.kind = .ask then some parent.id
        else if parent.correlationId.isSome then parent.correlationId
        else if args.kind = .reply then some parent.id
        else none
      .ok (some parent.threadId, correlation)

def isAlwaysDurable : MessageKind → Bool
  | .ask | .handoff | .taskOffer | .approvalRequest => true
  | _ => false

def compose (minted : Iri) : Except StoreError (Registry × WireMessage) := do
  let subject ← invalid (validateSubject args.subject)
  let body ← invalid (validateWireBody args.body)
  let senderName ← invalid (validateSenderName args.senderName)
  let (parentThread, correlationId) ← parentOf store args
  let id := args.id.getD ⟨minted⟩
  match indexMessageId store.registry id.iri with
  | .error found => .error (.wrongKind id.iri .message found)
  | .ok registry =>
    let senderId := args.senderId.or ((registry.allAgents.find? fun agent =>
      agent.status == .active && agent.nameKey == senderName).map Agents.AgentRecord.id)
    let message : WireMessage :=
      { id, threadId := (args.threadId.or parentThread).getD id, replyTo := args.replyTo, correlationId, senderId, senderName,
        senderHost := args.senderHost, to_ := args.to_, kind := args.kind, urgency := args.urgency,
        durable := args.durable || isAlwaysDurable args.kind, subject, body, createdAt := args.at_,
        deadlineAt := args.deadlineAt }
    let _ ← invalid (validate message)
    let _ ← checkGroupAddress message.to_ registry.allAreas
    .ok (registry, message)

def WireStore.sendWire (minted : Iri) : Except StoreError (WireStore × WireMessage × List DeliveryReceipt) := do
  let (registry, message) ← compose store args minted
  let receipts := (registry.recipients message).map (pendingReceipt message)
  let stored := { store with registry }.appendWireMessage message
  .ok (receipts.foldl (fun done receipt => done.putReceipt (inboxKey receipt.recipientId message.id) receipt) stored,
    message, receipts)

end

structure Candidates where
  agentId : Option Iri
  nameKey : Option String

def lookupByName (registry : Registry) (label key : String) : Except StoreError (Option Iri) :=
  match registry.agentByName[key]? with
  | none => .ok none
  | some id => do
    let resolved ← registry.resolveIri label id
    .ok (some resolved)

def agentUrn : String := "urn:fl:agent:"

def recipientCandidates (registry : Registry) (label query : String) : Except StoreError Candidates :=
  let trimmed := trim query
  let byName (key : String) : Except StoreError Candidates := do
    let agentId ← lookupByName registry label key
    .ok ⟨agentId, some key⟩
  match Iri.parse trimmed with
  | some iri => do
    let resolved ← registry.resolveIri label iri
    match registry.agent? resolved with
    | some agent => .ok ⟨some resolved, some agent.nameKey⟩
    | none =>
      if agentUrn.toList.isPrefixOf trimmed.toList then
        match validateSlug (String.ofList (trimmed.toList.drop agentUrn.length)) with
        | .ok key => byName key
        | .error _ => .ok ⟨some resolved, none⟩
      else .ok ⟨some resolved, none⟩
  | none =>
    match validateSlug trimmed with
    | .ok key => byName key
    | .error _ => .ok ⟨none, none⟩

def receiptMatches (receipt : DeliveryReceipt) (resolvedId : Iri) (candidates : Candidates) (rawQuery : String) : Bool :=
  let trimmed := trim rawQuery
  candidates.agentId == some resolvedId ||
    (candidates.nameKey.any fun nameKey =>
      receipt.recipientName == nameKey || receipt.recipientId.text == agentUrn ++ nameKey) ||
    receipt.recipientId.text == trimmed || eqIgnoreAsciiCase receipt.recipientName trimmed

def receiptMatchesResolving (registry : Registry) (label : String) (receipt : DeliveryReceipt) (candidates : Candidates)
    (rawQuery : String) : Except StoreError Bool :=
  if receiptMatches receipt receipt.recipientId candidates rawQuery then .ok true
  else do
    let resolved ← registry.resolveIri label receipt.recipientId
    .ok (receiptMatches receipt resolved candidates rawQuery)

structure Row where
  recipient : String
  message : String
  receipt : DeliveryReceipt

def inboxRow (entry : String × DeliveryReceipt) : Except StoreError Row :=
  match splitOnce "\u001f" entry.1 with
  | none => .error (.decode ("wire_inbox key `" ++ entry.1 ++ "` is not a pair"))
  | some (recipient, message) => .ok ⟨recipient, message, entry.2⟩

def WireStore.inboxRows (store : WireStore) : Except StoreError (List Row) := store.inbox.toList.mapM inboxRow

structure WireFilter where
  recipient : Option String
  unreadOnly : Bool
  threadId : Option MessageId
  correlationId : Option MessageId
  limit : Option Nat

structure WireInboxItem where
  message : WireMessage
  receipt : DeliveryReceipt

section

variable (store : WireStore) (label : String) (filter : WireFilter) (candidates : Option Candidates)

def forRecipient (receipt : DeliveryReceipt) : Except StoreError Bool :=
  match filter.recipient, candidates with
  | some query, some found => receiptMatchesResolving store.registry label receipt found query
  | _, _ => .ok true

def inboxItem (row : Row) : Except StoreError (Option WireInboxItem) :=
  if filter.unreadOnly && settled row.receipt.status then .ok none
  else do
    let wanted ← forRecipient store label filter candidates row.receipt
    if !wanted then .ok none
    else
      match store.message? row.receipt.messageId with
      | none => .ok none
      | some message =>
        if (filter.threadId.any fun thread => message.threadId != thread) then .ok none
        else if (filter.correlationId.any fun correlation => message.correlationId != some correlation) then .ok none
        else .ok (some ⟨message, row.receipt⟩)

end

def itemOrder (a b : WireInboxItem) : Bool :=
  ((compare a.message.id.iri.text b.message.id.iri.text).then
    (compare a.receipt.recipientId.text b.receipt.recipientId.text)).isLE

section

variable (store : WireStore)

def WireStore.listWireInbox (label : String) (filter : WireFilter) : Except StoreError (List WireInboxItem) := do
  let candidates ← filter.recipient.mapM (recipientCandidates store.registry label)
  let rows ← store.inboxRows
  let items ← rows.filterMapM (inboxItem store label filter candidates)
  let sorted := items.mergeSort itemOrder
  .ok (match filter.limit with
    | none => sorted
    | some limit => sorted.take limit)

def WireStore.listWireReceipts (id : MessageId) : Except StoreError (List DeliveryReceipt) :=
  match store.message? id with
  | none => .error (.messageNotFound id)
  | some _ => do
    let rows ← store.inboxRows
    let found := (rows.filter fun row => row.message == id.iri.text).map Row.receipt
    .ok (found.mergeSort fun a b => (compare a.recipientId.text b.recipientId.text).isLE)

def maxAttempts : Nat := 4294967295

def matchedRow (registry : Registry) (label : String) (id : MessageId) (recipient : String) (candidates : Candidates) :
    List Row → Except StoreError (Option Row)
  | [] => .ok none
  | row :: rest =>
    if row.message ≠ id.iri.text then matchedRow registry label id recipient candidates rest
    else do
      let matched ← receiptMatchesResolving registry label row.receipt candidates recipient
      if matched then .ok (some row) else matchedRow registry label id recipient candidates rest

def updatedReceipt (existing : DeliveryReceipt) (status : DeliveryStatus) (incrementAttempts : Bool) (at_ : At) :
    DeliveryReceipt :=
  merge existing
    { messageId := existing.messageId
      recipientId := existing.recipientId
      recipientName := existing.recipientName
      status
      attempts := if incrementAttempts then min (existing.attempts + 1) maxAttempts else existing.attempts
      updatedAt := at_
      ackedAt := if status = .acked then some at_ else none }

def WireStore.updateWireReceipt (label : String) (id : MessageId) (recipient : String)
    (status : DeliveryStatus) (incrementAttempts : Bool) (at_ : At) :
    Except StoreError (WireStore × Option DeliveryReceipt) :=
  match store.message? id with
  | none => .error (.messageNotFound id)
  | some _ => do
    let candidates ← recipientCandidates store.registry label recipient
    let rows ← store.inboxRows
    match ← matchedRow store.registry label id recipient candidates rows with
    | none => .ok (store, none)
    | some row =>
      let merged := updatedReceipt row.receipt status incrementAttempts at_
      .ok (store.putReceipt (pair row.recipient id.iri.text) merged, some merged)

structure Vendors where
  routed : Nat → String → Bool
  accepts : Nat → Bool

def WireStore.pushed (id : MessageId) (recipient : Option String) (vendors : Vendors) :
    Except StoreError (List (DeliveryReceipt × Nat)) := do
  let receipts ← store.listWireReceipts id
  let retained :=
    match recipient with
    | none => receipts
    | some name => receipts.filter fun receipt => eqIgnoreAsciiCase receipt.recipientName name
  .ok (retained.zipIdx.filter fun entry => deliverable entry.1 && vendors.routed entry.2 entry.1.recipientName)

def WireStore.recordPush (label : String) (id : MessageId) (vendors : Vendors) (now : At) (store : WireStore)
    (entry : DeliveryReceipt × Nat) : WireStore :=
  let status := if vendors.accepts entry.2 then DeliveryStatus.acked else .pending
  match store.updateWireReceipt label id entry.1.recipientName status true now with
  | .ok (next, _) => next
  | .error _ => store

/-- `dispatch_message_selected`: the receipts that were pushed, and the store after their updates. -/
def WireStore.dispatchMessageSelected (label : String) (id : MessageId) (recipient : Option String)
    (vendors : Vendors) (now : At) : WireStore × List DeliveryReceipt :=
  match store.pushed id recipient vendors with
  | .error _ => (store, [])
  | .ok entries => (entries.foldl (recordPush label id vendors now) store, entries.map Prod.fst)

end

end FerroLoop.Wire.Inbox

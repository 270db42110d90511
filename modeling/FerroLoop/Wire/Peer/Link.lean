import FerroLoop.Wire.Inbox.Acked

/-!
The connection of two daemons (`handle_peer_connection`, `process_incoming_peer_frame` and the local
send in `crates/wire/src/daemon.rs`): the handshake exchanges the last numbers of the own logs, then
each side sends the items its log numbers above the other's, registers the peer and forwards what is
sent from then on.
-/

namespace FerroLoop.Wire.Peer

open Inbox
open Store (BTreeMap)

/-- The logged messages numbered above `afterSeq` that are still there, in order. -/
def wireMessagesAfter (store : WireStore) (afterSeq : Nat) : List (Nat × WireMessage) :=
  store.msgLog.toList.filterMap fun row =>
    if row.1 ≤ afterSeq then none else (store.message? row.2).map fun message => (row.1, message)

/-- The logged receipts numbered above `afterSeq` whose message is there, in order. -/
def wireReceiptsAfter (store : WireStore) (afterSeq : Nat) : List (Nat × DeliveryReceipt) :=
  store.rcptLog.toList.filter fun row => !decide (row.1 ≤ afterSeq) && (store.message? row.2.messageId).isSome

def lastSeq {α : Type} (rows : List (Nat × α)) : Nat := (rows.getLast?.map Prod.fst).getD 0

/-- The last numbers a side gives of its own logs. -/
structure Cursors where
  msg : Nat
  rcpt : Nat
  agent : Nat

structure SyncBatch where
  registryEvents : List RegistryEvent
  messages : List WireMessage
  receipts : List DeliveryReceipt

inductive PeerFrame where
  | syncBatch (batch : SyncBatch)
  | publish (message : WireMessage) (receipts : List DeliveryReceipt)

/-- Where the connection thread is. Every read of the store is a step of its own, so that sends fall between any two. -/
inductive Phase where
  | start
  | countedMessages (msg : Nat)
  | countedReceipts (msg rcpt : Nat)
  | authed (cursors : Cursors)
  | greeted (cursors remote : Cursors)
  | readEvents (cursors remote : Cursors) (events : List RegistryEvent)
  | readMessages (cursors remote : Cursors) (events : List RegistryEvent) (messages : List WireMessage)
  | readReceipts (cursors : Cursors) (batch : SyncBatch)
  | batched (cursors : Cursors)
  | registered (cursors : Cursors)

/-- The numbers the side has sent in its `Auth` frame. -/
def Phase.cursors? : Phase → Option Cursors
  | .start | .countedMessages _ | .countedReceipts _ _ => none
  | .authed cursors | .greeted cursors _ | .readEvents cursors _ _ | .readMessages cursors _ _ _ | .readReceipts cursors _
  | .batched cursors | .registered cursors => some cursors

/-- What a side held when the connection began, and what it has sent since. -/
structure Own where
  messages : List WireMessage
  receipts : List DeliveryReceipt
  events : List RegistryEvent

structure Party where
  label : String
  store : WireStore
  phase : Phase
  /-- A send that is stored and not yet broadcast: it holds the gate. -/
  publishing : Option (WireMessage × List DeliveryReceipt)
  outgoing : List PeerFrame
  own : Own

def Party.start (label : String) (store : WireStore) : Party where
  label
  store
  phase := .start
  publishing := none
  outgoing := []
  own :=
    { messages := store.messages.toList.map Prod.snd
      receipts := store.inbox.toList.map Prod.snd
      events := store.registry.events.toList.map Prod.snd }

/-- The next step of the connection thread. -/
def Party.advance (me other : Party) : Option Party :=
  match me.phase with
  | .start => some { me with phase := .countedMessages (lastSeq (wireMessagesAfter me.store 0)) }
  | .countedMessages msg => some { me with phase := .countedReceipts msg (lastSeq (wireReceiptsAfter me.store 0)) }
  | .countedReceipts msg rcpt =>
    some { me with phase := .authed ⟨msg, rcpt, lastSeq (me.store.registry.registryEventsAfter 0)⟩ }
  | .authed cursors =>
    match other.phase.cursors? with
    | none => none
    | some remote => some { me with phase := .greeted cursors remote }
  | .greeted cursors remote =>
    some { me with
      phase := .readEvents cursors remote ((me.store.registry.registryEventsAfter remote.agent).map Prod.snd) }
  | .readEvents cursors remote events =>
    some { me with phase := .readMessages cursors remote events ((wireMessagesAfter me.store remote.msg).map Prod.snd) }
  | .readMessages cursors remote events messages =>
    some { me with
      phase := .readReceipts cursors ⟨events, messages, (wireReceiptsAfter me.store remote.rcpt).map Prod.snd⟩ }
  | .readReceipts cursors batch =>
    some { me with phase := .batched cursors, outgoing := me.outgoing ++ [.syncBatch batch] }
  | .batched cursors => some { me with phase := .registered cursors }
  | .registered _ => none

def Party.send (me : Party) (args : SendWireArgs) (minted : Iri) : Option Party :=
  match me.publishing with
  | some _ => none
  | none =>
    match me.store.sendWire args minted with
    | .error _ => some me
    | .ok (store, message, receipts) =>
      some { me with
        store
        publishing := some (message, receipts)
        own := { me.own with messages := me.own.messages ++ [message], receipts := me.own.receipts ++ receipts } }

def Party.broadcast (me : Party) : Option Party :=
  match me.publishing with
  | none => none
  | some (message, receipts) =>
    match me.phase with
    | .registered _ => some { me with publishing := none, outgoing := me.outgoing ++ [.publish message receipts] }
    | _ => some { me with publishing := none }

/-- `process_incoming_peer_frame`: nothing goes back to the peer a frame came from. -/
def processFrame (label : String) (store : WireStore) : PeerFrame → WireStore
  | .syncBatch batch =>
    Inbox.apply label (Inbox.apply label store (.importEvents batch.registryEvents))
      (.importBatch ⟨batch.messages, batch.receipts⟩)
  | .publish message receipts => Inbox.apply label store (.importBatch ⟨[message], receipts⟩)

def Party.receive (me other : Party) : Option (Party × Party) :=
  match me.phase, me.publishing, other.outgoing with
  | .registered _, none, frame :: rest =>
    some ({ me with store := processFrame me.label me.store frame }, { other with outgoing := rest })
  | _, _, _ => none

structure Link where
  left : Party
  right : Party

inductive Side where
  | left | right
  deriving DecidableEq

def Link.me (link : Link) : Side → Party
  | .left => link.left
  | .right => link.right

def Link.other (link : Link) : Side → Party
  | .left => link.right
  | .right => link.left

def Link.of (side : Side) (me other : Party) : Link :=
  match side with
  | .left => ⟨me, other⟩
  | .right => ⟨other, me⟩

inductive Action where
  | advance (side : Side)
  | send (side : Side) (args : SendWireArgs) (minted : Iri)
  | broadcast (side : Side)
  | receive (side : Side)

def Link.step (link : Link) : Action → Option Link
  | .advance side => ((link.me side).advance (link.other side)).map fun me => .of side me (link.other side)
  | .send side args minted => ((link.me side).send args minted).map fun me => .of side me (link.other side)
  | .broadcast side => (link.me side).broadcast.map fun me => .of side me (link.other side)
  | .receive side => ((link.me side).receive (link.other side)).map fun parties => .of side parties.1 parties.2

def Link.run (link : Link) (actions : List Action) : Option Link := actions.foldlM Link.step link

def Phase.isRegistered : Phase → Bool
  | .registered _ => true
  | _ => false

end FerroLoop.Wire.Peer

import FerroLoop.Lib.Machine
import FerroLoop.Wire.Delivery.Transition

/-!
The store around the transition (`delivery_context`, `commit_delivery` and
`retire_orphan_capacity` of `crates/core/src/mem.rs`): it reads the context of a key, runs the
transition and stores every part of the returned delta.
-/

namespace FerroLoop.Wire.Delivery

structure Ledger where
  records : DeliveryKey → Option DeliveryRecord
  reservations : MessageId → Option IdReservation
  recipients : AgentId → Option RecipientControl
  global : GlobalControl

/-- What a command reads besides the ledger. Messages and receipts are filed under their own
identifiers; everything here may differ from one command to the next. -/
structure Surroundings where
  continuity : Continuity
  messages : MessageId → Option WireMessage
  receipts : DeliveryKey → Option DeliveryReceipt
  identity : IdentityContext
  lifetime : Option LifetimeRegistration
  messages_filed : ∀ id message, messages id = some message → message.id = id
  receipts_filed : ∀ key receipt, receipts key = some receipt →
    receipt.messageId = key.originalId ∧ receipt.recipientId = key.recipientId.iri

/-- The context of a command on `key`; `none` without a recipient control. -/
def Ledger.context (ledger : Ledger) (around : Surroundings) (key : DeliveryKey) :
    Option TransitionContext :=
  (ledger.recipients key.recipientId).map fun recipient =>
    { key
      record := ledger.records key
      reservation := ledger.reservations key.originalId
      recipient
      global := ledger.global
      continuity := around.continuity
      message := around.messages key.originalId
      receipt := around.receipts key
      identity := around.identity
      lifetime := around.lifetime }

def put {κ ν : Type} [DecidableEq κ] (table : κ → Option ν) (key : κ) (value : ν) : κ → Option ν :=
  fun k => if k = key then some value else table k

section

variable (ledger : Ledger)

def Ledger.putRecord : Option DeliveryRecord → Ledger
  | some record => { ledger with records := put ledger.records record.key record }
  | none => ledger

def Ledger.putReservation : Option IdReservation → Ledger
  | some reservation =>
    { ledger with reservations := put ledger.reservations reservation.originalId reservation }
  | none => ledger

def Ledger.putRecipient : Option RecipientControl → Ledger
  | some recipient =>
    { ledger with recipients := put ledger.recipients recipient.binding.recipientId recipient }
  | none => ledger

def Ledger.commitDelivery (delta : DeliveryDelta) : Ledger :=
  let ledger := ledger.putRecord delta.record
  let ledger := ledger.putReservation delta.reservation
  let ledger := ledger.putRecipient delta.recipient
  { ledger with global := delta.global.getD ledger.global }

def Ledger.commitRetirement (delta : CapacityRetirementDelta) : Ledger :=
  let ledger := ledger.putRecord delta.record
  let ledger := ledger.putRecipient delta.recipient
  { ledger with global := delta.global.getD ledger.global }

end

inductive Event where
  | command (around : Surroundings) (command : DeliveryCommand)
  | retire (around : Surroundings) (target : CapacityRetirementTarget)

inductive Outcome where
  | delivery (result : Except Fault DeliveryResult)
  | retirement (result : Except Fault CapacityRetirementResult)

def applyDelivery (sha : Sha256) (ledger : Ledger) (around : Surroundings)
    (command : DeliveryCommand) : Ledger × Except Fault DeliveryResult :=
  match ledger.context around command.key with
  | none => (ledger, .ok (.refused .continuityLost))
  | some ctx =>
    match transition sha ctx command with
    | .error fault => (ledger, .error fault)
    | .ok delta => (ledger.commitDelivery delta, .ok delta.result)

def retireOrphanCapacity (ledger : Ledger) (around : Surroundings)
    (target : CapacityRetirementTarget) : Ledger × Except Fault CapacityRetirementResult :=
  match ledger.context around target.owner.key with
  | none => (ledger, .ok .stale)
  | some ctx =>
    match transitionCapacityRetirement ctx target with
    | .error fault => (ledger, .error fault)
    | .ok delta => (ledger.commitRetirement delta, .ok delta.result)

def step (sha : Sha256) (ledger : Ledger) : Event → Ledger × Outcome
  | .command around command =>
    let (ledger, result) := applyDelivery sha ledger around command
    (ledger, .delivery result)
  | .retire around target =>
    let (ledger, result) := retireOrphanCapacity ledger around target
    (ledger, .retirement result)

structure Ledger.Empty (ledger : Ledger) : Prop where
  records : ∀ key, ledger.records key = none
  reservations : ∀ id, ledger.reservations id = none
  recipients : ∀ id recipient, ledger.recipients id = some recipient →
    recipient.binding.recipientId = id ∧ recipient.active = none ∧ recipient.barrier = none
  index : ledger.global.activeIndex = []
  attempts : ledger.global.activeAttempts = 0

abbrev run (sha : Sha256) : Ledger → List Event → Ledger := Machine.run (step sha)

/-- Every command and retirement of a run with its answer. -/
abbrev trace (sha : Sha256) : Ledger → List Event → List (Event × Outcome) := Machine.trace (step sha)

section

variable (key : DeliveryKey)

/-- The event answered `Prepared` for `key`. -/
def prepares : Event × Outcome → Bool
  | (.command _ sent, .delivery (.ok (.prepared _))) => sent.key == key
  | _ => false

/-- The event answered `Armed` for the attempt `binding` of `key`. -/
def arms (binding : AttemptBinding) : Event × Outcome → Bool
  | (.command _ (.arm input), .delivery (.ok (.armed _))) => input.key == key && input.attempt == binding
  | _ => false

/-- The event is a manual acknowledgement of `key` that was applied. -/
def acknowledges : Event × Outcome → Bool
  | (.command _ (.manualAck input), .delivery (.ok (.applied _))) => input.key == key
  | _ => false

/-- The event is a settlement of `key` that was applied. -/
def settles : Event × Outcome → Bool
  | (.command _ (.settle input), .delivery (.ok (.applied _))) => input.key == key
  | _ => false

def retires (id : AgentId) : Event × Outcome → Bool
  | (.retire _ target, .retirement (.ok (.retired _))) => target.owner.key.recipientId == id
  | _ => false

/-- The event is a close of `key` that was applied. -/
def closes : Event × Outcome → Bool
  | (.command _ (.close sent), .delivery (.ok (.applied _))) => sent == key
  | _ => false

end

end FerroLoop.Wire.Delivery

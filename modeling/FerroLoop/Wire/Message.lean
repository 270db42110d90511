import FerroLoop.Agents.Records
import FerroLoop.Vault.Instants

/-!
The wire's own data, as the peer-delivery contracts read it (`crates/core/src/ferrowire.rs`,
`agent.rs`, `at.rs`, `ids.rs`).
-/

namespace FerroLoop.Wire

open Agents (AgentRole)
open Vault (fromUnixMillis maxMillis)

structure Iri where
  text : String
  deriving DecidableEq

/-- The byte length Rust's `str::len` gives. -/
def Iri.len (iri : Iri) : Nat := iri.text.utf8ByteSize

structure MessageId where
  iri : Iri
  deriving DecidableEq

structure AgentId where
  iri : Iri
  deriving DecidableEq

/-- A timestamp. Its one fixed-width spelling orders as its milliseconds do, so the model
keeps the milliseconds and spells them in `At.text`. -/
structure At where
  unixMillis : Nat
  within : unixMillis ≤ maxMillis
  deriving DecidableEq

instance : LT At := ⟨fun a b => a.unixMillis < b.unixMillis⟩
instance : LE At := ⟨fun a b => a.unixMillis ≤ b.unixMillis⟩
instance (a b : At) : Decidable (a < b) := inferInstanceAs (Decidable (a.unixMillis < b.unixMillis))
instance (a b : At) : Decidable (a ≤ b) := inferInstanceAs (Decidable (a.unixMillis ≤ b.unixMillis))

def At.max (a b : At) : At := if a ≤ b then b else a

def At.text (at_ : At) : String := fromUnixMillis at_.unixMillis

abbrev AreaRecord := Agents.AreaRecord At

abbrev AgentRecord := Agents.AgentRecord AgentId At

inductive WireAddress where
  | agentName (name : String)
  | agentId (id : AgentId)
  | all
  | area (area : String)
  | role (role : AgentRole)
  | areaRole (area : String) (role : AgentRole)
  | council
  | group (group : String)
  deriving DecidableEq

inductive MessageKind where
  | mail | ask | reply | handoff | taskOffer | approvalRequest | system
  deriving DecidableEq

def MessageKind.asWire : MessageKind → String
  | .mail => "mail"
  | .ask => "ask"
  | .reply => "reply"
  | .handoff => "handoff"
  | .taskOffer => "task_offer"
  | .approvalRequest => "approval_request"
  | .system => "system"

inductive MessageUrgency where
  | normal | urgent
  deriving DecidableEq

def MessageUrgency.asWire : MessageUrgency → String
  | .normal => "normal"
  | .urgent => "urgent"

structure WireMessage where
  id : MessageId
  threadId : MessageId
  replyTo : Option MessageId
  correlationId : Option MessageId
  senderId : Option AgentId
  senderName : String
  senderHost : Option String
  to_ : WireAddress
  kind : MessageKind
  urgency : MessageUrgency
  durable : Bool
  subject : String
  body : String
  createdAt : At
  deadlineAt : Option At
  deriving DecidableEq

inductive DeliveryStatus where
  | pending | delivered | acked | expired
  deriving DecidableEq

structure DeliveryReceipt where
  messageId : MessageId
  recipientId : Iri
  recipientName : String
  status : DeliveryStatus
  attempts : Nat
  updatedAt : At
  ackedAt : Option At
  deriving DecidableEq

/-- How often a message is pushed to a recipient (`MAX_DELIVER`). -/
def maxDeliver : Nat := 5

def settled (status : DeliveryStatus) : Bool := status == .acked || status == .expired

def deliverable (receipt : DeliveryReceipt) : Bool := !settled receipt.status && receipt.attempts < maxDeliver

end FerroLoop.Wire

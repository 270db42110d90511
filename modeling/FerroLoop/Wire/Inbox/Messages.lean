import FerroLoop.Store.Collections
import FerroLoop.Workflow.Definition
import FerroLoop.Wire.Message

/-!
Messages, receipts and the registry they are resolved against (`crates/core/src/ferrowire.rs`,
`agent.rs`, `ids.rs`): validation of a message, the merge of two copies of a receipt, and the
recipients of an address.
-/

namespace FerroLoop.Wire.Inbox

open Text
open Store (BTreeMap)
open Agents (AgentStatus StateError validateSlug)

inductive Kind where
  | project | gate | record | finding | state | agent | message | workflow | workflowRun
  deriving DecidableEq

def Kind.asWire : Kind → String
  | .project => "project"
  | .gate => "gate"
  | .record => "record"
  | .finding => "finding"
  | .state => "state"
  | .agent => "agent"
  | .message => "message"
  | .workflow => "workflow"
  | .workflowRun => "workflow_run"

def maxSubjectBytes : Nat := 512
def maxWireBodyBytes : Nat := 262144

def validateSubject (raw : String) : Except StateError String :=
  if raw.toList.contains '\n' || raw.toList.contains '\r' then .error .invalidMessageSubject
  else
    let trimmed := trim raw
    if trimmed = "" ∨ maxSubjectBytes < trimmed.utf8ByteSize then .error .invalidMessageSubject else .ok trimmed

def validateWireBody (raw : String) : Except StateError String :=
  if trim raw = "" ∨ maxWireBodyBytes < raw.utf8ByteSize then .error (.invalidMessageBody raw.utf8ByteSize) else .ok raw

def validateSenderName (raw : String) : Except StateError String :=
  let trimmed := trim raw
  if eqIgnoreAsciiCase trimmed "system" || eqIgnoreAsciiCase trimmed "owner" || eqIgnoreAsciiCase trimmed "unknown" then
    .ok (toAsciiLowercase trimmed)
  else validateSlug trimmed

def validate (message : WireMessage) : Except StateError Unit := do
  let _ ← validateSubject message.subject
  let _ ← validateWireBody message.body
  let _ ← validateSenderName message.senderName
  if message.kind = .reply ∧ (message.replyTo.isNone ∨ message.correlationId.isNone) then .error .replyRequiresParent

/-- How far a delivery got: `Pending < Delivered < Expired < Acked`. -/
def rank : DeliveryStatus → Nat
  | .pending => 0
  | .delivered => 1
  | .expired => 2
  | .acked => 3

def earlier (a b : At) : At := if a ≤ b then a else b

/-- A real name beats a `urn:` placeholder, which beats none. -/
def nameRank (name : String) : Nat :=
  if name = "" then 0 else if "urn:".toList.isPrefixOf name.toList then 1 else 2

def betterName (a b : String) : String :=
  match compare (nameRank a) (nameRank b) with
  | .gt => a
  | .lt => b
  | .eq => min a b

def mergedAckedAt (updatedAt : At) : Option At → Option At → Option At
  | some a, some b => some (earlier a b)
  | some a, none => some a
  | none, some b => some b
  | none, none => some updatedAt

/-- `DeliveryReceipt::merge`. -/
def merge (held incoming : DeliveryReceipt) : DeliveryReceipt :=
  let status := if rank incoming.status ≤ rank held.status then held.status else incoming.status
  let updatedAt := held.updatedAt.max incoming.updatedAt
  { messageId := held.messageId
    recipientId := held.recipientId
    recipientName := betterName held.recipientName incoming.recipientName
    status
    attempts := max held.attempts incoming.attempts
    updatedAt
    ackedAt := if status = .acked then mergedAckedAt updatedAt held.ackedAt incoming.ackedAt else none }

def fallbackAgentIri (nameKey : String) : Iri := ⟨"urn:fl:agent:" ++ toAsciiLowercase nameKey⟩

def councilArea : String := "council"

def selected (agents : List AgentRecord) (reached : AgentRecord → Bool) : List (Iri × String) :=
  ((agents.filter reached).map fun agent => (agent.id.iri, agent.nameKey)).mergeSort fun a b => (compare a.2 b.2).isLE

def resolveRecipients (to_ : WireAddress) (senderId : Option AgentId) (senderName : String) (agents : List AgentRecord)
    (areas : List AreaRecord) : List (Iri × String) :=
  let isSender (agent : AgentRecord) : Bool := senderId == some agent.id || agent.nameKey == senderName
  let others (reached : AgentRecord → Bool) : List (Iri × String) :=
    selected agents fun agent => agent.status == .active && reached agent && !isSender agent
  match to_ with
  | .agentName name =>
    match agents.find? fun agent => agent.status == .active && agent.nameKey == name with
    | some agent => [(agent.id.iri, agent.nameKey)]
    | none => [(fallbackAgentIri name, name)]
  | .agentId id =>
    match agents.find? fun agent => agent.id == id with
    | some agent => [(agent.id.iri, agent.nameKey)]
    | none => [(id.iri, id.iri.text)]
  | .all => others fun _ => true
  | .area slug => others fun agent => agent.coversArea slug
  | .role role => others fun agent => agent.role == role
  | .council => others fun agent => agent.coversArea councilArea || agent.role == .strategist
  | .group key =>
    if areas.any fun area => area.areaKey == key && area.isVirtual then others fun agent => agent.coversArea key else []
  | .areaRole area role => others fun agent => agent.coversArea area && agent.role == role

end FerroLoop.Wire.Inbox

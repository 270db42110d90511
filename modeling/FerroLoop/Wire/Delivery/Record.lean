import FerroLoop.Wire.Message

/-!
The durable data of peer delivery: records, their attempts, the recipient and global controls,
and the commands that change them (`crates/core/src/wire_delivery.rs`).
-/

namespace FerroLoop.Wire.Delivery

def deliverySchemaVersion : Nat := 1
def peerRendererVersion : String := "wire-peer-envelope-v1"

abbrev Bytes32 := Vector UInt8 32

structure Digest where
  bytes : Bytes32
  deriving DecidableEq

structure InstanceId where
  bytes : Bytes32
  deriving DecidableEq

structure WorkerId where
  bytes : Bytes32
  deriving DecidableEq

structure ConnectionId where
  bytes : Bytes32
  deriving DecidableEq

structure PhaseToken where
  bytes : Bytes32
  deriving DecidableEq

/-- A `u64` compare-and-swap counter; `bump` refuses to pass the type's end. -/
structure Revision where
  value : Nat
  deriving DecidableEq

inductive Lane where
  | push | hook
  deriving DecidableEq

inductive Transport where
  | queue | steer | stdout
  deriving DecidableEq

inductive Eligibility where
  | eligible | prepared | mutationArmed | settled | held
  deriving DecidableEq

inductive HoldReason where
  | disabled | unknownIdentity | aliasConflict | generationConflict | wrongHome
  | budgetExhausted | capacity | expired | unsupportedVersion | unsupportedBackend
  | legacyUncertain | continuityLost | corrupt | unconfirmed | evidenceOverflow
  deriving DecidableEq

inductive CapacityState where
  | held | released | retired
  deriving DecidableEq

/-- A transport observation, never proof of model consumption. -/
inductive DeliveryEvidence where
  | preMutationRefused
  | definitiveNoMutation
  | mutationUnconfirmed
  | vendorQueued
  | appServerAccepted (thread turn : String)
  | hookEmissionCompleted
  deriving DecidableEq

inductive IdentityResolution where
  | unresolved
  | unique (recipientId : AgentId) (bindingRevision : Revision)
  | conflict
  deriving DecidableEq

structure DeliveryKey where
  originalId : MessageId
  recipientId : AgentId
  deriving DecidableEq

structure Binding where
  recipientId : AgentId
  bindingRevision : Revision
  authorityId : String
  localEpoch : Nat
  policyHash : Digest
  deriving DecidableEq

structure RoutePin where
  threadId : String
  generation : Nat
  fingerprint : Digest
  executable : Option String
  executableDigest : Option Digest
  deriving DecidableEq

structure LifetimeRegistration where
  id : Digest
  revision : Revision
  home : Digest
  boot : Digest
  inst : InstanceId
  worker : WorkerId
  connection : ConnectionId
  emitterScope : Digest
  deriving DecidableEq

structure AttemptBinding where
  token : PhaseToken
  daemon : InstanceId
  worker : WorkerId
  connection : ConnectionId
  lane : Lane
  lifetime : LifetimeRegistration
  deriving DecidableEq

structure FrozenPayload where
  renderer : String
  transport : Transport
  expectedTurn : Option String
  bytes : List UInt8
  digest : Digest
  deriving DecidableEq

structure AcknowledgmentState where
  manualAt : Option At := none
  legacyUnknown : Bool := false
  deriving DecidableEq

abbrev Excerpt := List Char

structure AttemptSummary where
  binding : AttemptBinding
  route : RoutePin
  frozen : Option FrozenPayload
  preparedAt : At
  armedAt : Option At
  evidence : Option DeliveryEvidence
  detail : Excerpt
  capacity : CapacityState
  deriving DecidableEq

structure DeliveryRecord where
  schema : Nat
  key : DeliveryKey
  generation : Digest
  binding : Binding
  revision : Revision
  eligibility : Eligibility
  prepares : Nat
  attempts : List AttemptSummary
  acknowledgment : AcknowledgmentState
  held : Option HoldReason
  annotation : String
  deriving DecidableEq

structure ActiveOwner where
  key : DeliveryKey
  attempt : AttemptBinding
  deriving DecidableEq

structure CapacityRetirementTarget where
  owner : ActiveOwner
  recordRevision : Revision
  recipientRevision : Revision
  globalRevision : Revision
  deriving DecidableEq

structure RecipientControl where
  binding : Binding
  revision : Revision
  active : Option ActiveOwner
  barrier : Option DeliveryKey
  identityConflict : Bool
  deriving DecidableEq

structure GlobalControl where
  revision : Revision := ⟨0⟩
  activeAttempts : Nat := 0
  activeIndex : List ActiveOwner := []
  deriving DecidableEq

structure Continuity where
  schema : Nat
  cutover : At
  policyHash : Digest
  localEpoch : Nat
  enabled : Bool
  intact : Bool
  deriving DecidableEq

structure IdReservation where
  originalId : MessageId
  generation : Digest
  deriving DecidableEq

structure IdentityContext where
  registry : Option AgentRecord
  selector : IdentityResolution
  receiptAlias : IdentityResolution
  deriving DecidableEq

structure EvidenceView where
  lane : Lane
  route : RoutePin
  preparedAt : At
  armedAt : Option At
  evidence : Option DeliveryEvidence
  detail : Excerpt
  payloadDigest : Option Digest
  capacity : CapacityState
  deriving DecidableEq

structure DeliveryView where
  key : DeliveryKey
  generation : Digest
  binding : Binding
  revision : Revision
  eligibility : Eligibility
  prepares : Nat
  attempts : List EvidenceView
  acknowledgment : AcknowledgmentState
  held : Option HoldReason
  annotation : String
  barrier : Option DeliveryKey
  deriving DecidableEq

structure PrepareInput where
  key : DeliveryKey
  generation : Digest
  binding : Binding
  attempt : AttemptBinding
  route : RoutePin
  now : At
  deriving DecidableEq

structure ArmInput where
  key : DeliveryKey
  revision : Revision
  attempt : AttemptBinding
  route : RoutePin
  frozen : FrozenPayload
  now : At
  deriving DecidableEq

structure ReleaseInput where
  key : DeliveryKey
  revision : Revision
  attempt : AttemptBinding
  proof : DeliveryEvidence
  now : At
  deriving DecidableEq

structure SettleInput where
  key : DeliveryKey
  revision : Revision
  attempt : AttemptBinding
  evidence : DeliveryEvidence
  detail : String
  now : At
  deriving DecidableEq

structure ManualAckInput where
  key : DeliveryKey
  at_ : At
  deriving DecidableEq

inductive DeliveryCommand where
  | prepare (input : PrepareInput)
  | arm (input : ArmInput)
  | release (input : ReleaseInput)
  | settle (input : SettleInput)
  | manualAck (input : ManualAckInput)
  | invalidatePrepared (key : DeliveryKey) (revision : Revision) (now : At)
  | annotate (key : DeliveryKey) (text : String)
  | close (key : DeliveryKey)
  deriving DecidableEq

def DeliveryCommand.key : DeliveryCommand → DeliveryKey
  | .prepare input => input.key
  | .arm input => input.key
  | .release input => input.key
  | .settle input => input.key
  | .manualAck input => input.key
  | .invalidatePrepared key _ _ => key
  | .annotate key _ => key
  | .close key => key

structure TransitionContext where
  key : DeliveryKey
  record : Option DeliveryRecord
  reservation : Option IdReservation
  recipient : RecipientControl
  global : GlobalControl
  continuity : Continuity
  message : Option WireMessage
  receipt : Option DeliveryReceipt
  identity : IdentityContext
  lifetime : Option LifetimeRegistration

inductive DeliveryResult where
  | prepared (record : DeliveryRecord)
  | armed (record : DeliveryRecord)
  | applied (view : DeliveryView)
  | refused (reason : HoldReason)
  deriving DecidableEq

inductive CapacityRetirementResult where
  | retired (view : DeliveryView)
  | alreadyReleased (view : DeliveryView)
  | unproven
  | stale
  deriving DecidableEq

structure DeliveryDelta where
  record : Option DeliveryRecord
  reservation : Option IdReservation
  recipient : Option RecipientControl
  global : Option GlobalControl
  receipt : Option DeliveryReceipt
  result : DeliveryResult

structure CapacityRetirementDelta where
  record : Option DeliveryRecord
  recipient : Option RecipientControl
  global : Option GlobalControl
  result : CapacityRetirementResult

/-- Redacted inspection; this view cannot be used to reconstruct a grant. -/
def DeliveryRecord.view (record : DeliveryRecord) (recipient : RecipientControl) : DeliveryView where
  key := record.key
  generation := record.generation
  binding := record.binding
  revision := record.revision
  eligibility := record.eligibility
  prepares := record.prepares
  attempts := record.attempts.map fun a =>
    { lane := a.binding.lane, route := a.route, preparedAt := a.preparedAt, armedAt := a.armedAt,
      evidence := a.evidence, detail := a.detail, payloadDigest := a.frozen.map (·.digest),
      capacity := a.capacity }
  acknowledgment := record.acknowledgment
  held := record.held
  annotation := record.annotation
  barrier := recipient.barrier

end FerroLoop.Wire.Delivery

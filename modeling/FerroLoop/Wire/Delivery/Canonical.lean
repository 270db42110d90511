import FerroLoop.Lib.Json
import FerroLoop.Wire.Delivery.Record

/-!
The bytes a delivery hashes and measures: the canonical encodings of a message and of a payload
(`crates/core/src/wire_delivery/c14n.rs`) and the JSON of a record as its derived `Serialize`
writes it. The hash itself is a parameter.
-/

namespace FerroLoop.Wire.Delivery
open Json
open Text (textBytes)

/-- SHA-256, which the `sha2` crate computes. -/
abbrev Sha256 := List UInt8 → Bytes32

/-- A `u64` in big-endian order. -/
def beBytes (n : Nat) : List UInt8 :=
  [56, 48, 40, 32, 24, 16, 8, 0].map fun shift => UInt8.ofNat (n / 2 ^ shift % 256)

/-- A field with its length before it. A length always fits its `u64`. -/
def encodeLp (bytes : List UInt8) : List UInt8 := beBytes bytes.length ++ bytes

def encodeText (text : String) : List UInt8 := encodeLp (textBytes text)

def encodeOption : Option String → List UInt8
  | none => [0]
  | some value => 1 :: encodeText value

def encodeSelector : WireAddress → List UInt8
  | .agentName name => encodeText "agent_name" ++ encodeText name
  | .agentId id => encodeText "agent_id" ++ encodeText id.iri.text
  | .all => encodeText "all"
  | .area area => encodeText "area" ++ encodeText area
  | .role role => encodeText "role" ++ encodeText role.asWire
  | .areaRole area role => encodeText "area_role" ++ encodeText area ++ encodeText role.asWire
  | .council => encodeText "council"
  | .group group => encodeText "group" ++ encodeText group

def generationBytes (msg : WireMessage) : List UInt8 :=
  encodeText "FerroLoop/WireDelivery/generation/v1" ++
  encodeText msg.id.iri.text ++
  encodeText msg.threadId.iri.text ++
  encodeOption (msg.replyTo.map (·.iri.text)) ++
  encodeOption (msg.correlationId.map (·.iri.text)) ++
  encodeOption (msg.senderId.map (·.iri.text)) ++
  encodeText msg.senderName ++
  encodeOption msg.senderHost ++
  encodeSelector msg.to_ ++
  encodeText msg.kind.asWire ++
  encodeText msg.urgency.asWire ++
  [if msg.durable then 1 else 0] ++
  encodeText msg.subject ++
  encodeText msg.body ++
  encodeText msg.createdAt.text ++
  encodeOption (msg.deadlineAt.map (·.text))

def payloadBytes (generation : Digest) (renderer : String) (bytes : List UInt8) : List UInt8 :=
  encodeText "FerroLoop/WireDelivery/payload/v1" ++
  encodeText renderer ++
  beBytes 1 ++
  encodeLp generation.bytes.toList ++
  encodeLp bytes

def canonicalGeneration (sha : Sha256) (msg : WireMessage) : Digest := ⟨sha (generationBytes msg)⟩

def canonicalPayload (sha : Sha256) (generation : Digest) (renderer : String) (bytes : List UInt8) : Digest :=
  ⟨sha (payloadBytes generation renderer bytes)⟩

def bytesJson (bytes : List UInt8) : Json := .arr (bytes.map fun b => .nat b.toNat)

def Digest.json (digest : Digest) : Json := bytesJson digest.bytes.toList
def InstanceId.json (id : InstanceId) : Json := bytesJson id.bytes.toList
def WorkerId.json (id : WorkerId) : Json := bytesJson id.bytes.toList
def ConnectionId.json (id : ConnectionId) : Json := bytesJson id.bytes.toList
def PhaseToken.json (token : PhaseToken) : Json := bytesJson token.bytes.toList
def Revision.json (revision : Revision) : Json := .nat revision.value

def Lane.json : Lane → Json
  | .push => .text "push"
  | .hook => .text "hook"

def Transport.json : Transport → Json
  | .queue => .text "queue"
  | .steer => .text "steer"
  | .stdout => .text "stdout"

def Eligibility.json : Eligibility → Json
  | .eligible => .text "eligible"
  | .prepared => .text "prepared"
  | .mutationArmed => .text "mutation_armed"
  | .settled => .text "settled"
  | .held => .text "held"

def HoldReason.json : HoldReason → Json
  | .disabled => .text "disabled"
  | .unknownIdentity => .text "unknown_identity"
  | .aliasConflict => .text "alias_conflict"
  | .generationConflict => .text "generation_conflict"
  | .wrongHome => .text "wrong_home"
  | .budgetExhausted => .text "budget_exhausted"
  | .capacity => .text "capacity"
  | .expired => .text "expired"
  | .unsupportedVersion => .text "unsupported_version"
  | .unsupportedBackend => .text "unsupported_backend"
  | .legacyUncertain => .text "legacy_uncertain"
  | .continuityLost => .text "continuity_lost"
  | .corrupt => .text "corrupt"
  | .unconfirmed => .text "unconfirmed"
  | .evidenceOverflow => .text "evidence_overflow"

def CapacityState.json : CapacityState → Json
  | .held => .text "held"
  | .released => .text "released"
  | .retired => .text "retired"

def DeliveryEvidence.json : DeliveryEvidence → Json
  | .preMutationRefused => .obj [("kind", .text "pre_mutation_refused")]
  | .definitiveNoMutation => .obj [("kind", .text "definitive_no_mutation")]
  | .mutationUnconfirmed => .obj [("kind", .text "mutation_unconfirmed")]
  | .vendorQueued => .obj [("kind", .text "vendor_queued")]
  | .appServerAccepted thread turn =>
    .obj [("kind", .text "app_server_accepted"),
      ("data", .obj [("thread", .text thread), ("turn", .text turn)])]
  | .hookEmissionCompleted => .obj [("kind", .text "hook_emission_completed")]

def At.json (at_ : At) : Json := .text at_.text

def LifetimeRegistration.json (r : LifetimeRegistration) : Json :=
  .obj [("id", r.id.json), ("revision", r.revision.json), ("home", r.home.json), ("boot", r.boot.json),
    ("instance", r.inst.json), ("worker", r.worker.json), ("connection", r.connection.json),
    ("emitter_scope", r.emitterScope.json)]

def AttemptBinding.json (b : AttemptBinding) : Json :=
  .obj [("token", b.token.json), ("daemon", b.daemon.json), ("worker", b.worker.json),
    ("connection", b.connection.json), ("lane", b.lane.json), ("lifetime", b.lifetime.json)]

def RoutePin.json (r : RoutePin) : Json :=
  .obj [("thread_id", .text r.threadId), ("generation", .nat r.generation),
    ("fingerprint", r.fingerprint.json), ("executable", option .text r.executable),
    ("executable_digest", option Digest.json r.executableDigest)]

def FrozenPayload.json (f : FrozenPayload) : Json :=
  .obj [("renderer", .text f.renderer), ("transport", f.transport.json),
    ("expected_turn", option .text f.expectedTurn), ("bytes", bytesJson f.bytes), ("digest", f.digest.json)]

def AttemptSummary.json (a : AttemptSummary) : Json :=
  .obj [("binding", a.binding.json), ("route", a.route.json), ("frozen", option FrozenPayload.json a.frozen),
    ("prepared_at", At.json a.preparedAt), ("armed_at", option At.json a.armedAt),
    ("evidence", option DeliveryEvidence.json a.evidence), ("detail", .str a.detail),
    ("capacity", a.capacity.json)]

def DeliveryKey.json (key : DeliveryKey) : Json :=
  .obj [("original_id", .text key.originalId.iri.text), ("recipient_id", .text key.recipientId.iri.text)]

def Binding.json (b : Binding) : Json :=
  .obj [("recipient_id", .text b.recipientId.iri.text), ("binding_revision", b.bindingRevision.json),
    ("authority_id", .text b.authorityId), ("local_epoch", .nat b.localEpoch),
    ("policy_hash", b.policyHash.json)]

def AcknowledgmentState.json (a : AcknowledgmentState) : Json :=
  .obj [("manual_at", option At.json a.manualAt), ("legacy_unknown", .bool a.legacyUnknown)]

def DeliveryRecord.json (r : DeliveryRecord) : Json :=
  .obj [("schema", .nat r.schema), ("key", r.key.json), ("generation", r.generation.json),
    ("binding", r.binding.json), ("revision", r.revision.json), ("eligibility", r.eligibility.json),
    ("prepares", .nat r.prepares), ("attempts", .arr (r.attempts.map AttemptSummary.json)),
    ("acknowledgment", r.acknowledgment.json), ("held", option HoldReason.json r.held),
    ("annotation", .text r.annotation)]

end FerroLoop.Wire.Delivery

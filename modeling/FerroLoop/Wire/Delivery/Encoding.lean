import FerroLoop.Lib.Bytes
import FerroLoop.Wire.Delivery.Canonical

namespace FerroLoop.Wire.Delivery

open List
open Text (textBytes textBytes_inj)

/-- `encode_lp` has a length to write. -/
def Fits (bytes : List UInt8) : Prop := bytes.length < 2 ^ 64

def FitsText (text : String) : Prop := Fits (textBytes text)

def FitsOption (value : Option String) : Prop := ∀ text ∈ value, FitsText text

def selectorParts : WireAddress → List String
  | .agentName name => ["agent_name", name]
  | .agentId id => ["agent_id", id.iri.text]
  | .all => ["all"]
  | .area area => ["area", area]
  | .role role => ["role", role.asWire]
  | .areaRole area role => ["area_role", area, role.asWire]
  | .council => ["council"]
  | .group group => ["group", group]

/-- The messages the canonical encoding accepts. -/
structure Encodes (msg : WireMessage) : Prop where
  id : FitsText msg.id.iri.text
  threadId : FitsText msg.threadId.iri.text
  replyTo : FitsOption (msg.replyTo.map (·.iri.text))
  correlationId : FitsOption (msg.correlationId.map (·.iri.text))
  senderId : FitsOption (msg.senderId.map (·.iri.text))
  senderName : FitsText msg.senderName
  senderHost : FitsOption msg.senderHost
  to_ : ∀ part ∈ selectorParts msg.to_, FitsText part
  kind : FitsText msg.kind.asWire
  urgency : FitsText msg.urgency.asWire
  subject : FitsText msg.subject
  body : FitsText msg.body
  createdAt : FitsText msg.createdAt.text
  deadlineAt : FitsOption (msg.deadlineAt.map (·.text))

/-- Two messages agree in what a generation covers. A timestamp is its text. -/
structure SameGeneration (a b : WireMessage) : Prop where
  id : a.id = b.id
  threadId : a.threadId = b.threadId
  replyTo : a.replyTo = b.replyTo
  correlationId : a.correlationId = b.correlationId
  senderId : a.senderId = b.senderId
  senderName : a.senderName = b.senderName
  senderHost : a.senderHost = b.senderHost
  to_ : a.to_ = b.to_
  kind : a.kind = b.kind
  urgency : a.urgency = b.urgency
  durable : a.durable = b.durable
  subject : a.subject = b.subject
  body : a.body = b.body
  createdAt : a.createdAt.text = b.createdAt.text
  deadlineAt : a.deadlineAt.map (·.text) = b.deadlineAt.map (·.text)

variable {rest rest' : List UInt8}

theorem beBytes_toLe (n : Nat) : beBytes n = (Bytes.toLe 8 n).reverse := by
  simp only [beBytes, Bytes.toLe, map_cons, map_nil, Nat.div_div_eq_div_mul]
  simp

theorem encodeLp_inj {a b : List UInt8} (fits : Fits a) (fits' : Fits b) (same : encodeLp a ++ rest = encodeLp b ++ rest') :
    a = b ∧ rest = rest' := by
  unfold encodeLp at same
  rw [append_assoc, append_assoc] at same
  obtain ⟨lengths, others⟩ := append_inj same (by simp [beBytes])
  rw [beBytes_toLe, beBytes_toLe] at lengths
  have numbers := congrArg Bytes.fromLe (reverse_inj.mp lengths)
  unfold Fits at fits fits'
  rw [Bytes.fromLe_toLe (by omega), Bytes.fromLe_toLe (by omega)] at numbers
  exact append_inj others numbers

theorem encodeText_inj {a b : String} (fits : FitsText a) (fits' : FitsText b)
    (same : encodeText a ++ rest = encodeText b ++ rest') : a = b ∧ rest = rest' := by
  obtain ⟨bytes, others⟩ := encodeLp_inj fits fits' same
  exact ⟨textBytes_inj bytes, others⟩

theorem encodeOption_inj {a b : Option String} (fits : FitsOption a) (fits' : FitsOption b)
    (same : encodeOption a ++ rest = encodeOption b ++ rest') : a = b ∧ rest = rest' := by
  cases a with
  | none =>
    cases b with
    | none => exact ⟨rfl, (List.cons.inj same).2⟩
    | some other => exact absurd (List.cons.inj same).1 (by decide)
  | some value =>
    cases b with
    | none => exact absurd (List.cons.inj same).1 (by decide)
    | some other =>
      obtain ⟨texts, others⟩ := encodeText_inj (fits value rfl) (fits' other rfl) (List.cons.inj same).2
      exact ⟨congrArg some texts, others⟩

theorem parts_inj {a b : List String} (long : a.length = b.length) (fits : ∀ part ∈ a, FitsText part)
    (fits' : ∀ part ∈ b, FitsText part) (same : a.flatMap encodeText ++ rest = b.flatMap encodeText ++ rest') :
    a = b ∧ rest = rest' := by
  induction a generalizing b with
  | nil =>
    cases b with
    | nil => exact ⟨rfl, same⟩
    | cons part others => cases long
  | cons first others ih =>
    rcases b with _ | ⟨part, others'⟩
    · cases long
    rw [flatMap_cons, flatMap_cons, append_assoc, append_assoc] at same
    obtain ⟨heads, tails⟩ := encodeText_inj (fits first mem_cons_self) (fits' part mem_cons_self) same
    obtain ⟨lists, rests⟩ := ih (Nat.succ.inj long) (fun x member => fits x (mem_cons_of_mem _ member))
      (fun x member => fits' x (mem_cons_of_mem _ member)) tails
    exact ⟨by rw [heads, lists], rests⟩

theorem messageText_inj : Function.Injective fun id : MessageId => id.iri.text := by
  rintro ⟨⟨text⟩⟩ ⟨⟨other⟩⟩ same
  exact congrArg (fun text => MessageId.mk ⟨text⟩) same

theorem agentText_inj : Function.Injective fun id : AgentId => id.iri.text := by
  rintro ⟨⟨text⟩⟩ ⟨⟨other⟩⟩ same
  exact congrArg (fun text => AgentId.mk ⟨text⟩) same

theorem MessageKind.asWire_inj {a b : MessageKind} (same : a.asWire = b.asWire) : a = b := by
  cases a <;> cases b <;> first
    | rfl
    | exact absurd same (by decide)

theorem MessageUrgency.asWire_inj {a b : MessageUrgency} (same : a.asWire = b.asWire) : a = b := by
  cases a <;> cases b <;> first
    | rfl
    | exact absurd same (by decide)

variable {a b : WireAddress}

theorem selectorParts_inj (same : selectorParts a = selectorParts b) : a = b := by
  cases a <;> cases b <;> simp_all [selectorParts]
  case agentId.agentId => exact agentText_inj same
  case role.role => exact Agents.AgentRole.asWire_inj same
  case areaRole.areaRole => exact Agents.AgentRole.asWire_inj same.2

theorem encodeSelector_parts (address : WireAddress) : encodeSelector address = (selectorParts address).flatMap encodeText := by
  cases address <;> simp [encodeSelector, selectorParts]

/-- The kind of an address says how many parts follow it. -/
theorem selectorParts_length {tag : String} {more more' : List String}
    (parts : selectorParts a = tag :: more) (parts' : selectorParts b = tag :: more') : more.length = more'.length := by
  cases a <;> cases b <;> first
    | exact absurd ((List.cons.inj parts).1.trans (List.cons.inj parts').1.symm) (by decide)
    | simp [← (List.cons.inj parts).2, ← (List.cons.inj parts').2]

theorem encodeSelector_inj (fits : ∀ part ∈ selectorParts a, FitsText part)
    (fits' : ∀ part ∈ selectorParts b, FitsText part) (same : encodeSelector a ++ rest = encodeSelector b ++ rest') :
    a = b ∧ rest = rest' := by
  obtain ⟨tag, more, parts⟩ : ∃ tag more, selectorParts a = tag :: more := by cases a <;> exact ⟨_, _, rfl⟩
  obtain ⟨tag', more', parts'⟩ : ∃ tag more, selectorParts b = tag :: more := by cases b <;> exact ⟨_, _, rfl⟩
  rw [encodeSelector_parts, encodeSelector_parts] at same
  have heads : tag = tag' := by
    rw [parts] at fits
    rw [parts'] at fits'
    rw [parts, parts', flatMap_cons, flatMap_cons, append_assoc, append_assoc] at same
    exact (encodeText_inj (fits tag mem_cons_self) (fits' tag' mem_cons_self) same).1
  subst heads
  have long : (selectorParts a).length = (selectorParts b).length := by
    rw [parts, parts', length_cons, length_cons, selectorParts_length parts parts']
  obtain ⟨equal, others⟩ := parts_inj long fits fits' same
  exact ⟨selectorParts_inj equal, others⟩

theorem generationBytes_inj {a b : WireMessage} (accepted : Encodes a) (accepted' : Encodes b)
    (same : generationBytes a = generationBytes b) : SameGeneration a b := by
  simp only [generationBytes, append_assoc] at same
  have same := append_cancel_left same
  obtain ⟨id, same⟩ := encodeText_inj accepted.id accepted'.id same
  obtain ⟨threadId, same⟩ := encodeText_inj accepted.threadId accepted'.threadId same
  obtain ⟨replyTo, same⟩ := encodeOption_inj accepted.replyTo accepted'.replyTo same
  obtain ⟨correlationId, same⟩ := encodeOption_inj accepted.correlationId accepted'.correlationId same
  obtain ⟨senderId, same⟩ := encodeOption_inj accepted.senderId accepted'.senderId same
  obtain ⟨senderName, same⟩ := encodeText_inj accepted.senderName accepted'.senderName same
  obtain ⟨senderHost, same⟩ := encodeOption_inj accepted.senderHost accepted'.senderHost same
  obtain ⟨to_, same⟩ := encodeSelector_inj accepted.to_ accepted'.to_ same
  obtain ⟨kind, same⟩ := encodeText_inj accepted.kind accepted'.kind same
  obtain ⟨urgency, same⟩ := encodeText_inj accepted.urgency accepted'.urgency same
  rw [singleton_append, singleton_append] at same
  obtain ⟨flag, same⟩ := List.cons.inj same
  obtain ⟨subject, same⟩ := encodeText_inj accepted.subject accepted'.subject same
  obtain ⟨body, same⟩ := encodeText_inj accepted.body accepted'.body same
  obtain ⟨createdAt, same⟩ := encodeText_inj accepted.createdAt accepted'.createdAt same
  obtain ⟨deadlineAt, -⟩ := @encodeOption_inj [] [] _ _ accepted.deadlineAt accepted'.deadlineAt (by
    rw [append_nil, append_nil]
    exact same)
  have durable : a.durable = b.durable := by
    cases first : a.durable <;> cases second : b.durable <;> simp_all
  exact ⟨messageText_inj id, messageText_inj threadId, Option.map_injective messageText_inj replyTo,
    Option.map_injective messageText_inj correlationId, Option.map_injective agentText_inj senderId, senderName, senderHost,
    to_, MessageKind.asWire_inj kind, MessageUrgency.asWire_inj urgency, durable, subject, body, createdAt, deadlineAt⟩

theorem payloadBytes_inj {generation generation' : Digest} {renderer renderer' : String} {bytes bytes' : List UInt8}
    (named : FitsText renderer) (named' : FitsText renderer') (fits : Fits bytes) (fits' : Fits bytes')
    (same : payloadBytes generation renderer bytes = payloadBytes generation' renderer' bytes') :
    generation = generation' ∧ renderer = renderer' ∧ bytes = bytes' := by
  simp only [payloadBytes, append_assoc] at same
  have same := append_cancel_left same
  obtain ⟨renderers, same⟩ := encodeText_inj named named' same
  have same := append_cancel_left same
  have short : ∀ digest : Digest, Fits digest.bytes.toList := fun digest => by simp [Fits]
  obtain ⟨digests, same⟩ := encodeLp_inj (short generation) (short generation') same
  obtain ⟨payloads, -⟩ := @encodeLp_inj [] [] _ _ fits fits' (by
    rw [append_nil, append_nil]
    exact same)
  refine ⟨?_, renderers, payloads⟩
  cases generation
  cases generation'
  exact congrArg Digest.mk (Vector.toList_inj.mp digests)

theorem domains_differ (msg : WireMessage) (generation : Digest) (renderer : String) (bytes : List UInt8) :
    generationBytes msg ≠ payloadBytes generation renderer bytes := by
  intro same
  simp only [generationBytes, payloadBytes, append_assoc] at same
  have domains := (encodeText_inj (Nat.lt_of_le_of_lt (by decide +kernel : _ ≤ 100) (by decide))
    (Nat.lt_of_le_of_lt (by decide +kernel : _ ≤ 100) (by decide)) same).1
  exact absurd domains (by decide)

/-- The canonical bytes of a message and of a payload say which message or payload they are of, and which of the two. -/
theorem canonical_bytes_injective :
    (∀ a b : WireMessage, Encodes a → Encodes b → generationBytes a = generationBytes b → SameGeneration a b) ∧
    (∀ (generation generation' : Digest) (renderer renderer' : String) (bytes bytes' : List UInt8),
      FitsText renderer → FitsText renderer' → Fits bytes → Fits bytes' →
      payloadBytes generation renderer bytes = payloadBytes generation' renderer' bytes' →
      generation = generation' ∧ renderer = renderer' ∧ bytes = bytes') ∧
    ∀ (msg : WireMessage) (generation : Digest) (renderer : String) (bytes : List UInt8),
      generationBytes msg ≠ payloadBytes generation renderer bytes :=
  ⟨fun _ _ accepted accepted' => generationBytes_inj accepted accepted',
    fun _ _ _ _ _ _ named named' fits fits' => payloadBytes_inj named named' fits fits', domains_differ⟩

end FerroLoop.Wire.Delivery

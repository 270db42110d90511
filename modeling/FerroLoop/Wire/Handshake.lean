import FerroLoop.Lib.Base64
import FerroLoop.Lib.Machine
import FerroLoop.Lib.Text

namespace FerroLoop.Wire.Handshake

open Machine
open Text (textBytes textBytes_inj)

def wireProtocolVersion : UInt32 := 2

inductive PeerFrame where
  | challenge (protocolVersion : UInt32) (nodeId host nonce : String)
  | auth (mac : String) (lastMsgSeq lastRcptSeq lastAgentSeq : UInt64)
  /-- The frames of an established connection, which the handshake refuses. -/
  | data

inductive PeerRole where
  | client
  | server
deriving DecidableEq

def PeerRole.tag : PeerRole → List UInt8
  | .client => textBytes "client:"
  | .server => textBytes "server:"

def PeerRole.opposite : PeerRole → PeerRole
  | .client => .server
  | .server => .client

def buildMacInput (prover : PeerRole) (verifierNonce proverNonce : List UInt8) (proverHost : String) : List UInt8 :=
  textBytes "fl-wire-v2:" ++ prover.tag ++ verifierNonce ++ proverNonce ++ textBytes proverHost

def decodeBase64 (text : String) : Option (List UInt8) := Base64.decode Base64.standard (Text.trim text).toList

def encodeBase64 (bytes : List UInt8) : String := String.ofList (Base64.encode Base64.standard bytes)

section Mac

variable (hmac : List UInt8 → List UInt8 → List UInt8)

section

variable (token : List UInt8) (prover : PeerRole) (verifierNonce proverNonce : List UInt8) (proverHost : String)

def computePskMac : String :=
  encodeBase64 (hmac token (buildMacInput prover verifierNonce proverNonce proverHost))

def verifyPskMac (macB64 : String) : Bool :=
  match decodeBase64 macB64 with
  | none => false
  | some mac => hmac token (buildMacInput prover verifierNonce proverNonce proverHost) == mac

end

end Mac

theorem PeerRole.tag_length (role : PeerRole) : role.tag.length = 7 := by
  cases role <;> decide

variable {role : PeerRole}

theorem PeerRole.tag_inj {other : PeerRole} (same : role.tag = other.tag) : role = other := by
  revert same
  cases role <;> cases other <;> decide

variable {v p : List UInt8} {host : String}

/-- With nonces of 32 bytes an input gives back its role, both nonces and the host. -/
theorem buildMacInput_inj {role' : PeerRole} {v' p' : List UInt8} {host' : String}
    (lengths : v.length = 32 ∧ p.length = 32) (lengths' : v'.length = 32 ∧ p'.length = 32)
    (same : buildMacInput role v p host = buildMacInput role' v' p' host') :
    role = role' ∧ v = v' ∧ p = p' ∧ host = host' := by
  unfold buildMacInput at same
  simp only [List.append_assoc] at same
  obtain ⟨tags, same⟩ := List.append_inj (List.append_cancel_left same) (by rw [role.tag_length, role'.tag_length])
  obtain ⟨verifiers, same⟩ := List.append_inj same (by rw [lengths.1, lengths'.1])
  obtain ⟨provers, hosts⟩ := List.append_inj same (by rw [lengths.2, lengths'.2])
  exact ⟨PeerRole.tag_inj tags, verifiers, provers, textBytes_inj hosts⟩

/-! ### One call of `handshake_peer` -/

inductive WsError where
  | handshake (reason : String)
  /-- A read or a write of the connection failed, or what came is not a frame. -/
  | transport
deriving DecidableEq

structure PeerHandshakeOutcome where
  remoteNodeId : String
  remoteHost : String
  remoteLastMsgSeq : UInt64
  remoteLastRcptSeq : UInt64
  remoteLastAgentSeq : UInt64
deriving DecidableEq

structure Call where
  role : PeerRole
  localNodeId : String
  localHost : String
  psk : List UInt8
  lastMsgSeq : UInt64
  lastRcptSeq : UInt64
  lastAgentSeq : UInt64

/-- What the accepted challenge named. -/
structure Remote where
  nodeId : String
  host : String
  nonce : List UInt8

structure Session where
  call : Call
  localNonce : Vector UInt8 32
  remote : Option Remote
  remoteMac : Option String
  result : Option (Except WsError PeerHandshakeOutcome)

def Session.begun (call : Call) (localNonce : Vector UInt8 32) : Session := ⟨call, localNonce, none, none, none⟩

def acceptChallenge : PeerFrame → Except WsError Remote
  | .challenge protocolVersion nodeId host nonceB64 =>
    if protocolVersion ≠ wireProtocolVersion then
      .error (.handshake ("unsupported wire protocol version " ++ toString protocolVersion.toNat))
    else
      match decodeBase64 nonceB64 with
      | none => .error (.handshake "invalid base64 remote nonce")
      | some nonce =>
        if nonce.length ≠ 32 then .error (.handshake "remote nonce must be 32 bytes") else .ok ⟨nodeId, host, nonce⟩
  | _ => .error (.handshake "expected PeerFrame::Challenge")

def Session.answerInput (session : Session) (remote : Remote) : List UInt8 :=
  buildMacInput session.call.role remote.nonce session.localNonce.toList session.call.localHost

def Session.wantedInput (session : Session) (remote : Remote) : List UInt8 :=
  buildMacInput session.call.role.opposite session.localNonce.toList remote.nonce remote.host

section Run

variable (hmac : List UInt8 → List UInt8 → List UInt8)

/-- The MAC of the `Auth` frame the call sends. -/
def Session.localMac (session : Session) (remote : Remote) : String :=
  computePskMac hmac session.call.psk session.call.role remote.nonce session.localNonce.toList session.call.localHost

def Session.checkAuth (session : Session) (remote : Remote) : PeerFrame → Except WsError (String × PeerHandshakeOutcome)
  | .auth mac lastMsgSeq lastRcptSeq lastAgentSeq =>
    if verifyPskMac hmac session.call.psk session.call.role.opposite session.localNonce.toList remote.nonce remote.host mac
    then .ok (mac, ⟨remote.nodeId, remote.host, lastMsgSeq, lastRcptSeq, lastAgentSeq⟩)
    else .error (.handshake "PSK HMAC-SHA256 authentication failed")
  | _ => .error (.handshake "expected PeerFrame::Auth")

/-- The call after a frame came, with what it sent and the inputs it signed. A call that returned reads nothing. -/
def Session.receive (session : Session) (frame : PeerFrame) : Session × List PeerFrame × List (List UInt8) :=
  match session.result, session.remote with
  | some _, _ => (session, [], [])
  | none, none =>
    match acceptChallenge frame with
    | .error error => ({ session with result := some (.error error) }, [], [])
    | .ok remote =>
      ({ session with remote := some remote },
        [.auth (session.localMac hmac remote) session.call.lastMsgSeq session.call.lastRcptSeq session.call.lastAgentSeq],
        [session.answerInput remote])
  | none, some remote =>
    match session.checkAuth hmac remote frame with
    | .error error => ({ session with result := some (.error error) }, [], [])
    | .ok (mac, outcome) => ({ session with remoteMac := some mac, result := some (.ok outcome) }, [], [])

structure World where
  sessions : List Session
  signed : List (List UInt8 × List UInt8)

def World.empty : World := ⟨[], []⟩

inductive Event where
  /-- A daemon calls `handshake_peer`; without a nonce from the random source it fails at once. -/
  | start (call : Call) (drawn : Option (Vector UInt8 32))
  | deliver (i : Nat) (frame : PeerFrame)
  /-- The connection of a call fails or times out. -/
  | breaks (i : Nat)

def World.step (world : World) : Event → World × List PeerFrame
  | .start call (some nonce) =>
    ({ world with sessions := world.sessions ++ [.begun call nonce] },
      [.challenge wireProtocolVersion call.localNodeId call.localHost (encodeBase64 nonce.toList)])
  | .start _ none => (world, [])
  | .deliver i frame =>
    match world.sessions[i]? with
    | none => (world, [])
    | some session =>
      let (after, sent, inputs) := session.receive hmac frame
      (⟨world.sessions.set i after, world.signed ++ inputs.map fun input => (session.call.psk, input)⟩, sent)
  | .breaks i =>
    match world.sessions[i]? with
    | none => (world, [])
    | some session =>
      match session.result with
      | some _ => (world, [])
      | none => ({ world with sessions := world.sessions.set i { session with result := some (.error .transport) } }, [])

/-- The call of `hmac::verify` an event leads to: the key, the input and the MAC to check. -/
def World.verification? (world : World) : Event → Option (List UInt8 × List UInt8 × List UInt8)
  | .deliver i (.auth mac _ _ _) => do
    let session ← world.sessions[i]?
    let remote ← if session.result.isNone then session.remote else none
    let tag ← decodeBase64 mac
    return (session.call.psk, session.wantedInput remote, tag)
  | _ => none

def Unforged (psk : List UInt8) (world : World) (event : Event) : Prop :=
  ∀ check ∈ world.verification? event,
    check.1 = psk → hmac check.1 check.2.1 = check.2.2 → (psk, check.2.1) ∈ world.signed

instance (psk : List UInt8) (world : World) (event : Event) : Decidable (Unforged hmac psk world event) :=
  inferInstanceAs (Decidable (∀ check ∈ world.verification? event, _ → _ → _))

def World.Collisionless (psk : List UInt8) (world : World) : Prop :=
  ∀ input other, (psk, input) ∈ world.signed → (psk, other) ∈ world.signed → hmac psk input = hmac psk other → input = other

variable {hmac}

variable {remote : Remote} {mac : String} {session : Session} {frame : PeerFrame}

theorem acceptChallenge_nonce (accepted : acceptChallenge frame = .ok remote) :
    remote.nonce.length = 32 := by
  unfold acceptChallenge at accepted
  split at accepted
  · split at accepted
    · cases accepted
    split at accepted
    · cases accepted
    split at accepted
    · cases accepted
    · rename_i len
      cases accepted
      exact not_not.mp len
  · cases accepted

theorem verifyPskMac_iff {token : List UInt8} {prover : PeerRole} :
    verifyPskMac hmac token prover v p host mac = true ↔
      decodeBase64 mac = some (hmac token (buildMacInput prover v p host)) := by
  unfold verifyPskMac
  cases decodeBase64 mac with
  | none => simp
  | some bytes =>
    simp only [beq_iff_eq, Option.some.injEq]
    exact eq_comm

structure Session.Accepts (hmac : List UInt8 → List UInt8 → List UInt8) (session : Session) (remote : Remote) (mac : String)
    (outcome : PeerHandshakeOutcome) : Prop where
  mac : decodeBase64 mac = some (hmac session.call.psk (session.wantedInput remote))
  host : outcome.remoteHost = remote.host

variable {outcome : PeerHandshakeOutcome}

theorem checkAuth_ok
    (checked : session.checkAuth hmac remote frame = .ok (mac, outcome)) :
    (∃ msg rcpt agent, frame = .auth mac msg rcpt agent) ∧ session.Accepts hmac remote mac outcome := by
  cases frame with
  | challenge | data => cases checked
  | auth sent msg rcpt agent =>
    simp only [Session.checkAuth] at checked
    split at checked
    · rename_i valid
      cases checked
      exact ⟨⟨msg, rcpt, agent, rfl⟩, verifyPskMac_iff.mp valid, rfl⟩
    · cases checked

inductive Moves (hmac : List UInt8 → List UInt8 → List UInt8) (session : Session) :
    Option PeerFrame → Session → List (List UInt8) → Prop where
  | idle (frame : Option PeerFrame) : Moves hmac session frame session []
  | fails (frame : Option PeerFrame) (error : WsError) :
    Moves hmac session frame { session with result := some (.error error) } []
  | answers (frame : PeerFrame) (remote : Remote) (first : session.remote = none) (pending : session.result = none)
    (nonce : remote.nonce.length = 32) :
    Moves hmac session (some frame) { session with remote := some remote } [session.answerInput remote]
  | finishes (remote : Remote) (mac : String) (msg rcpt agent : UInt64) (outcome : PeerHandshakeOutcome)
    (received : session.remote = some remote) (pending : session.result = none)
    (accepts : session.Accepts hmac remote mac outcome) :
    Moves hmac session (some (.auth mac msg rcpt agent))
      { session with remoteMac := some mac, result := some (.ok outcome) } []

theorem receive_moves (session : Session) (frame : PeerFrame) :
    Moves hmac session (some frame) (session.receive hmac frame).1 (session.receive hmac frame).2.2 := by
  unfold Session.receive
  split
  · exact .idle _
  · rename_i pending first
    cases accepted : acceptChallenge frame with
    | error error => exact .fails _ error
    | ok remote => exact .answers frame remote first pending (acceptChallenge_nonce accepted)
  · rename_i remote pending received
    rcases checked : session.checkAuth hmac remote frame with error | accepted
    · exact .fails _ error
    obtain ⟨mac, outcome⟩ := accepted
    obtain ⟨⟨msg, rcpt, agent, rfl⟩, accepts⟩ := checkAuth_ok checked
    exact .finishes remote mac msg rcpt agent outcome received pending accepts

/-- An event starts a call, moves one, or changes nothing. -/
theorem step_cases (world : World) (event : Event) :
    (world.step hmac event).1 = world ∨
      (∃ call nonce, (world.step hmac event).1 = { world with sessions := world.sessions ++ [.begun call nonce] }) ∨
      ∃ i session frame after inputs, world.sessions[i]? = some session ∧ Moves hmac session frame after inputs ∧
        (∀ given, frame = some given → event = .deliver i given) ∧
        (world.step hmac event).1 =
          ⟨world.sessions.set i after, world.signed ++ inputs.map fun input => (session.call.psk, input)⟩ := by
  cases event with
  | start call drawn =>
    cases drawn with
    | none => exact .inl rfl
    | some nonce => exact .inr (.inl ⟨call, nonce, rfl⟩)
  | deliver i frame =>
    rcases here : world.sessions[i]? with _ | session
    · exact .inl (by simp only [World.step, here])
    refine .inr (.inr ⟨i, session, some frame, _, _, here, receive_moves session frame, ?_, ?_⟩)
    · rintro given ⟨⟩
      rfl
    · simp only [World.step, here]
  | breaks i =>
    rcases here : world.sessions[i]? with _ | session
    · exact .inl (by simp only [World.step, here])
    cases returned : session.result with
    | some result => exact .inl (by simp only [World.step, here, returned])
    | none =>
      refine .inr (.inr ⟨i, session, none, _, _, here, .fails none .transport, ?_, ?_⟩)
      · rintro given ⟨⟩
      · simp only [World.step, here, returned, List.map_nil, List.append_nil]

variable {world : World}

/-- A call that finishes made the check of its MAC. -/
theorem verification_of_finish {i : Nat} {session : Session} {remote : Remote} {mac : String}
    {msg rcpt agent : UInt64} {tag : List UInt8} (here : world.sessions[i]? = some session)
    (received : session.remote = some remote) (pending : session.result = none) (decoded : decodeBase64 mac = some tag) :
    world.verification? (.deliver i (.auth mac msg rcpt agent)) =
      some (session.call.psk, session.wantedInput remote, tag) := by
  simp [World.verification?, here, received, pending, decoded]

structure Session.Sound (hmac : List UInt8 → List UInt8 → List UInt8) (psk : List UInt8)
    (signed : List (List UInt8 × List UInt8)) (session : Session) : Prop where
  answered : ∀ remote, session.remote = some remote →
    remote.nonce.length = 32 ∧ (session.call.psk, session.answerInput remote) ∈ signed
  finished : ∀ outcome, session.result = some (.ok outcome) → ∃ remote mac, session.remote = some remote ∧
    session.remoteMac = some mac ∧ session.Accepts hmac remote mac outcome ∧
    (session.call.psk = psk → (psk, session.wantedInput remote) ∈ signed)

def Session.Signs (session : Session) (key input : List UInt8) : Prop :=
  ∃ remote, session.remote = some remote ∧ session.call.psk = key ∧ session.answerInput remote = input

structure World.Sound (hmac : List UInt8 → List UInt8 → List UInt8) (psk : List UInt8) (world : World) : Prop where
  sessions : ∀ session ∈ world.sessions, session.Sound hmac psk world.signed
  signer : ∀ key input, (key, input) ∈ world.signed → ∃ session ∈ world.sessions, session.Signs key input

variable {psk : List UInt8} {signed : List (List UInt8 × List UInt8)}

theorem Session.Sound.mono {more : List (List UInt8 × List UInt8)} {session : Session}
    (sound : session.Sound hmac psk signed) : session.Sound hmac psk (signed ++ more) where
  answered := by
    intro remote received
    obtain ⟨nonce, mem⟩ := sound.answered remote received
    exact ⟨nonce, List.mem_append_left _ mem⟩
  finished := by
    intro outcome returned
    obtain ⟨remote, mac, received, accepted, accepts, made⟩ := sound.finished outcome returned
    exact ⟨remote, mac, received, accepted, accepts, fun same => List.mem_append_left _ (made same)⟩

variable {after : Session} {frame : Option PeerFrame} {inputs : List (List UInt8)} {input : List UInt8}

theorem Moves.signs {session : Session}
    (moves : Moves hmac session frame after inputs) {key : List UInt8} (signs : session.Signs key input) :
    after.Signs key input := by
  cases moves with
  | idle | fails | finishes => exact signs
  | answers _ remote first =>
    obtain ⟨earlier, received, _⟩ := signs
    rw [first] at received
    cases received

theorem Moves.signs_inputs
    (moves : Moves hmac session frame after inputs) (mem : input ∈ inputs) :
    after.Signs session.call.psk input := by
  cases moves with
  | idle | fails | finishes => cases mem
  | answers _ remote =>
    cases List.mem_singleton.mp mem
    exact ⟨remote, rfl, rfl, rfl⟩

/-- A moved call stays sound: where it finishes, no forgery means that what it wants signed was. -/
theorem Moves.sound {session : Session}
    (moves : Moves hmac session frame after inputs)
    (sound : session.Sound hmac psk signed)
    (unforged : ∀ remote mac msg rcpt agent outcome, frame = some (.auth mac msg rcpt agent) →
      session.remote = some remote → session.result = none → session.Accepts hmac remote mac outcome →
      session.call.psk = psk → (psk, session.wantedInput remote) ∈ signed) :
    after.Sound hmac psk (signed ++ inputs.map fun input => (session.call.psk, input)) := by
  cases moves with
  | idle => exact sound.mono
  | fails =>
    refine ⟨sound.mono.answered, ?_⟩
    rintro outcome ⟨⟩
  | answers frame remote first pending nonce =>
    refine ⟨?_, ?_⟩
    · rintro received ⟨⟩
      exact ⟨nonce, List.mem_append_right _ (List.mem_singleton.mpr rfl)⟩
    · intro outcome returned
      rw [show _ = _ from pending] at returned
      cases returned
  | finishes remote mac msg rcpt agent outcome received pending accepts =>
    refine ⟨sound.mono.answered, ?_⟩
    rintro reported ⟨⟩
    refine ⟨remote, mac, received, rfl, ⟨accepts.mac, accepts.host⟩, ?_⟩
    intro same
    exact List.mem_append_left _ (unforged remote mac msg rcpt agent outcome rfl received pending accepts same)

theorem World.Sound.moved (sound : world.Sound hmac psk) {i : Nat}
    (here : world.sessions[i]? = some session)
    (moves : Moves hmac session frame after inputs)
    (kept : after.Sound hmac psk (world.signed ++ inputs.map fun input => (session.call.psk, input))) :
    World.Sound hmac psk
      ⟨world.sessions.set i after, world.signed ++ inputs.map fun input => (session.call.psk, input)⟩ := by
  obtain ⟨inside, _⟩ := List.getElem?_eq_some_iff.mp here
  have placed : after ∈ world.sessions.set i after := List.mem_set inside after
  refine ⟨?_, ?_⟩
  · intro other mem
    rcases List.mem_or_eq_of_mem_set mem with old | rfl
    · exact (sound.sessions other old).mono
    · exact kept
  intro key input mem
  rcases List.mem_append.mp mem with old | fresh
  · obtain ⟨signer, there, signs⟩ := sound.signer key input old
    obtain ⟨j, found⟩ := List.mem_iff_getElem?.mp there
    by_cases same : i = j
    · subst same
      cases here.symm.trans found
      exact ⟨after, placed, moves.signs signs⟩
    · refine ⟨signer, List.mem_iff_getElem?.mpr ⟨j, ?_⟩, signs⟩
      rw [List.getElem?_set_ne same]
      exact found
  · obtain ⟨given, listed, same⟩ := List.mem_map.mp fresh
    cases same
    exact ⟨after, placed, moves.signs_inputs listed⟩

theorem World.Sound.step (sound : world.Sound hmac psk) {event : Event}
    (unforged : Unforged hmac psk world event) : (world.step hmac event).1.Sound hmac psk := by
  rcases @step_cases hmac world event with same | ⟨call, nonce, same⟩ |
      ⟨i, session, frame, after, inputs, here, moves, given, same⟩
  · rw [same]
    exact sound
  · rw [same]
    refine ⟨?_, ?_⟩
    · intro session mem
      rcases List.mem_append.mp mem with old | new
      · exact sound.sessions session old
      · cases List.mem_singleton.mp new
        exact ⟨fun _ received => (Option.some_ne_none _ received.symm).elim,
          fun _ returned => (Option.some_ne_none _ returned.symm).elim⟩
    · intro key input mem
      obtain ⟨session, there, signs⟩ := sound.signer key input mem
      exact ⟨session, List.mem_append_left _ there, signs⟩
  · rw [same]
    refine sound.moved here moves (moves.sound (sound.sessions session (List.mem_iff_getElem?.mpr ⟨i, here⟩)) ?_)
    intro remote mac msg rcpt agent outcome came received pending accepts keyed
    have checked := @verification_of_finish world i session remote mac msg rcpt agent _ here received pending accepts.mac
    rw [← given _ came] at checked
    exact unforged _ checked keyed rfl

theorem sound_run {events : List Event} (sound : world.Sound hmac psk)
    (unforged : Machine.Throughout (World.step hmac) (Unforged hmac psk) world events) :
    (run (World.step hmac) world events).Sound hmac psk := by
  induction events generalizing world with
  | nil => exact sound
  | cons event rest ih => exact ih (sound.step unforged.1) unforged.2

/-- The other call holds the same key at the other end of a connection, under the reported host, and the two exchanged
their nonces. -/
structure Partner (session : Session) (remote : Remote) (outcome : PeerHandshakeOutcome) (other : Session) : Prop where
  psk : other.call.psk = session.call.psk
  role : other.call.role = session.call.role.opposite
  host : other.call.localHost = outcome.remoteHost
  sent : other.localNonce.toList = remote.nonce
  received : ∃ challenge, other.remote = some challenge ∧ challenge.nonce = session.localNonce.toList

/-- Who signed what a call accepts is its partner. -/
theorem Session.Signs.partner {other : Session}
    (accepts : session.Accepts hmac remote mac outcome) (nonce : remote.nonce.length = 32)
    (nonces : ∀ challenge, other.remote = some challenge → challenge.nonce.length = 32)
    (signs : other.Signs session.call.psk (session.wantedInput remote)) : Partner session remote outcome other := by
  obtain ⟨challenge, received, keyed, same⟩ := signs
  obtain ⟨role, exchanged, sent, host⟩ := buildMacInput_inj ⟨nonces challenge received, other.localNonce.length_toList⟩
    ⟨session.localNonce.length_toList, nonce⟩ same
  exact ⟨keyed, role, host.trans accepts.host.symm, sent, challenge, received, exchanged⟩

variable (hmac psk)

/-- With an attacker on every connection, a call that finishes has a partner; and whoever made the MAC it accepted is
one, so no answer made at the same end or for other nonces is accepted. -/
theorem finished_has_partner (events : List Event)
    (unforged : Machine.Throughout (World.step hmac) (Unforged hmac psk) World.empty events)
    (session : Session) (mem : session ∈ (run (World.step hmac) World.empty events).sessions) (keyed : session.call.psk = psk)
    (outcome : PeerHandshakeOutcome) (finished : session.result = some (.ok outcome)) :
    ∃ remote mac, session.remote = some remote ∧ session.remoteMac = some mac ∧
      (∃ other ∈ (run (World.step hmac) World.empty events).sessions, Partner session remote outcome other) ∧
      ((run (World.step hmac) World.empty events).Collisionless hmac psk →
        ∀ other ∈ (run (World.step hmac) World.empty events).sessions, other.call.psk = psk →
          ∀ challenge, other.remote = some challenge → decodeBase64 mac = some (hmac psk (other.answerInput challenge)) →
            Partner session remote outcome other) := by
  have start : World.empty.Sound hmac psk := ⟨fun _ mem => (List.not_mem_nil mem).elim, fun _ _ mem => (List.not_mem_nil mem).elim⟩
  have sound := sound_run start unforged
  subst keyed
  obtain ⟨remote, mac, received, accepted, accepts, made⟩ := (sound.sessions session mem).finished outcome finished
  have nonce := ((sound.sessions session mem).answered remote received).1
  have nonces : ∀ other ∈ (run (World.step hmac) World.empty events).sessions, ∀ challenge,
      other.remote = some challenge → challenge.nonce.length = 32 :=
    fun other there challenge got => ((sound.sessions other there).answered challenge got).1
  refine ⟨remote, mac, received, accepted, ?_, ?_⟩
  · obtain ⟨other, there, signs⟩ := sound.signer _ _ (made rfl)
    exact ⟨other, there, signs.partner accepts nonce (nonces other there)⟩
  intro collisionless other there held challenge got sent
  have signed := ((sound.sessions other there).answered challenge got).2
  rw [held] at signed
  have same := collisionless _ _ signed (made rfl) (Option.some.inj (sent.symm.trans accepts.mac))
  exact Session.Signs.partner accepts nonce (nonces other there) ⟨challenge, got, held, same⟩

end Run

namespace Sample

def psk : List UInt8 := textBytes "key"

def clientMac : List UInt8 :=
  [203, 23, 67, 99, 124, 245, 11, 132, 16, 22, 177, 50, 154, 204, 169, 215, 181, 211, 209, 52, 217, 25, 128, 134, 164, 121, 15, 215, 95, 79, 16, 142]

def serverMac : List UInt8 :=
  [120, 65, 154, 95, 189, 190, 44, 59, 254, 124, 18, 186, 200, 173, 202, 19, 21, 184, 173, 253, 160, 111, 211, 80, 118, 248, 48, 79, 34, 119, 90, 156]

def hmac (key input : List UInt8) : List UInt8 :=
  if key = psk ∧ input = buildMacInput .client (List.replicate 32 4) (List.replicate 32 0) "alpha" then clientMac
  else if key = psk ∧ input = buildMacInput .server (List.replicate 32 0) (List.replicate 32 4) "beta" then serverMac
  else List.replicate 32 0

def call (role : PeerRole) (host : String) : Call := ⟨role, "node", host, psk, 0, 0, 0⟩

/-- Two daemons connect, and every frame is handed on as it was sent. -/
def events : List Event :=
  [.start (call .client "alpha") (some (Vector.replicate 32 0)), .start (call .server "beta") (some (Vector.replicate 32 4)),
    .deliver 0 (.challenge 2 "node" "beta" (encodeBase64 (List.replicate 32 4))),
    .deliver 1 (.challenge 2 "node" "alpha" (encodeBase64 (List.replicate 32 0))),
    .deliver 0 (.auth (encodeBase64 serverMac) 0 0 0)]

def ended : World := run (World.step hmac) World.empty events

theorem ended_first : (ended.sessions[0]?.map fun session => (session.call.psk, session.result)) =
    some (psk, some (.ok ⟨"node", "beta", 0, 0, 0⟩)) := by
  decide +kernel

theorem events_unforged : Machine.Throughout (World.step hmac) (Unforged hmac psk) World.empty events :=
  ⟨by decide +kernel, by decide +kernel, by decide +kernel, by decide +kernel, by decide +kernel, trivial⟩

end Sample

theorem finished_has_partner_sample :
    ∃ session ∈ Sample.ended.sessions, session.result = some (.ok ⟨"node", "beta", 0, 0, 0⟩) ∧
      ∃ remote, ∃ other ∈ Sample.ended.sessions, Partner session remote ⟨"node", "beta", 0, 0, 0⟩ other := by
  obtain ⟨session, here, same⟩ := Option.map_eq_some_iff.mp Sample.ended_first
  obtain ⟨keyed, finished⟩ := Prod.mk.inj same
  have mem : session ∈ Sample.ended.sessions := List.mem_iff_getElem?.mpr ⟨0, here⟩
  obtain ⟨remote, _, _, _, partner, _⟩ :=
    finished_has_partner Sample.hmac Sample.psk Sample.events Sample.events_unforged session mem keyed _ finished
  exact ⟨session, mem, finished, remote, partner⟩

end FerroLoop.Wire.Handshake

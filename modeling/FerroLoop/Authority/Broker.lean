import FerroLoop.Gate.Errors
import FerroLoop.Lib.Map
import FerroLoop.Lib.Text
import FerroLoop.Lib.Threads
import Mathlib.Data.Finset.Card

/-!
The permit and revocation broker of `crates/gate/src/dispatch_authority.rs`: the state behind its
mutex, the sections each operation runs under it, and the operations. What an operation asks the
authority source, the clock, the random generator or the condition variable is a query; the mutex
is never held over one. The clock is read again inside the last section of `admit`: its answer is
asked for right before the section. A poisoned mutex is not modelled.
-/

namespace FerroLoop.Authority

open Std Text Threads Gate

inductive ScopeKey where
  | secret (name : String)
  | bundle (name : String)
  | incarnation (name : String)
  deriving DecidableEq

abbrev Scope := Finset ScopeKey

def validText (s : String) : Bool :=
  !(trim s).isEmpty && s.utf8ByteSize ≤ 1024 && !s.toList.any isControl

def ScopeKey.valid : ScopeKey → Bool
  | .secret s | .bundle s | .incarnation s => validText s

structure AdmitRequest where
  secret : String
  bundle : Option String
  incarnation : Option String
  deriving DecidableEq

def AdmitRequest.requiredScopes (req : AdmitRequest) : Option Scope :=
  if !validText req.secret || req.bundle.any (!validText ·) || req.incarnation.any (!validText ·) then none
  else
    match req.bundle, req.incarnation with
    | some bundle, some incarnation => some {.secret req.secret, .bundle bundle, .incarnation incarnation}
    | none, none => some {.secret req.secret}
    | _, _ => none

/-- Sixteen bytes, in the order of the array. -/
abbrev PermitId := BitVec 128

instance : TransOrd PermitId := inferInstance

structure WorkerIdentity where
  pid : Nat
  startIdentity : Nat
  deriving DecidableEq

structure Permit where
  id : PermitId
  deadlineMonoNs : Nat
  recordEpoch : String
  resources : List String
  deriving DecidableEq

structure VerifiedAdmission where
  generation : Nat
  scope : Scope
  recordEpoch : String
  resources : List String
  worker : WorkerIdentity
  deriving DecidableEq

inductive RevokeAck where
  | complete
  | pendingUnconfirmed
  deriving DecidableEq

structure LivePermit where
  scope : Scope
  worker : WorkerIdentity
  deadlineMonoNs : Nat
  cancellationRequested : Bool
  deriving DecidableEq

inductive FencePhase where
  | pending
  | persisting
  | durableUnverified
  | persisted
  | failed
  deriving DecidableEq

structure Fence where
  scope : Scope
  reason : String
  phase : FencePhase
  waiting : Bool
  deriving DecidableEq

structure State where
  generation : Option Nat := none
  reconciled : Bool := false
  revocationFailed : Bool := false
  unresolvedRevocations : List (Scope × String) := []
  live : ExtTreeMap PermitId LivePermit compare := ∅
  fences : ExtTreeMap Nat Fence compare := ∅
  nextFenceId : Nat := 0

inductive RefreshResult where
  | published
  | retry
  | unverified
  deriving DecidableEq

/-- What an operation asks without holding the mutex. A guard is asked for by its scope and
answers the generation it holds stable; `wakeups` is how often the condition variable wakes a
waiting call before its time is over. -/
inductive Query where
  | reconcile
  | verifyAdmission (request : AdmitRequest)
  | guardAdmission (scope : Scope)
  | resolveRevocation (requested : Scope)
  | persistFence (scope : Scope) (reason : String)
  | verifyPersistedFence (scope : Scope)
  | verifyRevocationTransition (start stop : Nat) (pending : List Scope)
  | workerTerminated (worker : WorkerIdentity)
  | requestCancellation (id : PermitId) (worker : WorkerIdentity)
  | nowNs
  | randomId
  | wakeups

def Answer : Query → Type
  | .reconcile => Except GateError Nat
  | .verifyAdmission _ => Except GateError VerifiedAdmission
  | .guardAdmission _ => Except GateError Nat
  | .resolveRevocation _ => Except GateError (Nat × Scope)
  | .persistFence _ _ => Except GateError Unit
  | .verifyPersistedFence _ => Except GateError Nat
  | .verifyRevocationTransition _ _ _ => Except GateError Unit
  | .workerTerminated _ => Except GateError (Option WorkerIdentity)
  | .requestCancellation _ _ => Except GateError Unit
  | .nowNs => Except GateError Nat
  | .randomId => Option PermitId
  | .wakeups => Nat

abbrev Op (α : Type) := Prog State Query Answer α

abbrev lock {α : Type} (body : State → α × State) : Op α := Prog.lock body

abbrev query (q : Query) : Op (Answer q) := Prog.query q

def refused {α : Type} (reason : String) : Except GateError α := .error (.dispatchAuthority reason)

namespace State

def sealed (s : State) : State := { s with generation := none, revocationFailed := true }

def recordUnresolvedRevocation (scope : Scope) (reason : String) (s : State) : Except GateError RevokeAck × State :=
  if (s.unresolvedRevocations.lookup scope).isNone && s.unresolvedRevocations.length ≥ 4096 then
    (refused "unresolved revocation capacity reached", s.sealed)
  else if (s.unresolvedRevocations.lookup scope).isNone then
    (.ok .pendingUnconfirmed, { s with unresolvedRevocations := s.unresolvedRevocations ++ [(scope, reason)] })
  else (.ok .pendingUnconfirmed, s)

def blocked (s : State) (scope : Scope) : Bool := s.live.toList.any fun entry => ¬Disjoint entry.2.scope scope

end State

/-- A fence whose durable write is due. -/
structure Ready where
  id : Nat
  scope : Scope
  reason : String

namespace State

def isReady (s : State) (f : Fence) : Bool := f.phase = .pending && !s.blocked f.scope

def readyToPersist (s : State) : List Ready × State :=
  (s.fences.toList.filterMap fun entry =>
      if s.isReady entry.2 then some ⟨entry.1, entry.2.scope, entry.2.reason⟩ else none,
    { s with fences := s.fences.map fun _ f => if s.isReady f then { f with phase := .persisting } else f })

def inTransit (f : Fence) : Bool := f.phase = .persisting || f.phase = .durableUnverified

def transitionStart (s : State) : Option (Nat × List Scope) × State :=
  match s.generation with
  | some current =>
    if s.revocationFailed then (none, s)
    else (some (current, (s.fences.toList.filter fun entry => inTransit entry.2).map fun entry => entry.2.scope), s)
  | none => (none, s)

end State

inductive Retirement where
  | refused
  | again
  | missing
  | retired
  deriving DecidableEq

namespace State

/-- The section of `verify_and_retire` that publishes the generation and retires the fence. -/
def retire (id start generation : Nat) (s : State) : Retirement × State :=
  if s.revocationFailed || s.generation.isNone then (.refused, s)
  else if s.generation ≠ some start then (.again, s)
  else
    match s.fences[id]? with
    | none => (.missing, { s with generation := some generation })
    | some f =>
      if f.waiting then
        (.retired,
          { s with generation := some generation, fences := s.fences.insert id { f with phase := .persisted } })
      else (.retired, { s with generation := some generation, fences := s.fences.erase id })

/-- Give the fence its phase after a failed attempt; `false` when there is no such fence. -/
def settle (id : Nat) (phase : FencePhase) (s : State) : Bool × State :=
  match s.fences[id]? with
  | none => (false, s)
  | some f => (true, { s with fences := s.fences.insert id { f with phase := phase } })

def refreshStart (expected : Nat) (s : State) : Except RefreshResult (Nat × List (Nat × Scope)) × State :=
  if s.generation = some expected && !s.revocationFailed then (.error .published, s)
  else if s.generation.any (expected < ·) && !s.revocationFailed then (.error .retry, s)
  else
    match s.generation with
    | some start =>
      if s.revocationFailed then (.error .unverified, s)
      else
        (.ok (start, ((s.fences.toList.filter fun entry => inTransit entry.2).take 4096).map
          fun entry => (entry.1, entry.2.scope)), s)
    | none => (.error .unverified, s)

/-- The section of `refresh_during_persistence` that publishes; `none` goes on to the next witness. -/
def publish (expected start id : Nat) (scope : Scope) (s : State) : Option RefreshResult × State :=
  if s.revocationFailed || s.generation.isNone then (some .unverified, s)
  else if s.generation = some expected then (some .published, s)
  else if s.generation ≠ some start then (some .retry, s)
  else if (s.fences[id]?).any fun f => inTransit f && f.scope = scope then
    (some .published, { s with generation := some expected })
  else (none, s)

def refreshEnd (expected : Nat) (s : State) : RefreshResult × State :=
  if s.generation = some expected && !s.revocationFailed then (.published, s)
  else if s.generation.any (expected < ·) && !s.revocationFailed then (.retry, s)
  else (.unverified, s)

def expired (now : Nat) (p : LivePermit) : Bool := p.deadlineMonoNs ≤ now && !p.cancellationRequested

def markExpired (now : Nat) (s : State) : List (PermitId × WorkerIdentity) × State :=
  (s.live.toList.filterMap fun entry => if expired now entry.2 then some (entry.1, entry.2.worker) else none,
    { s with live := s.live.map fun _ p => if expired now p then { p with cancellationRequested := true } else p })

def unmarkExpired (id : PermitId) (worker : WorkerIdentity) (s : State) : State :=
  match s.live[id]? with
  | none => s
  | some p =>
    if p.worker = worker then { s with live := s.live.insert id { p with cancellationRequested := false } } else s

/-- The phases `retry_failed` starts from. -/
def retryPhase : FencePhase → FencePhase
  | .failed => .pending
  | .durableUnverified => .persisting
  | phase => phase

def retryFence (f : Fence) : Fence := { f with phase := retryPhase f.phase }

def reopenFailed (s : State) : (List Ready × List (Nat × Scope)) × State :=
  let verify := s.fences.toList.filterMap fun entry =>
    if entry.2.phase = .durableUnverified then some (entry.1, entry.2.scope) else none
  let (ready, s) := readyToPersist { s with fences := s.fences.map fun _ f => retryFence f }
  ((ready, verify), s)

def complete (id : PermitId) (s : State) : List Ready × State := readyToPersist { s with live := s.live.erase id }

def terminate (id : PermitId) (worker : WorkerIdentity) (s : State) : Option (List Ready) × State :=
  if (s.live[id]?).any (·.worker = worker) then
    let (ready, s) := s.complete id
    (some ready, s)
  else (none, s)

/-- The last section of `admit`; `now` is what its second look at the clock says. -/
def grant (verified : VerifiedAdmission) (id : PermitId) (deadline : Nat) (now : Except GateError Nat) (s : State) :
    Except GateError Permit × State :=
  if s.generation ≠ some verified.generation || !s.unresolvedRevocations.isEmpty then
    (refused "sealed or stale authority", s)
  else if s.fences.toList.any fun entry => ¬Disjoint entry.2.scope verified.scope then
    (refused "scope revoked or pending", s)
  else if s.live.size ≥ 4096 then (refused "permit capacity reached", s)
  else if s.live.contains id then (refused "permit collision", s)
  else
    match now with
    | .error e => (.error e, s)
    | .ok now =>
      if deadline ≤ now then (refused "permit expired", s)
      else
        (.ok ⟨id, deadline, verified.recordEpoch, verified.resources⟩,
          { s with live := s.live.insert id ⟨verified.scope, verified.worker, deadline, false⟩ })

def differs (scope : Scope) (reason : String) (s : State) : Bool :=
  (s.unresolvedRevocations.lookup scope).any (· ≠ reason)

end State

/-- How the section that is to insert a revocation's fence ends. -/
inductive Insertion where
  | returned (result : Except GateError RevokeAck)
  | refresh
  | inserted (index : Nat) (ready : List Ready)

namespace State

def withFence (scope : Scope) (reason : String) (expanded : Scope) (s : State) : State :=
  { s with
    nextFenceId := s.nextFenceId + 1
    fences := s.fences.insert s.nextFenceId ⟨expanded, reason, .pending, true⟩
    unresolvedRevocations := s.unresolvedRevocations.filter fun entry => entry.1 ≠ scope }

/-- The section of `revoke` with its linearization point. `attemptsLeft` says that a further
refresh of the generation is allowed. -/
def insertFence (scope : Scope) (reason : String) (generation : Nat) (expanded : Scope) (attemptsLeft : Bool)
    (s : State) : Insertion × State :=
  if s.differs scope reason then (.returned (refused "unresolved revocation reason differs"), s)
  else if s.generation ≠ some generation then
    if s.generation.any (· < generation) && !s.revocationFailed && !attemptsLeft then
      let (result, s) := s.recordUnresolvedRevocation scope reason
      (.returned result, s)
    else if s.generation.any (· < generation) && !s.revocationFailed &&
        s.fences.toList.any (fun entry => inTransit entry.2) && attemptsLeft then (.refresh, s)
    else (.returned (refused "sealed or stale authority"), s.sealed)
  else if s.fences.size ≥ 4096 then (.returned (refused "revocation capacity reached"), s.sealed)
  else if s.nextFenceId + 1 ≥ 2 ^ 64 then (.returned (refused "revocation id exhausted"), s.sealed)
  else
    let (ready, s') := (s.withFence scope reason expanded).readyToPersist
    (.inserted s.nextFenceId ready, s')

def relinquish (index : Nat) (s : State) : State :=
  match s.fences[index]? with
  | none => s
  | some f =>
    if f.phase = .persisted then { s with fences := s.fences.erase index }
    else { s with fences := s.fences.insert index { f with waiting := false } }

/-- What a waiting revocation finds; `none` waits on. -/
def observe (index : Nat) (s : State) : Option (Except GateError RevokeAck) × State :=
  match s.fences[index]? with
  | none => (some (refused "revocation fence missing"), s)
  | some f =>
    match f.phase with
    | .persisted => (some (.ok .complete), s.relinquish index)
    | .failed | .durableUnverified => (some (refused "revocation persistence failed"), s.relinquish index)
    | .pending | .persisting => (none, s)

/-- The same when its time is over. -/
def lapse (index : Nat) (s : State) : Except GateError RevokeAck × State :=
  match s.observe index with
  | (some result, s) => (result, s)
  | (none, s) => (.ok .pendingUnconfirmed, s.relinquish index)

def reopen (generation : Nat) (s : State) : Except GateError Unit × State :=
  if s.reconciled || s.revocationFailed || !s.live.isEmpty || !s.fences.isEmpty || !s.unresolvedRevocations.isEmpty ||
      s.generation.isSome then
    (refused "authority cannot be reopened", s)
  else (.ok (), { s with generation := some generation, reconciled := true })

end State

def sealing {α : Type} (e : GateError) : Op (Except GateError α) := lock fun s => (.error e, s.sealed)

def transitionProved (start generation : Nat) (pending : List Scope) : Op Bool :=
  if start < generation then do
    match ← query (.verifyRevocationTransition start generation pending) with
    | .error _ => pure false
    | .ok _ => pure true
  else pure true

def guardAhead (generation : Nat) : Op Bool := do
  match ← query (.guardAdmission ∅) with
  | .ok current => pure (decide (generation < current))
  | .error _ => pure false

def verifyAndRetire (id : Nat) (scope : Scope) : Nat → Op (Except GateError Bool)
  | 0 => pure (.ok false)
  | tries + 1 => do
    match ← query (.verifyPersistedFence scope) with
    | .error _ => pure (.ok false)
    | .ok generation =>
      match ← lock State.transitionStart with
      | none => pure (.ok false)
      | some (start, pending) =>
        if generation < start then verifyAndRetire id scope tries
        else if ← transitionProved start generation pending then
          match ← query (.guardAdmission ∅) with
          | .error _ => pure (.ok false)
          | .ok current =>
            if generation = 0 ∨ current ≠ generation then verifyAndRetire id scope tries
            else
              match ← lock (State.retire id start generation) with
              | .refused => pure (.ok false)
              | .again => verifyAndRetire id scope tries
              | .missing => pure (refused "revocation fence missing")
              | .retired => pure (.ok true)
        else if (← lock fun s => (s.generation, s)) ≠ some start then verifyAndRetire id scope tries
        else if ← guardAhead generation then verifyAndRetire id scope tries
        else pure (.ok false)

def persistReady : List Ready → Bool → Op (Except GateError Unit)
  | [], failed => pure (if failed then refused "revocation persistence failed" else .ok ())
  | entry :: rest, failed => do
    match ← query (.persistFence entry.scope entry.reason) with
    | .error _ =>
      if ← lock (State.settle entry.id .failed) then persistReady rest true
      else pure (refused "revocation fence missing")
    | .ok _ =>
      match ← verifyAndRetire entry.id entry.scope 8 with
      | .error e => pure (.error e)
      | .ok true => persistReady rest failed
      | .ok false =>
        if ← lock (State.settle entry.id .durableUnverified) then persistReady rest true
        else pure (refused "revocation fence missing")

/-- The loop of `refresh_during_persistence` over its witnesses. -/
def refreshBy (expected start : Nat) : List (Nat × Scope) → Op RefreshResult
  | [] => lock (State.refreshEnd expected)
  | (id, scope) :: rest => do
    match ← query (.verifyPersistedFence scope) with
    | .error _ => refreshBy expected start rest
    | .ok generation =>
      if expected < generation then pure .retry
      else if generation ≠ expected then refreshBy expected start rest
      else
        match ← query (.guardAdmission ∅) with
        | .error _ => refreshBy expected start rest
        | .ok current =>
          if current ≠ expected then pure .retry
          else
            match ← lock (State.publish expected start id scope) with
            | some result => pure result
            | none => refreshBy expected start rest

def refreshDuringPersistence (expected : Nat) : Op RefreshResult := do
  match ← lock (State.refreshStart expected) with
  | .error result => pure result
  | .ok (start, witnesses) =>
    if expected ≤ start || witnesses.isEmpty then pure .unverified
    else
      match ← query (.verifyRevocationTransition start expected (witnesses.map (·.2))) with
      | .ok _ => refreshBy expected start witnesses
      | .error _ =>
        if ← guardAhead expected then pure .retry
        else
          lock fun s => (if s.generation = some expected && !s.revocationFailed then .published else .unverified, s)

/-- The loop of `cancel_expired` over the workers it marked. -/
def requestAll : List (PermitId × WorkerIdentity) → Bool → Op (Except GateError Unit)
  | [], failed => pure (if failed then refused "cancellation unconfirmed" else .ok ())
  | (id, worker) :: rest, failed => do
    match ← query (.requestCancellation id worker) with
    | .ok _ => requestAll rest failed
    | .error _ =>
      lock fun s => ((), s.unmarkExpired id worker)
      requestAll rest true

def cancelExpired : Op (Except GateError Unit) := do
  match ← query .nowNs with
  | .error e => pure (.error e)
  | .ok now =>
    let workers ← lock (State.markExpired now)
    requestAll workers false

/-- The loop of `retry_failed` over the fences that are durable already. -/
def verifyAll : List (Nat × Scope) → Bool → Op (Except GateError Unit)
  | [], failed => pure (if failed then refused "revocation persistence failed" else .ok ())
  | (id, scope) :: rest, failed => do
    match ← verifyAndRetire id scope 8 with
    | .error e => pure (.error e)
    | .ok true => verifyAll rest failed
    | .ok false =>
      let _ ← lock (State.settle id .durableUnverified)
      verifyAll rest true

def retryFailed : Op (Except GateError Unit) := do
  let (ready, verify) ← lock State.reopenFailed
  match ← persistReady ready false with
  | .error _ => verifyAll verify true
  | .ok _ => verifyAll verify false

def confirmTerminated (id : PermitId) : Op (Except GateError Bool) := do
  match ← lock fun s => ((s.live[id]?).map (·.worker), s) with
  | none => pure (.ok false)
  | some worker =>
    match ← query (.workerTerminated worker) with
    | .error e => pure (.error e)
    | .ok receipt =>
      if receipt ≠ some worker then pure (.ok false)
      else
        match ← lock (State.terminate id worker) with
        | none => pure (.ok false)
        | some ready =>
          match ← persistReady ready false with
          | .error e => pure (.error e)
          | .ok _ => pure (.ok true)

/-- What `admit` requires of the evidence it is given. -/
def VerifiedAdmission.acceptable (verified : VerifiedAdmission) (requested : Scope) : Bool :=
  verified.generation ≠ 0 && verified.recordEpoch.utf8ByteSize = 64 &&
    verified.recordEpoch.toList.all (fun c => c.isDigit || ('a' ≤ c && c ≤ 'f')) && verified.resources.length ≤ 128 &&
    verified.resources.all (fun s => !s.isEmpty && s.utf8ByteSize ≤ 4096 && !s.toList.any isControl) &&
    verified.worker.pid ≠ 0 && verified.worker.startIdentity ≠ 0 && verified.scope.card ≤ 128 &&
    decide (requested ⊆ verified.scope) && decide (∀ key ∈ verified.scope, key.valid)

def admitPermit (operationNs : Nat) (req : AdmitRequest) : Op (Except GateError Permit) :=
  match req.requiredScopes with
  | none => pure (refused "invalid scope")
  | some requested => do
    if ← lock fun s => (s.generation.isNone || !s.unresolvedRevocations.isEmpty, s) then
      pure (refused "authority sealed")
    else
      match ← query (.verifyAdmission req) with
      | .error e => pure (.error e)
      | .ok verified =>
        if !verified.acceptable requested then pure (refused "invalid verified admission")
        else
          match ← query .nowNs with
          | .error e => pure (.error e)
          | .ok now =>
            if now + operationNs ≥ 2 ^ 64 then pure (refused "permit deadline overflow")
            else
              match ← query .randomId with
              | none => pure (refused "permit randomness unavailable")
              | some id =>
                match ← query (.guardAdmission verified.scope) with
                | .error e => pure (.error e)
                | .ok current =>
                  if current ≠ verified.generation then pure (refused "stale source authority")
                  else do
                    let again ← query .nowNs
                    lock (State.grant verified id (now + operationNs) again)

def complete (id : PermitId) : Op (Except GateError Unit) := do
  let ready ← lock (State.complete id)
  persistReady ready false

def awaitFence (index : Nat) : Nat → Op (Except GateError RevokeAck)
  | 0 => lock (State.lapse index)
  | wakeups + 1 => do
    match ← lock (State.observe index) with
    | some result => pure result
    | none => awaitFence index wakeups

/-- What `revoke` does once its fence is in place. -/
def finishRevocation (index : Nat) (ready : List Ready) : Op (Except GateError RevokeAck) := do
  match ← persistReady ready false with
  | .error e => lock fun s => (.error e, s.relinquish index)
  | .ok _ =>
    let wakeups ← query .wakeups
    awaitFence index wakeups

def validAliases (scope expanded : Scope) : Bool :=
  expanded ≠ ∅ && expanded.card ≤ 128 && decide (scope ⊆ expanded) && decide (∀ key ∈ expanded, key.valid)

/-- One turn of the loop of `revoke`, with `left` refreshes still allowed; `again` is the next turn. -/
def revokeAttempt (scope : Scope) (reason : String) (left : Nat) (again : Op (Except GateError RevokeAck)) :
    Op (Except GateError RevokeAck) := do
  match ← query (.resolveRevocation scope) with
  | .error e => sealing e
  | .ok (generation, expanded) =>
    if !validAliases scope expanded then sealing (.dispatchAuthority "invalid revocation aliases")
    else
      match ← query (.guardAdmission expanded) with
      | .error _ => sealing (.dispatchAuthority "stale or uncoordinated revocation")
      | .ok current =>
        if current = generation then
          match ← lock (State.insertFence scope reason generation expanded (left ≠ 0)) with
          | .returned result => pure result
          | .inserted index ready => finishRevocation index ready
          | .refresh =>
            match ← refreshDuringPersistence generation with
            | .published | .retry => again
            | .unverified => sealing (.dispatchAuthority "unverified authority generation")
        else if current < generation then sealing (.dispatchAuthority "stale or uncoordinated revocation")
        else if left = 0 then lock (State.recordUnresolvedRevocation scope reason)
        else
          match ← refreshDuringPersistence current with
          | .published | .retry => again
          | .unverified =>
            -- The refresh that failed counts: after the last one the request is kept instead.
            if left = 1 then lock (State.recordUnresolvedRevocation scope reason)
            else sealing (.dispatchAuthority "stale or uncoordinated revocation")

/-- The loop of `revoke`. A turn without refreshes left never asks for another. -/
def revokeLoop (scope : Scope) (reason : String) : Nat → Op (Except GateError RevokeAck)
  | 0 => revokeAttempt scope reason 0 (sealing (.dispatchAuthority "sealed or stale authority"))
  | left + 1 => revokeAttempt scope reason (left + 1) (revokeLoop scope reason left)

def validRevocation (scope : Scope) (reason : String) : Bool :=
  scope ≠ ∅ && scope.card ≤ 128 && decide (∀ key ∈ scope, key.valid) && validText reason

def revoke (scope : Scope) (reason : String) (waitNs : Nat) : Op (Except GateError RevokeAck) :=
  if waitNs > 30000000000 then pure (refused "revocation wait exceeds limit")
  else if !validRevocation scope reason then pure (refused "invalid revocation")
  else do
    if ← lock fun s => (s.differs scope reason, s) then pure (refused "unresolved revocation reason differs")
    else revokeLoop scope reason 8

def reconcile : Op (Except GateError Unit) := do
  match ← query .reconcile with
  | .error e => pure (.error e)
  | .ok generation =>
    if generation = 0 then pure (refused "invalid authority generation")
    else
      match ← query (.guardAdmission ∅) with
      | .error e => pure (.error e)
      | .ok current =>
        if current ≠ generation then pure (refused "stale authority reconciliation")
        else lock (State.reopen generation)

/-! ### The broker under concurrent calls -/

inductive Call where
  | admission (req : AdmitRequest)
  | complete (id : PermitId)
  | revoke (scope : Scope) (reason : String) (waitNs : Nat)
  | retryFailed
  | confirmTerminated (id : PermitId)
  | cancelExpired
  | reconcile

inductive Outcome where
  | admission (result : Except GateError Permit)
  | revocation (result : Except GateError RevokeAck)
  | confirmation (result : Except GateError Bool)
  | finished (result : Except GateError Unit)
  | reconciled (result : Except GateError Unit)
  deriving DecidableEq

def Call.perform (operationNs : Nat) : Call → Op Outcome
  | .admission req => do
    let result ← admitPermit operationNs req
    pure (.admission result)
  | .complete id => do
    let result ← Authority.complete id
    pure (.finished result)
  | .revoke scope reason waitNs => do
    let result ← Authority.revoke scope reason waitNs
    pure (.revocation result)
  | .retryFailed => do
    let result ← Authority.retryFailed
    pure (.finished result)
  | .confirmTerminated id => do
    let result ← Authority.confirmTerminated id
    pure (.confirmation result)
  | .cancelExpired => do
    let result ← Authority.cancelExpired
    pure (.finished result)
  | .reconcile => do
    let result ← Authority.reconcile
    pure (.reconciled result)

abbrev Broker := System State Query Answer Outcome

abbrev Turn := Event Query Answer

def brokerState (operationNs : Nat) (calls : List Call) : Broker := ⟨{}, calls.map (Call.perform operationNs)⟩

end FerroLoop.Authority

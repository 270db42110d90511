import FerroLoop.Governor.Policy
import FerroLoop.Lib.Map

/-!
The in-memory governor store (`MemGovernorStore` of `crates/core/src/governor.rs`). Every call
holds the store's one mutex, so each is one step on the state it guards.
-/

namespace FerroLoop.Governor

open Std Word List

structure ScopeState where
  window : Option WindowState := none
  budgetUsed : UInt64 := 0
  budgetReserved : UInt64 := 0
  concurrencyLive : UInt32 := 0
  deriving DecidableEq

structure PermitRecord where
  permit : Permit
  completed : Bool
  settled : Bool
  deriving DecidableEq

abbrev Scopes := ExtTreeMap String ScopeState compare

structure Inner where
  policy : GovernorPolicy
  scopes : Scopes := ∅
  permits : ExtTreeMap String PermitRecord compare := ∅
  replay : List ReplayRecord := []
  nextId : UInt64 := 1

/-- `MemGovernorStore::new`. -/
def Inner.new (policy : GovernorPolicy) : Inner := { policy }

def Scopes.state (scopes : Scopes) (scope : String) : ScopeState := scopes[scope]?.getD {}

abbrev Inner.state (g : Inner) (scope : String) : ScopeState := Scopes.state g.scopes scope

/-! ### `reserve` -/

def staleQuota (g : Inner) (req : AdmissionRequest) (now : UInt64) : Option AdmissionOutcome :=
  match req.quotaObservedAtMs with
  | some observed =>
    if 0 < g.policy.freshnessMaxAgeMs ∧ g.policy.freshnessMaxAgeMs < satSub now observed then
      some (.deferred g.policy.freshnessMaxAgeMs "stale_quota")
    else none
  | none => none

def concurrencyExhausted (g : Inner) (scope : String) : Option AdmissionOutcome :=
  let cap := g.policy.concurrencyFor scope
  if 0 < cap ∧ cap ≤ (g.state scope).concurrencyLive then
    some (.deferred 100 ("concurrency_exhausted:" ++ scope))
  else none

/-- The peek: it judges a window that exists by its own frozen cap, and the current cap only where
the scope has no window yet. -/
def rateExhausted (g : Inner) (now : UInt64) (scope : String) : Option AdmissionOutcome :=
  match (g.state scope).window with
  | some w =>
    if running w.windowStartMs now g.policy.rateWindowMs ∧ w.capAtFirstObservation < satAdd w.used 1 then
      some (.deferred (satSub g.policy.rateWindowMs (satSub now w.windowStartMs)) ("rate_exhausted:" ++ scope))
    else none
  | none =>
    if g.policy.rateFor scope = 0 then some (.deferred g.policy.rateWindowMs ("rate_exhausted:" ++ scope)) else none

def budgetExhausted (g : Inner) (units : UInt64) (scope : String) : Option AdmissionOutcome :=
  let st := g.state scope
  if g.policy.budgetFor scope < satAdd (satAdd st.budgetUsed st.budgetReserved) units then
    some (.denied ("budget_exhausted:" ++ scope))
  else none

def refusal (g : Inner) (req : AdmissionRequest) (now : UInt64) : Option AdmissionOutcome :=
  (staleQuota g req now).or <|
  (req.scopes.findSome? (concurrencyExhausted g)).or <|
  if req.isGovernance then none
  else (req.scopes.findSome? (rateExhausted g now)).or (req.scopes.findSome? (budgetExhausted g req.requestedUnits))

/-- `entry(scope).or_default()` for every scope in turn, each changed by `change`. -/
def Scopes.updateAll (change : String → ScopeState → ScopeState) (scopes : Scopes) (names : List String) : Scopes :=
  names.foldl (fun held name => held.insert name (change name (Scopes.state held name))) scopes

def consume (policy : GovernorPolicy) (now units : UInt64) (scope : String) (st : ScopeState) : ScopeState :=
  { st with
    window := some (windowAdmit st.window now policy.rateWindowMs (policy.rateFor scope) 1).1
    budgetReserved := satAdd st.budgetReserved units }

def hold (_ : String) (st : ScopeState) : ScopeState := { st with concurrencyLive := st.concurrencyLive + 1 }

def permitId (n : UInt64) : String := "permit-" ++ toString n.toNat

section

variable (g : Inner) (req : AdmissionRequest) (now : UInt64)

def Inner.permitFor : Permit :=
  { id := permitId g.nextId
    scopes := req.scopes
    reservedUnits := if req.isGovernance then 0 else req.requestedUnits
    deadlineMonoMs := satAdd now g.policy.deadlineWindowMs
    governanceLane := req.isGovernance
    confirmedDispatched := false }

def Inner.granted : Inner :=
  let permit := g.permitFor req now
  let counted :=
    if req.isGovernance then Scopes.updateAll (fun _ st => st) g.scopes req.scopes
    else Scopes.updateAll (consume g.policy now req.requestedUnits) g.scopes req.scopes
  { g with
    scopes := Scopes.updateAll hold counted req.scopes
    permits := g.permits.insert permit.id { permit, completed := false, settled := false }
    nextId := g.nextId + 1 }

def reserve : Inner × AdmissionOutcome :=
  match refusal g req now with
  | some outcome => (g, outcome)
  | none => (g.granted req now, .admitted (g.permitFor req now))

end

/-! ### `settle` -/

def charged (req : SettleRequest) (reserved : UInt64) : UInt64 :=
  match req.outcome with
  | .executed => if req.actualUnits ≤ reserved then req.actualUnits else reserved
  | .unknownAfterSend => reserved
  | .neverDispatched => 0

def releases (req : SettleRequest) : Bool :=
  req.outcome != .unknownAfterSend && (req.complete || req.outcome == .neverDispatched)

def release (permit : Permit) (req : SettleRequest) (st : ScopeState) : ScopeState :=
  let paid :=
    if permit.governanceLane then st
    else
      { st with
        budgetReserved := satSub st.budgetReserved permit.reservedUnits
        budgetUsed := satAdd st.budgetUsed (charged req permit.reservedUnits) }
  if releases req then { paid with concurrencyLive := satSub32 paid.concurrencyLive 1 } else paid

/-- `get_mut(scope)` for every scope in turn: a scope the map does not hold is passed over. -/
def Scopes.changeHeld (change : ScopeState → ScopeState) (scopes : Scopes) (names : List String) : Scopes :=
  names.foldl (fun held name => match held[name]? with
    | some st => held.insert name (change st)
    | none => held) scopes

def Inner.settledBy (g : Inner) (req : SettleRequest) (rec : PermitRecord) : Inner :=
  { g with
    scopes := Scopes.changeHeld (release rec.permit req) g.scopes rec.permit.scopes
    permits := g.permits.insert req.permitId
      { rec with settled := true, completed := rec.completed || releases req } }

def settle (g : Inner) (req : SettleRequest) : Inner × Except GovernorError Unit :=
  match g.permits[req.permitId]? with
  | none => (g, .error (.unknownPermit req.permitId))
  | some rec => if rec.settled then (g, .ok ()) else (g.settledBy req rec, .ok ())

/-! ### `record_and_check_replay` -/

section

variable (attempt : ReplayAttempt)

def sameOperation (row : ReplayRecord) : Bool :=
  row.operation.digest == attempt.operation.digest && row.operation.principal == attempt.operation.principal &&
    row.operation.project == attempt.operation.project &&
    row.operation.endpointSetDigest == attempt.operation.endpointSetDigest

def ReplayAttempt.row (outcome : Option RecordedOutcome) (now : UInt64) : ReplayRecord :=
  { operation := attempt.operation
    outcome
    originalKey := attempt.originalKey
    sideEffectClass := attempt.sideEffectClass
    endpoint := attempt.endpoint
    recordedAtMs := now
    dispatching := true
    ownerFreshAction := attempt.ownerFreshAction }

/-- Remove the latest row that meets a condition (`rposition`, then `remove`). -/
def removeLatest (p : ReplayRecord → Bool) (rows : List ReplayRecord) : List ReplayRecord :=
  (rows.reverse.eraseP p).reverse

/-- Change the latest row that meets a condition; `none` where there is none. -/
def changeLatest (p : ReplayRecord → Bool) (change : ReplayRecord → ReplayRecord) (rows : List ReplayRecord) :
    Option (List ReplayRecord) :=
  let back := rows.reverse
  match back.findIdx? p with
  | some i => some (back.modify i change).reverse
  | none => none

def recordOutcome (now : UInt64) (outcome : RecordedOutcome) (rows : List ReplayRecord) : List ReplayRecord :=
  let write (row : ReplayRecord) : ReplayRecord :=
    { row with
      outcome := some outcome
      recordedAtMs := now
      originalKey := attempt.originalKey
      endpoint := attempt.endpoint }
  (changeLatest (sameOperation attempt) write rows).getD (rows ++ [attempt.row (some outcome) now])

/-- The row a check is judged by: the latest of the operation, of any principal for an Owner's
fresh action. -/
def latestFor (rows : List ReplayRecord) : Option ReplayRecord :=
  let ownerFresh := attempt.ownerFreshAction && attempt.operation.principal.isOwner
  rows.reverse.find? fun row =>
    row.operation.digest == attempt.operation.digest && row.operation.project == attempt.operation.project &&
      row.operation.endpointSetDigest == attempt.operation.endpointSetDigest &&
      (ownerFresh || row.operation.principal == attempt.operation.principal)

end

def checkReplay (g : Inner) (attempt : ReplayAttempt) (now : UInt64) : ReplayDecision :=
  match latestFor attempt g.replay with
  | some row => replayDecision row attempt now g.policy.replayGuardWindowMs
  | none => .allowed

def recordAndCheckReplay (g : Inner) (req : ReplayRequest) : Inner × ReplayDecision :=
  match req.record with
  | some .dispatching =>
    ({ g with replay := g.replay ++ [req.attempt.row none req.nowMs] },
      if req.attempt.ownerFreshAction && req.attempt.operation.principal.isOwner then .allowedOwnerFresh else .allowed)
  | some .clearDispatching =>
    ({ g with replay := removeLatest (fun row => sameOperation req.attempt row && row.outcome.isNone) g.replay }, .allowed)
  | some (.outcome outcome) =>
    ({ g with replay := recordOutcome req.attempt req.nowMs outcome g.replay }, .allowed)
  | none => (g, checkReplay g req.attempt req.nowMs)

theorem Scopes.state_insert (scopes : Scopes) (name other : String) (st : ScopeState) :
    Scopes.state (scopes.insert name st) other = if name = other then st else Scopes.state scopes other := by
  unfold Scopes.state
  rw [Map.getElem?_insert]
  split <;> rfl

variable {names : List String}

theorem Scopes.state_updateAll (distinct : names.Nodup) (change : String → ScopeState → ScopeState)
    (scopes : Scopes) (name : String) :
    Scopes.state (Scopes.updateAll change scopes names) name =
      if name ∈ names then change name (Scopes.state scopes name) else Scopes.state scopes name := by
  unfold Scopes.updateAll
  induction names generalizing scopes with
  | nil => rfl
  | cons first rest ih =>
    obtain ⟨apart, others⟩ := nodup_cons.mp distinct
    rw [foldl_cons, ih others, state_insert]
    by_cases same : first = name
    · subst same
      rw [if_neg apart, if_pos rfl, if_pos mem_cons_self]
    rw [if_neg same]
    have asked : name ∈ first :: rest ↔ name ∈ rest := by
      rw [mem_cons]
      exact ⟨fun either => either.resolve_left (Ne.symm same), .inr⟩
    simp only [asked]

theorem Scopes.state_changeHeld (distinct : names.Nodup) (change : ScopeState → ScopeState)
    (scopes : Scopes) (name : String) :
    Scopes.state (Scopes.changeHeld change scopes names) name =
      if name ∈ names ∧ (scopes[name]?).isSome then change (Scopes.state scopes name) else Scopes.state scopes name := by
  unfold Scopes.changeHeld
  induction names generalizing scopes with
  | nil => simp
  | cons first rest ih =>
    obtain ⟨apart, others⟩ := nodup_cons.mp distinct
    have asked : first ≠ name → (name ∈ first :: rest ↔ name ∈ rest) := by
      intro other
      rw [mem_cons]
      exact ⟨fun either => either.resolve_left (Ne.symm other), .inr⟩
    rw [foldl_cons, ih others]
    cases held : scopes[first]? with
    | none =>
      by_cases same : first = name
      · subst same
        simp [held]
      · simp only [asked same]
    | some st =>
      by_cases same : first = name
      · subst same
        rw [if_neg (fun both => apart both.1), state_insert, if_pos rfl, if_pos ⟨mem_cons_self, by simp [held]⟩,
          Scopes.state, held]
        rfl
      · simp only [asked same, state_insert, if_neg same, Map.getElem?_insert]

end FerroLoop.Governor

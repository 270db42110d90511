import FerroLoop.Lib.Word
import Std.Data.ExtTreeMap

/-!
The pure logic of the gateway's admission governor (`crates/core/src/governor.rs`): scopes, the
policy with its overrides, rate windows and the replay decision.
-/

namespace FerroLoop.Governor

open Std Word

def governanceCalls : List String := ["warrant_revoke_check", "hub_lifecycle_read"]

inductive Principal where
  | owner
  | warrant (id : String)
  | bundle (id : String)
  deriving DecidableEq

def Principal.scopeString : Principal → String
  | .owner => "principal:owner"
  | .warrant id => "principal:warrant:" ++ id
  | .bundle id => "principal:bundle:" ++ id

def Principal.isOwner : Principal → Bool
  | .owner => true
  | _ => false

inductive ScopeKey where
  | principalScope (principal : Principal)
  | projectScope (project : String)
  | endpointScope (endpoint : String)
  | projectEndpointScope (project endpoint : String)
  deriving DecidableEq

def ScopeKey.scopeString : ScopeKey → String
  | .principalScope principal => principal.scopeString
  | .projectScope project => "project:" ++ project
  | .endpointScope endpoint => "endpoint:" ++ endpoint
  | .projectEndpointScope project endpoint => "project_endpoint:" ++ project ++ "|" ++ endpoint

def scopesFor (principal : Principal) (project endpoint : String) : List ScopeKey :=
  [.principalScope principal, .projectScope project, .endpointScope endpoint, .projectEndpointScope project endpoint]

structure ScopePolicy where
  concurrencyPerScope : Option UInt32 := none
  rateMaxPerWindow : Option UInt64 := none
  budgetUnitsPerScope : Option UInt64 := none

structure GovernorPolicy where
  concurrencyPerScope : UInt32 := 4
  rateWindowMs : UInt64 := 60000
  rateMaxPerWindow : UInt64 := 100
  budgetUnitsPerScope : UInt64 := 64 * 1024 * 1024
  freshnessMaxAgeMs : UInt64 := 5000
  replayGuardWindowMs : UInt64 := 60000
  deadlineWindowMs : UInt64 := 60000
  perScope : ExtTreeMap String ScopePolicy compare := ∅

section

variable (policy : GovernorPolicy) (scope : String)

def GovernorPolicy.concurrencyFor : UInt32 :=
  (policy.perScope[scope]?.bind (·.concurrencyPerScope)).getD policy.concurrencyPerScope

def GovernorPolicy.rateFor : UInt64 :=
  (policy.perScope[scope]?.bind (·.rateMaxPerWindow)).getD policy.rateMaxPerWindow

def GovernorPolicy.budgetFor : UInt64 :=
  (policy.perScope[scope]?.bind (·.budgetUnitsPerScope)).getD policy.budgetUnitsPerScope

end

structure WindowState where
  windowStartMs : UInt64
  capAtFirstObservation : UInt64
  used : UInt64
  deriving DecidableEq

/-- The window that began at `start` is still running. -/
def running (start now windowMs : UInt64) : Bool :=
  0 < windowMs && satSub now start < windowMs

def windowAdmit (state : Option WindowState) (now windowMs currentCap units : UInt64) : WindowState × Bool :=
  let restarted :=
    let admitted := decide (units ≤ currentCap)
    ({ windowStartMs := now, capAtFirstObservation := currentCap, used := if admitted then units else 0 }, admitted)
  match state with
  | some s =>
    if running s.windowStartMs now windowMs then
      if satAdd s.used units ≤ s.capAtFirstObservation then ({ s with used := s.used + units }, true) else (s, false)
    else restarted
  | none => restarted

structure LogicalOperationId where
  digest : String
  principal : Principal
  project : String
  endpointSetDigest : String
  deriving DecidableEq

inductive RecordedOutcome where
  | executed | unknownAfterSend
  deriving DecidableEq

inductive SideEffectClass where
  | sideEffectful | idempotentWithKey
  deriving DecidableEq

structure ReplayRecord where
  operation : LogicalOperationId
  outcome : Option RecordedOutcome
  originalKey : Option String
  sideEffectClass : SideEffectClass
  endpoint : String
  recordedAtMs : UInt64
  dispatching : Bool
  ownerFreshAction : Bool
  deriving DecidableEq

structure ReplayAttempt where
  operation : LogicalOperationId
  endpoint : String
  originalKey : Option String
  sideEffectClass : SideEffectClass
  ownerFreshAction : Bool
  deriving DecidableEq

inductive ReplayDecision where
  | allowed
  | allowedOwnerFresh
  | allowedReconciliation
  | refused (reason : String)
  deriving DecidableEq

def replayDecision (record : ReplayRecord) (attempt : ReplayAttempt) (now guardWindowMs : UInt64) : ReplayDecision :=
  let uncertain := record.dispatching && record.outcome.isNone
  if 0 < guardWindowMs ∧ guardWindowMs < satSub now record.recordedAtMs then .allowed
  else if !uncertain && record.outcome.isNone then .allowed
  else if attempt.endpoint ≠ record.endpoint then .refused "endpoint_switch_refused"
  else if attempt.operation.principal.isOwner && attempt.ownerFreshAction then .allowedOwnerFresh
  else if record.operation.principal ≠ attempt.operation.principal then .allowed
  else if record.outcome = some .unknownAfterSend ∧ record.sideEffectClass = .idempotentWithKey ∧
      attempt.sideEffectClass = .idempotentWithKey ∧ attempt.originalKey.isSome ∧
      attempt.originalKey = record.originalKey ∧ uncertain = false then .allowedReconciliation
  else .refused (if uncertain then "uncertain_dispatching_without_outcome" else "replay_guard_refused")

structure AdmissionRequest where
  principal : Principal
  project : String
  endpoint : String
  requestedUnits : UInt64
  quotaObservedAtMs : Option UInt64 := none
  governanceCall : Option String := none
  callName : Option String := none
  ownerFreshAction : Bool := false
  operationDigest : Option String := none
  endpointSetDigest : String := ""
  originalKey : Option String := none
  sideEffectClass : SideEffectClass := .sideEffectful

section

variable (req : AdmissionRequest)

def AdmissionRequest.replayAttempt : Option ReplayAttempt :=
  req.operationDigest.map fun digest =>
    { operation :=
        { digest, principal := req.principal, project := req.project, endpointSetDigest := req.endpointSetDigest }
      endpoint := req.endpoint
      originalKey := req.originalKey
      sideEffectClass := req.sideEffectClass
      ownerFreshAction := req.ownerFreshAction }

def AdmissionRequest.isGovernance : Bool :=
  match req.governanceCall.or req.callName with
  | some name => governanceCalls.contains name
  | none => false

def AdmissionRequest.scopes : List String :=
  (scopesFor req.principal req.project req.endpoint).map ScopeKey.scopeString

structure Permit where
  id : String
  scopes : List String
  reservedUnits : UInt64
  deadlineMonoMs : UInt64
  governanceLane : Bool
  confirmedDispatched : Bool
  deriving DecidableEq

inductive AdmissionOutcome where
  | admitted (permit : Permit)
  | deferred (retryAfterMs : UInt64) (reason : String)
  | denied (reason : String)
  | admissionUnavailable
  deriving DecidableEq

inductive SettledOutcome where
  | executed | unknownAfterSend | neverDispatched
  deriving DecidableEq

structure SettleRequest where
  permitId : String
  actualUnits : UInt64
  outcome : SettledOutcome
  complete : Bool
  deriving DecidableEq

inductive ReplayRecordAction where
  | dispatching
  | outcome (recorded : RecordedOutcome)
  | clearDispatching
  deriving DecidableEq

structure ReplayRequest where
  attempt : ReplayAttempt
  nowMs : UInt64
  record : Option ReplayRecordAction
  deriving DecidableEq

inductive GovernorError where
  | unknownPermit (id : String)
  | unavailable
  | invalid (reason : String)
  deriving DecidableEq

theorem Principal.scopeString_starts (principal : Principal) : ∃ rest, principal.scopeString = "principal:" ++ rest := by
  unfold scopeString
  cases principal with
  | owner => exact ⟨"owner", by simp⟩
  | warrant id => exact ⟨"warrant:" ++ id, by simp [← String.append_assoc]⟩
  | bundle id => exact ⟨"bundle:" ++ id, by simp [← String.append_assoc]⟩

theorem AdmissionRequest.scopes_eq :
    req.scopes = [req.principal.scopeString, "project:" ++ req.project, "endpoint:" ++ req.endpoint,
      "project_endpoint:" ++ req.project ++ "|" ++ req.endpoint] := rfl

theorem ne_of_toList_ne {a b : String} (differ : a.toList ≠ b.toList) : a ≠ b := by
  intro same
  subst same
  exact differ rfl

theorem AdmissionRequest.scopes_nodup : req.scopes.Nodup := by
  obtain ⟨rest, spelled⟩ := req.principal.scopeString_starts
  rw [scopes_eq, spelled]
  simp only [List.nodup_cons, List.mem_cons, List.not_mem_nil, or_false, not_or, not_false_eq_true, List.nodup_nil,
    and_true]
  refine ⟨⟨ne_of_toList_ne ?_, ne_of_toList_ne ?_, ne_of_toList_ne ?_⟩, ⟨ne_of_toList_ne ?_, ne_of_toList_ne ?_⟩,
    ne_of_toList_ne ?_⟩ <;> simp [String.toList_append]

end

end FerroLoop.Governor

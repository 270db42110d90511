import FerroLoop.Governor.Windows

/-!
Governed dispatch (`GateGovernor::governed_dispatch` of `crates/gate/src/governor.rs`) by any number
of concurrent calls on one store. A call takes the store's lock for each of its steps: the replay
check, the dispatch record, the reservation, the note of the outcome and the settlement. Between
two of them the other calls run.
-/

namespace FerroLoop.Governor

open Std Word Machine

inductive DispatchResult where
  | executed (actualUnits : UInt64)
  | refusedBeforeDispatch
  | failedAfterSend
  deriving DecidableEq

structure DispatchCall where
  req : AdmissionRequest
  now : UInt64

inductive Returned where
  | refused (outcome : AdmissionOutcome)
  | reported (result : DispatchResult)
  deriving DecidableEq

/-- The next thing a call does with the store, or the closure it is about to run. -/
inductive Stage where
  | check
  | record
  | reserve
  | dispatch (permit : Permit)
  | note (permit : Permit) (result : DispatchResult)
  | settle (permit : Permit) (result : DispatchResult)
  | expired (permit : Permit)
  | clear (outcome : AdmissionOutcome)
  | returned (value : Returned)
  deriving DecidableEq

def journal (call : DispatchCall) (action : ReplayRecordAction) (g : Inner) : Inner :=
  match call.req.replayAttempt with
  | some attempt => (recordAndCheckReplay g ⟨attempt, call.now, some action⟩).1
  | none => g

def noted : DispatchResult → ReplayRecordAction
  | .executed _ => .outcome .executed
  | .refusedBeforeDispatch => .clearDispatching
  | .failedAfterSend => .outcome .unknownAfterSend

def settlement (permit : Permit) : DispatchResult → SettleRequest
  | .executed actual => ⟨permit.id, actual, .executed, true⟩
  | .refusedBeforeDispatch => ⟨permit.id, 0, .neverDispatched, true⟩
  | .failedAfterSend => ⟨permit.id, permit.reservedUnits, .unknownAfterSend, false⟩

/-- One step of a call; `result` is what its closure reports where the step is to run it. -/
def advance (call : DispatchCall) (result : DispatchResult) (g : Inner) : Stage → Inner × Stage
  | .check =>
    match call.req.replayAttempt with
    | none => (g, .reserve)
    | some attempt =>
      match (recordAndCheckReplay g ⟨attempt, call.now, none⟩).2 with
      | .refused reason => (g, .returned (.refused (.denied reason)))
      | _ => (g, .record)
  | .record => (journal call .dispatching g, .reserve)
  | .reserve =>
    match reserve g call.req call.now with
    | (g', .admitted permit) =>
      if permit.deadlineMonoMs ≤ call.now then (g', .expired permit) else (g', .dispatch permit)
    | (g', other) => (g', .clear other)
  | .dispatch permit => (g, .note permit result)
  | .note permit reported => (journal call (noted reported) g, .settle permit reported)
  | .settle permit reported => ((Governor.settle g (settlement permit reported)).1, .returned (.reported reported))
  | .expired permit =>
    ((Governor.settle g ⟨permit.id, 0, .neverDispatched, true⟩).1, .clear (.denied "permit_deadline_exceeded"))
  | .clear outcome => (journal call .clearDispatching g, .returned (.refused outcome))
  | .returned value => (g, .returned value)

structure Gate where
  store : Inner
  stages : List Stage

def Gate.start (store : Inner) (calls : List DispatchCall) : Gate := ⟨store, calls.map fun _ => .check⟩

def Stage.runsClosure : Stage → Bool
  | .dispatch _ => true
  | _ => false

section

variable (calls : List DispatchCall) (gate : Gate) (turn : Nat × DispatchResult)

def Gate.step : Gate × Option (Nat × DispatchResult) :=
  match calls[turn.1]?, gate.stages[turn.1]? with
  | some call, some stage =>
    let moved := advance call turn.2 gate.store stage
    (⟨moved.1, gate.stages.set turn.1 moved.2⟩, if stage.runsClosure then some turn else none)
  | _, _ => (gate, none)

def ran (past : List ((Nat × DispatchResult) × Option (Nat × DispatchResult))) : List (Nat × DispatchResult) :=
  past.filterMap (·.2)

/-- Calls of one logical operation on one endpoint, none of them an Owner's fresh action, all within
one guard window. -/
structure Alike (store : Inner) (calls : List DispatchCall) (operation : LogicalOperationId) (endpoint : String) :
    Prop where
  attempt : ∀ call ∈ calls, ∃ attempt, call.req.replayAttempt = some attempt ∧ attempt.operation = operation ∧
    attempt.endpoint = endpoint ∧ attempt.ownerFreshAction = false
  window : ∀ a ∈ calls, ∀ b ∈ calls, 0 < store.policy.replayGuardWindowMs →
    satSub a.now b.now ≤ store.policy.replayGuardWindowMs

def Reconciles (a b : DispatchCall) : Prop :=
  a.req.originalKey.isSome ∧ b.req.originalKey = a.req.originalKey ∧
    a.req.sideEffectClass = .idempotentWithKey ∧ b.req.sideEffectClass = .idempotentWithKey

/-- A closure may run after an earlier run that was refused before sending, or that ended unknown
under the key the later call presents. -/
def MayFollow (calls : List DispatchCall) (earlier later : Nat × DispatchResult) : Prop :=
  earlier.2 = .refusedBeforeDispatch ∨ (earlier.2 = .failedAfterSend ∧
    ∃ a b, calls[earlier.1]? = some a ∧ calls[later.1]? = some b ∧ Reconciles a b)

def passes (g : Inner) (attempt : ReplayAttempt) (now : UInt64) : Bool :=
  match checkReplay g attempt now with
  | .refused _ => false
  | _ => true

def rechecked : Bool :=
  match calls[turn.1]?, gate.stages[turn.1]? with
  | some call, some .record => call.req.replayAttempt.all fun attempt => passes gate.store attempt call.now
  | _, _ => true

end

theorem sameOperation_iff (attempt : ReplayAttempt) (row : ReplayRecord) :
    sameOperation attempt row = decide (row.operation = attempt.operation) := by
  cases row with
  | mk operation =>
    cases attempt with
    | mk op =>
      cases operation
      cases op
      apply Bool.eq_iff_iff.mpr
      simp [sameOperation, and_assoc]

def latest (operation : LogicalOperationId) (rows : List ReplayRecord) : Option ReplayRecord :=
  rows.reverse.find? fun row => decide (row.operation = operation)

theorem latestFor_eq {attempt : ReplayAttempt} (notFresh : attempt.ownerFreshAction = false) (rows : List ReplayRecord) :
    latestFor attempt rows = latest attempt.operation rows := by
  unfold latestFor latest
  dsimp only
  congr 1
  funext row
  rw [← sameOperation_iff, notFresh]
  simp only [sameOperation, Bool.false_and, Bool.false_or]
  apply Bool.eq_iff_iff.mpr
  simp only [Bool.and_eq_true]
  exact ⟨fun ⟨⟨⟨digest, project⟩, set⟩, principal⟩ => ⟨⟨⟨digest, principal⟩, project⟩, set⟩,
    fun ⟨⟨⟨digest, principal⟩, project⟩, set⟩ => ⟨⟨⟨digest, project⟩, set⟩, principal⟩⟩

variable {row : ReplayRecord} {rows : List ReplayRecord}

theorem latest_append {operation : LogicalOperationId}
    (own : row.operation = operation) : latest operation (rows ++ [row]) = some row := by
  unfold latest
  rw [List.reverse_append, List.reverse_singleton, List.singleton_append, List.find?_cons, decide_eq_true own]

variable {p : ReplayRecord → Bool}

theorem removeLatest_append (met : p row = true) :
    removeLatest p (rows ++ [row]) = rows := by
  unfold removeLatest
  rw [List.reverse_append, List.reverse_singleton, List.singleton_append, List.eraseP_cons_of_pos met, List.reverse_reverse]

theorem changeLatest_append {change : ReplayRecord → ReplayRecord}
    (met : p row = true) :
    changeLatest p change (rows ++ [row]) = some (rows ++ [change row]) := by
  unfold changeLatest
  simp only [List.reverse_append, List.reverse_singleton, List.singleton_append, List.findIdx?_cons, met, if_true]
  simp

/-! ### The store's other calls leave the journal -/

theorem reserve_replay (g : Inner) (req : AdmissionRequest) (now : UInt64) :
    (reserve g req now).1.replay = g.replay ∧ (reserve g req now).1.policy = g.policy := by
  unfold reserve
  split <;> exact ⟨rfl, rfl⟩

theorem settle_replay (g : Inner) (req : SettleRequest) :
    (settle g req).1.replay = g.replay ∧ (settle g req).1.policy = g.policy := by
  unfold settle
  split
  · exact ⟨rfl, rfl⟩
  · split <;> exact ⟨rfl, rfl⟩

theorem journal_policy (call : DispatchCall) (action : ReplayRecordAction) (g : Inner) :
    (journal call action g).policy = g.policy := by
  unfold journal
  split
  · cases action <;> rfl
  · rfl

end FerroLoop.Governor

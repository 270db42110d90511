import FerroLoop.Governor.Dispatch

namespace FerroLoop.Governor

open List hiding getElem?_eq_some_iff
open Std Word Machine Gate

section Guard

variable (calls : List DispatchCall) (operation : LogicalOperationId) (endpoint : String)

def Sent (run : Nat × DispatchResult) : Bool := run.2 != .refusedBeforeDispatch

def UnknownUnder (key : Option String) (run : Nat × DispatchResult) : Prop :=
  run.2 = .failedAfterSend ∧ ∃ call, calls[run.1]? = some call ∧ call.req.originalKey = key ∧
    call.req.sideEffectClass = .idempotentWithKey

/-- The journal stands for the runs that may have sent something: its latest row has an outcome of
its own time window, and one that may be reconciled says that all of them ended unknown under the
row's key. -/
def Backed (sent : List (Nat × DispatchResult)) (rows : List ReplayRecord) : Prop :=
  sent = [] ∨ ∃ row outcome, latest operation rows = some row ∧ row.outcome = some outcome ∧ row.endpoint = endpoint ∧
    (∃ call ∈ calls, row.recordedAtMs = call.now) ∧
    (outcome = .unknownAfterSend → row.sideEffectClass = .idempotentWithKey →
      ∀ run ∈ sent, UnknownUnder calls row.originalKey run)

def Stage.active : Stage → Bool
  | .reserve | .dispatch _ | .note _ _ | .expired _ | .clear _ => true
  | _ => false

/-- The run of its closure that a call has not noted yet. -/
def Stage.unnoted (i : Nat) : Stage → List (Nat × DispatchResult)
  | .note _ result => [(i, result)].filter Sent
  | _ => []

structure Busy (gate : Gate) (sent : List (Nat × DispatchResult)) (i : Nat) (call : DispatchCall) (stage : Stage) :
    Prop where
  called : calls[i]? = some call
  staged : gate.stages[i]? = some stage
  active : stage.active = true
  alone : ∀ (j : Nat) (other : Stage), gate.stages[j]? = some other → other.active = true → j = i
  rows : ∃ before attempt, call.req.replayAttempt = some attempt ∧
    gate.store.replay = before ++ [attempt.row none call.now] ∧
    ∃ earlier, sent = earlier ++ stage.unnoted i ∧ Backed calls operation endpoint earlier before ∧
      ∀ run ∈ earlier, run.2 = .failedAfterSend ∧ ∃ other, calls[run.1]? = some other ∧ Reconciles other call

structure Idle (gate : Gate) (sent : List (Nat × DispatchResult)) : Prop where
  quiet : ∀ (j : Nat) (other : Stage), gate.stages[j]? = some other → other.active = false
  backed : Backed calls operation endpoint sent gate.store.replay

structure Guarded (store : Inner) (gate : Gate) (sent : List (Nat × DispatchResult)) : Prop where
  policy : gate.store.policy.replayGuardWindowMs = store.policy.replayGuardWindowMs
  held : Idle calls operation endpoint gate sent ∨
    ∃ i call stage, Busy calls operation endpoint gate sent i call stage

variable {calls operation endpoint}

variable {attempt : ReplayAttempt} {call : DispatchCall} {store store' : Inner} {i : Nat}
  {sent : List (Nat × DispatchResult)} {stage next : Stage} {gate : Gate}

variable {row : ReplayRecord} {now guard : UInt64}

theorem replayDecision_uncertain
    (pending : row.outcome = none) (dispatching : row.dispatching = true) (recent : 0 < guard → satSub now row.recordedAtMs ≤ guard)
    (there : attempt.endpoint = row.endpoint) (notFresh : attempt.ownerFreshAction = false)
    (principal : row.operation.principal = attempt.operation.principal) :
    ∃ reason, replayDecision row attempt now guard = .refused reason := by
  have inWindow : ¬ (0 < guard ∧ guard < satSub now row.recordedAtMs) := fun late => UInt64.not_lt.mpr (recent late.1) late.2
  unfold replayDecision
  simp [inWindow, pending, dispatching, there, notFresh, principal]

theorem replayDecision_known {outcome : RecordedOutcome}
    (known : row.outcome = some outcome) (recent : 0 < guard → satSub now row.recordedAtMs ≤ guard)
    (there : attempt.endpoint = row.endpoint) (notFresh : attempt.ownerFreshAction = false)
    (principal : row.operation.principal = attempt.operation.principal)
    (passed : ∀ reason, replayDecision row attempt now guard ≠ .refused reason) :
    outcome = .unknownAfterSend ∧ row.sideEffectClass = .idempotentWithKey ∧
      attempt.sideEffectClass = .idempotentWithKey ∧ attempt.originalKey.isSome ∧ attempt.originalKey = row.originalKey := by
  have inWindow : ¬ (0 < guard ∧ guard < satSub now row.recordedAtMs) := fun late => UInt64.not_lt.mpr (recent late.1) late.2
  unfold replayDecision at passed
  simp only [inWindow, known, there, notFresh, principal, if_false, Option.isNone_some, Bool.and_false, Bool.not_false,
    Bool.false_eq_true, ne_eq, not_true_eq_false, Option.some.injEq, and_true] at passed
  split at passed
  · rename_i both
    exact ⟨both.1, both.2.1, both.2.2.1, both.2.2.2.1, both.2.2.2.2⟩
  · exact absurd rfl (passed _)

theorem Alike.attempt_at (alike : Alike store calls operation endpoint)
    (called : calls[i]? = some call) :
    ∃ attempt, call.req.replayAttempt = some attempt ∧ attempt.operation = operation ∧ attempt.endpoint = endpoint ∧
      attempt.ownerFreshAction = false := alike.attempt call (mem_of_getElem? called)

theorem replayAttempt_fields {req : AdmissionRequest} (found : req.replayAttempt = some attempt) :
    attempt.originalKey = req.originalKey ∧ attempt.sideEffectClass = req.sideEffectClass := by
  unfold AdmissionRequest.replayAttempt at found
  rcases digest : req.operationDigest with _ | d
  · rw [digest] at found
    cases found
  rw [digest] at found
  cases found
  exact ⟨rfl, rfl⟩

theorem Busy.refuses (alike : Alike store calls operation endpoint)
    (busy : Busy calls operation endpoint gate sent i call stage)
    (policy : gate.store.policy.replayGuardWindowMs = store.policy.replayGuardWindowMs) {j : Nat} {other : DispatchCall}
    (called : calls[j]? = some other) (attempted : other.req.replayAttempt = some attempt) :
    ∃ reason, checkReplay gate.store attempt other.now = .refused reason := by
  obtain ⟨mine, found, own, there, fresh⟩ := alike.attempt_at busy.called
  obtain ⟨theirs, found', own', there', fresh'⟩ := alike.attempt_at called
  rw [attempted] at found'
  cases found'
  obtain ⟨before, again, same, rows, -⟩ := busy.rows
  rw [found] at same
  cases same
  unfold checkReplay
  rw [latestFor_eq fresh', own', rows, latest_append own]
  refine replayDecision_uncertain rfl rfl ?_ (there'.trans there.symm) fresh' ?_
  · rw [policy]
    exact alike.window other (mem_of_getElem? called) call (mem_of_getElem? busy.called)
  · show mine.operation.principal = _
    rw [own, own']

variable {store : Inner} {sent : List (Nat × DispatchResult)}

theorem Backed.passed (alike : Alike store calls operation endpoint) {gate : Gate}
    (backed : Backed calls operation endpoint sent gate.store.replay)
    (policy : gate.store.policy.replayGuardWindowMs = store.policy.replayGuardWindowMs) {i : Nat} {call : DispatchCall}
    (called : calls[i]? = some call) {attempt : ReplayAttempt} (attempted : call.req.replayAttempt = some attempt)
    (passed : ∀ reason, checkReplay gate.store attempt call.now ≠ .refused reason) :
    ∀ run ∈ sent, run.2 = .failedAfterSend ∧ ∃ other, calls[run.1]? = some other ∧ Reconciles other call := by
  intro run member
  obtain ⟨theirs, found, own, there, fresh⟩ := alike.attempt_at called
  rw [attempted] at found
  cases found
  rcases backed with none | ⟨row, outcome, last, known, at', ⟨past, among, time⟩, unknown⟩
  · rw [none] at member
    cases member
  unfold checkReplay at passed
  rw [latestFor_eq fresh, own, last] at passed
  have rowOwn : row.operation = operation := by
    have met := find?_some last
    exact of_decide_eq_true met
  have recent : 0 < gate.store.policy.replayGuardWindowMs →
      satSub call.now row.recordedAtMs ≤ gate.store.policy.replayGuardWindowMs := by
    rw [time, policy]
    exact alike.window call (mem_of_getElem? called) past among
  obtain ⟨ended, class', mine, key, same⟩ :=
    replayDecision_known known recent (there.trans at'.symm) fresh (by rw [rowOwn, own]) passed
  obtain ⟨failed, other, called', key', otherClass⟩ := unknown ended class' run member
  obtain ⟨fieldKey, fieldClass⟩ := replayAttempt_fields attempted
  refine ⟨failed, other, called', ?_, ?_, otherClass, fieldClass ▸ mine⟩
  · rw [key', ← same]
    exact key
  · rw [← fieldKey, same, key']

theorem stage_set (held : gate.stages[i]? = some stage) (next : Stage) (j : Nat) :
    (gate.stages.set i next)[j]? = if i = j then some next else gate.stages[j]? := by
  obtain ⟨within, -⟩ := List.getElem?_eq_some_iff.mp held
  rw [getElem?_set]
  split
  · rename_i same
    simp
  · rfl

theorem Idle.moved (idle : Idle calls operation endpoint gate sent)
    (held : gate.stages[i]? = some stage) (still : next.active = false)
    (same : store'.replay = gate.store.replay) :
    Idle calls operation endpoint ⟨store', gate.stages.set i next⟩ sent := by
  refine ⟨?_, ?_⟩
  · intro j other found
    have found : (gate.stages.set i next)[j]? = some other := found
    rw [stage_set held] at found
    split at found
    · cases found
      exact still
    · exact idle.quiet j other found
  · show Backed calls operation endpoint sent store'.replay
    rw [same]
    exact idle.backed

section

variable (busy : Busy calls operation endpoint gate sent i call stage)

include busy

theorem Busy.others
    {j : Nat} (apart : j ≠ i) {other : Stage}
    (held : gate.stages[j]? = some other) (still : next.active = false)
    (same : store'.replay = gate.store.replay) :
    Busy calls operation endpoint ⟨store', gate.stages.set j next⟩ sent i call stage := by
  refine ⟨busy.called, ?_, busy.active, ?_, ?_⟩
  · show (gate.stages.set j next)[i]? = _
    rw [stage_set held, if_neg apart]
    exact busy.staged
  · intro k another found moving
    have found : (gate.stages.set j next)[k]? = some another := found
    rw [stage_set held] at found
    split at found
    · cases found
      rw [still] at moving
      cases moving
    · exact busy.alone k another found moving
  · show ∃ before attempt, _ ∧ store'.replay = _ ∧ _
    rw [same]
    exact busy.rows

theorem Busy.onward {sent' : List (Nat × DispatchResult)}
    (moving : next.active = true)
    (same : store'.replay = gate.store.replay) (before : stage.unnoted i = [])
    (after : sent' = sent ++ next.unnoted i) :
    Busy calls operation endpoint ⟨store', gate.stages.set i next⟩ sent' i call next := by
  obtain ⟨rows, attempt, attempted, journal, earlier, total, backed, reconciled⟩ := busy.rows
  refine ⟨busy.called, ?_, moving, ?_, ?_⟩
  · show (gate.stages.set i next)[i]? = _
    rw [stage_set busy.staged, if_pos rfl]
  · intro k another found active
    have found : (gate.stages.set i next)[k]? = some another := found
    rw [stage_set busy.staged] at found
    split at found
    · rename_i here
      exact here.symm
    · exact busy.alone k another found active
  · refine ⟨rows, attempt, attempted, same.trans journal, earlier, ?_, backed, reconciled⟩
    rw [after, total, before, append_nil]

theorem Busy.ended
    (still : next.active = false)
    (backed : Backed calls operation endpoint sent store'.replay) :
    Idle calls operation endpoint ⟨store', gate.stages.set i next⟩ sent := by
  refine ⟨?_, backed⟩
  intro j other found
  have found : (gate.stages.set i next)[j]? = some other := found
  rw [stage_set busy.staged] at found
  split at found
  · cases found
    exact still
  rename_i apart
  cases moving : other.active with
  | false => rfl
  | true => exact absurd (busy.alone j other found moving).symm apart

end

theorem Idle.begun (alike : Alike store calls operation endpoint)
    (idle : Idle calls operation endpoint gate sent)
    (policy : gate.store.policy.replayGuardWindowMs = store.policy.replayGuardWindowMs)
    (called : calls[i]? = some call) (held : gate.stages[i]? = some .record)
    (attempted : call.req.replayAttempt = some attempt)
    (passed : ∀ reason, checkReplay gate.store attempt call.now ≠ .refused reason) :
    Busy calls operation endpoint ⟨journal call .dispatching gate.store, gate.stages.set i .reserve⟩ sent i call
      .reserve := by
  have written : (journal call .dispatching gate.store).replay = gate.store.replay ++ [attempt.row none call.now] := by
    unfold journal
    rw [attempted]
    rfl
  refine ⟨called, ?_, rfl, ?_, ?_⟩
  · show (gate.stages.set i .reserve)[i]? = _
    rw [stage_set held, if_pos rfl]
  · intro j other found moving
    have found : (gate.stages.set i .reserve)[j]? = some other := found
    rw [stage_set held] at found
    split at found
    · rename_i here
      exact here.symm
    · rw [idle.quiet j other found] at moving
      cases moving
  · exact ⟨gate.store.replay, attempt, attempted, written, sent, (append_nil sent).symm, idle.backed,
      idle.backed.passed alike policy called attempted passed⟩

theorem Busy.noted {permit : Permit}
    {result : DispatchResult} (alike : Alike store calls operation endpoint)
    (busy : Busy calls operation endpoint gate sent i call (.note permit result)) :
    Backed calls operation endpoint sent (journal call (noted result) gate.store).replay := by
  obtain ⟨before, attempt, attempted, rows, earlier, total, backed, reconciled⟩ := busy.rows
  obtain ⟨again, found, own, there, -⟩ := alike.attempt_at busy.called
  rw [attempted] at found
  cases found
  obtain ⟨fieldKey, fieldClass⟩ := replayAttempt_fields attempted
  have matched : sameOperation attempt (attempt.row none call.now) = true := by
    rw [sameOperation_iff]
    exact decide_eq_true rfl
  have closed : ∀ outcome, (recordOutcome attempt call.now outcome gate.store.replay) =
      before ++ [attempt.row (some outcome) call.now] := by
    intro outcome
    unfold recordOutcome
    dsimp only
    rw [rows, changeLatest_append matched]
    rfl
  have among : ∃ other ∈ calls, call.now = other.now := ⟨call, mem_of_getElem? busy.called, rfl⟩
  unfold journal
  rw [attempted]
  cases result with
  | executed actual =>
    show Backed calls operation endpoint sent (recordOutcome attempt call.now .executed gate.store.replay)
    rw [closed]
    exact .inr ⟨_, _, latest_append own, rfl, there, among, fun wrong => by cases wrong⟩
  | failedAfterSend =>
    show Backed calls operation endpoint sent (recordOutcome attempt call.now .unknownAfterSend gate.store.replay)
    rw [closed]
    refine .inr ⟨_, _, latest_append own, rfl, there, among, ?_⟩
    intro _ class' run member
    have mine : call.req.sideEffectClass = .idempotentWithKey := fieldClass ▸ class'
    show UnknownUnder calls attempt.originalKey run
    rw [fieldKey]
    rw [total] at member
    rcases mem_append.mp member with old | new
    · obtain ⟨failed, other, called, -, key, class'', -⟩ := reconciled run old
      exact ⟨failed, other, called, key.symm, class''⟩
    · have itself : run = (i, .failedAfterSend) := mem_singleton.mp new
      subst itself
      exact ⟨rfl, call, busy.called, rfl, mine⟩
  | refusedBeforeDispatch =>
    show Backed calls operation endpoint sent
      (removeLatest (fun row => sameOperation attempt row && row.outcome.isNone) gate.store.replay)
    rw [rows, removeLatest_append (by rw [matched]; rfl), total]
    have nothing : Stage.unnoted i (.note permit .refusedBeforeDispatch) = [] := rfl
    rw [nothing, append_nil]
    exact backed

theorem Busy.cleared
    {outcome : AdmissionOutcome} (busy : Busy calls operation endpoint gate sent i call (.clear outcome)) :
    Backed calls operation endpoint sent (journal call .clearDispatching gate.store).replay := by
  obtain ⟨before, attempt, attempted, rows, earlier, total, backed, -⟩ := busy.rows
  have matched : sameOperation attempt (attempt.row none call.now) = true := by
    rw [sameOperation_iff]
    exact decide_eq_true rfl
  unfold journal
  rw [attempted]
  show Backed calls operation endpoint sent
    (removeLatest (fun row => sameOperation attempt row && row.outcome.isNone) gate.store.replay)
  rw [rows, removeLatest_append (by rw [matched]; rfl), total]
  have nothing : Stage.unnoted i (.clear outcome) = [] := rfl
  rw [nothing, append_nil]
  exact backed

section

variable (call : DispatchCall) (result : DispatchResult) (g : Inner)

theorem advance_policy (stage : Stage) : (advance call result g stage).1.policy = g.policy := by
  cases stage with
  | check =>
    dsimp only [advance]
    split
    · rfl
    · split <;> rfl
  | record => exact journal_policy _ _ _
  | reserve =>
    have same := (reserve_replay g call.req call.now).2
    dsimp only [advance]
    split
    · rename_i g' permit answered
      rw [answered] at same
      split <;> exact same
    · rename_i g' other _ answered
      rw [answered] at same
      exact same
  | dispatch permit => rfl
  | note permit reported => exact journal_policy _ _ _
  | settle permit reported | expired permit => exact (settle_replay _ _).2
  | clear outcome => exact journal_policy _ _ _
  | returned value => rfl

theorem advance_reserve :
    (advance call result g .reserve).1.replay = g.replay ∧ (advance call result g .reserve).2.active = true ∧
      ∀ i, (advance call result g .reserve).2.unnoted i = [] := by
  have same := (reserve_replay g call.req call.now).1
  dsimp only [advance]
  split
  · rename_i g' permit answered
    rw [answered] at same
    split <;> exact ⟨same, rfl, fun _ => rfl⟩
  · rename_i g' other _ answered
    rw [answered] at same
    exact ⟨same, rfl, fun _ => rfl⟩

theorem advance_check (attempted : call.req.replayAttempt = some attempt) :
    (advance call result g .check).1 = g ∧ (advance call result g .check).2.active = false := by
  dsimp only [advance]
  rw [attempted]
  dsimp only
  split <;> exact ⟨rfl, rfl⟩

end

theorem Guarded.step (alike : Alike store calls operation endpoint) {gate : Gate}
    (guarded : Guarded calls operation endpoint store gate sent)
    {turn : Nat × DispatchResult} (again : rechecked calls gate turn = true) :
    Guarded calls operation endpoint store (gate.step calls turn).1
        (sent ++ (gate.step calls turn).2.toList.filter Sent) ∧
      ∀ run ∈ (gate.step calls turn).2, ∀ past ∈ sent, past.2 = .failedAfterSend ∧
        ∃ a b, calls[past.1]? = some a ∧ calls[run.1]? = some b ∧ Reconciles a b := by
  obtain ⟨i, result⟩ := turn
  have unmoved : ∀ {gate'}, gate' = gate → Guarded calls operation endpoint store gate' (sent ++ [].filter Sent) := by
    intro gate' same
    subst same
    simpa using guarded
  unfold Gate.step
  dsimp only
  rcases called : calls[i]? with _ | call
  · exact ⟨unmoved rfl, fun run wrong => by cases wrong⟩
  rcases staged : gate.stages[i]? with _ | stage
  · exact ⟨unmoved rfl, fun run wrong => by cases wrong⟩
  dsimp only
  obtain ⟨attempt, attempted, own, there, fresh⟩ := alike.attempt_at called
  have policy : (advance call result gate.store stage).1.policy.replayGuardWindowMs =
      store.policy.replayGuardWindowMs := by
    rw [advance_policy]
    exact guarded.policy
  -- A step that is in no one's flight: the journal stays, and the call stays out of flight.
  have aside : stage.active = false →
      (advance call result gate.store stage).1.replay = gate.store.replay →
      (advance call result gate.store stage).2.active = false →
      Idle calls operation endpoint ⟨(advance call result gate.store stage).1,
          gate.stages.set i (advance call result gate.store stage).2⟩ sent ∨
        ∃ j other st, Busy calls operation endpoint ⟨(advance call result gate.store stage).1,
          gate.stages.set i (advance call result gate.store stage).2⟩ sent j other st := by
    intro outside same still
    rcases guarded.held with idle | ⟨j, other, st, busy⟩
    · exact .inl (idle.moved staged still same)
    have apart : i ≠ j := by
      intro here
      subst here
      have both := busy.staged
      rw [staged] at both
      cases both
      rw [busy.active] at outside
      cases outside
    exact .inr ⟨j, other, st, busy.others apart staged still same⟩
  -- A step of the call in flight.
  have inFlight : stage.active = true → Busy calls operation endpoint gate sent i call stage := by
    intro active
    rcases guarded.held with idle | ⟨j, other, st, busy⟩
    · rw [idle.quiet i stage staged] at active
      cases active
    have here := busy.alone i stage staged active
    subst here
    have sameCall := busy.called
    have sameStage := busy.staged
    rw [called] at sameCall
    rw [staged] at sameStage
    cases sameCall
    cases sameStage
    exact busy
  have silent : stage.runsClosure = false →
      sent ++ (if stage.runsClosure = true then some (i, result) else none).toList.filter Sent = sent := by
    intro waiting
    rw [waiting]
    exact append_nil sent
  cases stage with
  | check =>
    obtain ⟨same, still⟩ := advance_check call result gate.store attempted
    rw [silent rfl]
    exact ⟨⟨policy, aside rfl (by rw [same]) still⟩, fun run wrong => by cases wrong⟩
  | record =>
    have passed : ∀ reason, checkReplay gate.store attempt call.now ≠ .refused reason := by
      unfold rechecked at again
      simp only [called, staged, attempted, Option.all_some, passes] at again
      intro reason refused
      rw [refused] at again
      cases again
    rw [silent rfl]
    refine ⟨⟨policy, ?_⟩, fun run wrong => by cases wrong⟩
    rcases guarded.held with idle | ⟨j, other, st, busy⟩
    · exact .inr ⟨i, call, .reserve, idle.begun alike guarded.policy called staged attempted passed⟩
    · obtain ⟨reason, refused⟩ := busy.refuses alike guarded.policy called attempted
      exact absurd refused (passed reason)
  | reserve =>
    obtain ⟨same, moving, nothing⟩ := advance_reserve call result gate.store
    rw [silent rfl]
    refine ⟨⟨policy, .inr ⟨i, call, (advance call result gate.store .reserve).2, ?_⟩⟩, fun run wrong => by cases wrong⟩
    exact (inFlight rfl).onward moving same rfl (by rw [nothing, append_nil])
  | dispatch permit =>
    have busy := inFlight rfl
    refine ⟨⟨policy, .inr ⟨i, call, .note permit result, ?_⟩⟩, ?_⟩
    · exact busy.onward rfl rfl rfl rfl
    intro run here past member
    cases here
    obtain ⟨before, attempt', attempted', rows, earlier, total, backed, reconciled⟩ := busy.rows
    have nothing : Stage.unnoted i (.dispatch permit) = [] := rfl
    rw [nothing, append_nil] at total
    subst total
    obtain ⟨failed, other, called', reconciles⟩ := reconciled past member
    exact ⟨failed, other, call, called', called, reconciles⟩
  | note permit reported =>
    rw [silent rfl]
    exact ⟨⟨policy, .inl ((inFlight rfl).ended rfl ((inFlight rfl).noted alike))⟩, fun run wrong => by cases wrong⟩
  | settle permit reported =>
    rw [silent rfl]
    exact ⟨⟨policy, aside rfl (settle_replay _ _).1 rfl⟩, fun run wrong => by cases wrong⟩
  | expired permit =>
    rw [silent rfl]
    refine ⟨⟨policy, .inr ⟨i, call, .clear (.denied "permit_deadline_exceeded"), ?_⟩⟩, fun run wrong => by cases wrong⟩
    exact (inFlight rfl).onward rfl (settle_replay _ _).1 rfl (append_nil sent).symm
  | clear outcome =>
    rw [silent rfl]
    exact ⟨⟨policy, .inl ((inFlight rfl).ended rfl (inFlight rfl).cleared)⟩, fun run wrong => by cases wrong⟩
  | returned value =>
    rw [silent rfl]
    exact ⟨⟨policy, aside rfl rfl rfl⟩, fun run wrong => by cases wrong⟩

theorem start_guarded (store : Inner) : Guarded calls operation endpoint store (start store calls) [] := by
  refine ⟨rfl, .inl ⟨?_, .inl rfl⟩⟩
  intro j other found
  obtain ⟨call, -, same⟩ := mem_map.mp (mem_of_getElem? found)
  subst same
  rfl

theorem ran_append (past : List ((Nat × DispatchResult) × Option (Nat × DispatchResult))) (turn : Nat × DispatchResult)
    (output : Option (Nat × DispatchResult)) : ran (past ++ [(turn, output)]) = ran past ++ output.toList := by
  unfold ran
  rw [filterMap_append]
  cases output <;> rfl

end Guard

/-- However any number of calls of one operation interleave, as long as each records its dispatch in a
state in which its check would still pass: a closure runs only after every earlier run was refused
before sending, or ended unknown under the key this call presents. -/
theorem one_dispatch (store : Inner) (calls : List DispatchCall) (operation : LogicalOperationId) (endpoint : String)
    (alike : Alike store calls operation endpoint) (turns : List (Nat × DispatchResult))
    (again : Throughout (step calls) (fun gate turn => rechecked calls gate turn = true)
      (start store calls) turns) :
    (ran (trace (step calls) (start store calls) turns)).Pairwise (MayFollow calls) := by
  let once (past : List ((Nat × DispatchResult) × Option (Nat × DispatchResult))) (gate : Gate) : Prop :=
    Guarded calls operation endpoint store gate ((ran past).filter Sent) ∧ (ran past).Pairwise (MayFollow calls)
  have preserved : ∀ past gate turn, once past gate → rechecked calls gate turn = true →
      once (past ++ [(turn, (gate.step calls turn).2)]) (gate.step calls turn).1 := by
    intro past gate turn ⟨guarded, pairs⟩ here
    obtain ⟨next, reconciles⟩ := guarded.step alike here
    refine ⟨?_, ?_⟩
    · rw [ran_append, filter_append]
      exact next
    · rw [ran_append]
      refine pairwise_append.mpr ⟨pairs, ?_, ?_⟩
      · cases (gate.step calls turn).2 with
        | none => exact List.Pairwise.nil
        | some run => exact pairwise_singleton _ _
      · intro earlier before later now
        by_cases sent : Sent earlier = true
        · exact Or.inr (reconciles later (Option.mem_toList.mp now) earlier (mem_filter.mpr ⟨before, sent⟩))
        · left
          simpa [Sent] using sent
  exact (history_throughout preserved ⟨start_guarded store, List.Pairwise.nil⟩ again).2

def sampleCall (class' : SideEffectClass) (now : UInt64) : DispatchCall :=
  { req := { sampleRequest with operationDigest := some "op", originalKey := some "k", sideEffectClass := class' }, now }

def sampleOperation : LogicalOperationId := ⟨"op", .warrant "w", "p", ""⟩

theorem sampleCalls_alike (class' : SideEffectClass) :
    Alike (Inner.new {}) [sampleCall class' 5, sampleCall class' 9] sampleOperation "e" := by
  refine ⟨?_, ?_⟩
  · intro call member
    simp only [mem_cons, not_mem_nil, or_false] at member
    rcases member with same | same <;> subst same <;> exact ⟨_, rfl, rfl, rfl, rfl⟩
  · intro a first b second _
    simp only [mem_cons, not_mem_nil, or_false] at first second
    rcases first with same | same <;> rcases second with same' | same' <;> subst same <;> subst same' <;>
      simp only [sampleCall] <;> decide

/-- The first call ends unknown, and the second reconciles it. -/
def oneThenOther : List (Nat × DispatchResult) :=
  List.replicate 6 (0, .failedAfterSend) ++ List.replicate 6 (1, .executed 3)

theorem one_dispatch_sample :
    (ran (trace (step [sampleCall .idempotentWithKey 5, sampleCall .idempotentWithKey 9])
      (start (Inner.new {}) [sampleCall .idempotentWithKey 5, sampleCall .idempotentWithKey 9])
      oneThenOther)).Pairwise (MayFollow [sampleCall .idempotentWithKey 5, sampleCall .idempotentWithKey 9]) := by
  apply one_dispatch (Inner.new {}) _ sampleOperation "e" (sampleCalls_alike .idempotentWithKey)
  simp only [oneThenOther, List.replicate, cons_append, nil_append, Throughout]
  decide +kernel

/-- Both calls check before either records. -/
def sideBySide : List (Nat × DispatchResult) :=
  [0, 1, 0, 1, 0, 1, 0, 1].map fun i => (i, .executed 3)

/-- Two calls of one side-effectful operation, 4 ms apart, both dispatch it. -/
theorem both_dispatch :
    Alike (Inner.new {}) [sampleCall .sideEffectful 5, sampleCall .sideEffectful 9] sampleOperation "e" ∧
      ¬ (ran (trace (step [sampleCall .sideEffectful 5, sampleCall .sideEffectful 9])
        (start (Inner.new {}) [sampleCall .sideEffectful 5, sampleCall .sideEffectful 9]) sideBySide)).Pairwise
          (MayFollow [sampleCall .sideEffectful 5, sampleCall .sideEffectful 9]) := by
  have both : ran (trace (step [sampleCall .sideEffectful 5, sampleCall .sideEffectful 9])
      (start (Inner.new {}) [sampleCall .sideEffectful 5, sampleCall .sideEffectful 9]) sideBySide) =
      [(0, .executed 3), (1, .executed 3)] := by
    decide +kernel
  refine ⟨sampleCalls_alike .sideEffectful, ?_⟩
  rw [both]
  intro pairs
  rcases (pairwise_cons.mp pairs).1 _ mem_cons_self with refused | ⟨failed, -⟩
  · cases refused
  · cases failed

end FerroLoop.Governor

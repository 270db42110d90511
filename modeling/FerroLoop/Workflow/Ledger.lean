import FerroLoop.Workflow.Approval
import FerroLoop.Lib.Word

namespace FerroLoop.Workflow

open Checked Machine List

structure Counters where
  visits : UInt32
  attempts : UInt32
  tokens : UInt64
  cost : UInt64
  deriving DecidableEq

def StepInstance.counters (step : StepInstance) : Counters :=
  ⟨step.visitCount, step.attemptCount, step.tokensUsed, step.costUsdMicros⟩

def countersOf (run : WorkflowRun) (stepId : String) : Option Counters :=
  run.steps[stepId]?.map StepInstance.counters

/-! ### Executions that end with an offer or a parked step -/

def readStep (flow : WorkflowDef) (env : Env) (world : World) (options : StepExecutionOptions) :
    Except Halt (Option (String × StepDef × StepInstance × String)) := do
  env.call world .getWorkflowRun
  env.call world .getWorkflowDef
  refuse world (refuseIf (world.run.status ≠ .running) (.runNotRunning world.run.status))
  let stepId ← refuse world (chooseStep flow world.run options.stepId)
  let stepDef ← refuse world (findStepDef flow stepId)
  env.call world .listAgents
  let step ← refuse world (findInstance world.run stepId)
  match ← refuse world (resolveAgent flow env world.run stepId step options.adapterOverride) with
  | none => .ok none
  | some (step, agent) =>
    env.call world .buildStepInstruction
    .ok (some (stepId, stepDef, step, agent))

theorem beginWorkflowStep_eq (flow : WorkflowDef) (env : Env) (world : World) (options : StepExecutionOptions) :
    beginWorkflowStep flow env world options = readStep flow env world options >>= fun
      | none => .ok (world, .awaitingAssignment)
      | some (stepId, stepDef, step, agent) =>
        if options.offerOnly then offerStep env world stepId agent step
        else match preflightCeiling flow world.run stepId with
          | some detail => do
            env.call world .getFreshRun
            env.call world .updateWorkflowRun
            .error ⟨.workflow (.budgetExhausted stepId detail), parkStep env world stepId detail⟩
          | none => startAttempt flow env world stepDef stepId agent step options.adapterOverride := by
  unfold beginWorkflowStep readStep
  simp only [bind_assoc]
  refine bind_congr fun _ => bind_congr fun _ => bind_congr fun _ => bind_congr fun _ => bind_congr fun _ => ?_
  refine bind_congr fun _ => bind_congr fun _ => bind_congr fun resolved => ?_
  rcases resolved with _ | found
  · rfl
  rw [bind_assoc]
  rfl

inductive Pending where
  | offer (stepId : String) (step : StepInstance)
  | park (stepId detail : String)

/-- What was committed to a run: reports, the sign-offs that come before theirs, and the visits of
steps that began. -/
inductive Entry where
  | reported (report : StepAttemptReport)
  | approved (stepId : String)
  | rejected (stepId : String) (maxAttempts : UInt32)
  | visited (stepId : String)

structure Books where
  world : World
  pending : List Pending := []
  log : List Entry := []

inductive Act where
  | command (env : Env) (given : Command)
  | depart (env : Env) (options : StepExecutionOptions)
  | settle (env : Env) (pending : Nat)

def begun (before after : WorkflowRun) : List Entry :=
  (after.steps.keys.filter fun stepId => visitsOf before stepId != visitsOf after stepId).map .visited

def committed (flow : WorkflowDef) (world : World) : Command → List Entry
  | .assign .. | .begin _ => []
  | .finish flight attemptId outcome =>
    match world.inFlight[flight]?, outcome with
    | some flying, some outcome =>
      match flow.findStep flying.stepId with
      | some stepDef => [.reported (attemptReport flying stepDef attemptId outcome)]
      | none => []
    | _, _ => []
  | .approve stepId _ note _ => [.approved stepId, .reported (signOffReport .approve stepId note)]
  | .reject stepId _ reason _ =>
    match flow.findStep stepId with
    | some stepDef => [.rejected stepId stepDef.maxAttempts, .reported (signOffReport .reject stepId (some reason))]
    | none => []

def commitPending (env : Env) (world : World) : Pending → World
  | .offer stepId step => commitStepSnapshot world stepId step env.now
  | .park stepId detail => parkStep env world stepId detail

namespace Books

def step (flow : WorkflowDef) (s : Books) : Act → Books × Reply
  | .command env given =>
    let (world, reply) := Workflow.command flow s.world (env, given)
    match committed flow s.world given, reply with
    | first :: rest, .done => ({ s with world, log := s.log ++ (first :: rest ++ begun s.world.run world.run) }, reply)
    | _, _ => ({ s with world }, reply)
  | .depart env options =>
    match readStep flow env s.world options with
    | .error halt => ({ s with world := halt.world }, .failed halt.error)
    | .ok none => (s, .acted .awaitingAssignment)
    | .ok (some (stepId, _, step, agent)) =>
      if options.offerOnly then
        if env.fails .sendWire then (s, .failed (.store .sendWire))
        else ({ s with pending := s.pending ++ [.offer stepId { step with state := .doing }] }, .acted (.offered agent))
      else
        match preflightCeiling flow s.world.run stepId with
        | some detail => ({ s with pending := s.pending ++ [.park stepId detail] }, .idle)
        | none => (s, .idle)
  | .settle env i =>
    match s.pending[i]? with
    | none => (s, .idle)
    | some pending =>
      if env.fails .getFreshRun ∨ env.fails .updateWorkflowRun then
        ({ s with pending := s.pending.eraseIdx i }, .failed (.store .updateWorkflowRun))
      else ({ s with world := commitPending env s.world pending, pending := s.pending.eraseIdx i }, .done)

end Books

def Entry.report : Entry → Option StepAttemptReport
  | .reported report => some report
  | .approved _ | .rejected .. | .visited _ => none

def reports (log : List Entry) : List StepAttemptReport := log.filterMap Entry.report

def reportsOf (stepId : String) (log : List Entry) : List StepAttemptReport :=
  (reports log).filter (·.stepId == stepId)

section

variable (reports : List StepAttemptReport)

def tokensOf : Nat := (reports.map (·.tokensUsed.toNat)).sum

def costOf : Nat := (reports.map (·.costUsdMicros.toNat)).sum

/-- The attempts of a step after one more entry. An approval counts as one at least, a rejection as
all the attempts the step may have. -/
def attemptsAfter (stepId : String) (attempts : UInt32) : Entry → UInt32
  | .reported report => if report.stepId = stepId ∧ report.attemptIri.isSome then attempts + 1 else attempts
  | .approved signed => if signed = stepId then max attempts 1 else attempts
  | .rejected signed maxAttempts => if signed = stepId then max maxAttempts 1 else attempts
  | .visited opened => if opened = stepId then 0 else attempts

def attemptsOf (stepId : String) (log : List Entry) : UInt32 := log.foldl (attemptsAfter stepId) 0

def executedOf : UInt32 :=
  reports.foldl (fun n report => if report.attemptIri.isSome then n + 1 else n) 0

end

/-- A sum that stays at the most a `u64` holds. -/
def saturated (n : Nat) : Nat := min n (2 ^ 64 - 1)

structure TotalsAccounted (s : Books) : Prop where
  tokens : s.world.run.totalTokens.toNat = saturated (tokensOf (reports s.log))
  cost : s.world.run.totalCostUsdMicros.toNat = saturated (costOf (reports s.log))
  executed : s.world.run.totalStepsExecuted = executedOf (reports s.log)

structure StepAccounted (log : List Entry) (stepId : String) (c : Counters) : Prop where
  tokens : c.tokens.toNat = saturated (tokensOf (reportsOf stepId log))
  cost : c.cost.toNat = saturated (costOf (reportsOf stepId log))
  attempts : c.attempts = attemptsOf stepId log

def StepsAccounted (s : Books) : Prop :=
  ∀ (stepId : String) (c : Counters), countersOf s.world.run stepId = some c → StepAccounted s.log stepId c

def Books.current (flow : WorkflowDef) (s : Books) : Act → Bool
  | .command env (.finish flight attemptId outcome) =>
    match s.world.inFlight[flight]? with
    | some flying =>
      (Workflow.command flow s.world (env, .finish flight attemptId outcome)).2 != .done ||
        countersOf s.world.run flying.stepId == some flying.step.counters
    | none => true
  | .settle _ i =>
    match s.pending[i]? with
    | some (.offer stepId step) => countersOf s.world.run stepId == some step.counters
    | _ => true
  | _ => true

theorem toNat_saturatingAdd (a b : UInt64) : (saturatingAdd a b).toNat = saturated (a.toNat + b.toNat) :=
  Word.toNat_satAdd a b

theorem saturated_add (n m : Nat) : saturated (saturated n + m) = saturated (n + m) := by
  unfold saturated
  omega

theorem tokensOf_append (first second : List StepAttemptReport) :
    tokensOf (first ++ second) = tokensOf first + tokensOf second := by
  unfold tokensOf
  rw [map_append, sum_append]

theorem costOf_append (first second : List StepAttemptReport) :
    costOf (first ++ second) = costOf first + costOf second := by
  unfold costOf
  rw [map_append, sum_append]

theorem reports_append (first second : List Entry) : reports (first ++ second) = reports first ++ reports second :=
  filterMap_append

theorem reportsOf_append (stepId : String) (first second : List Entry) :
    reportsOf stepId (first ++ second) = reportsOf stepId first ++ reportsOf stepId second := by
  unfold reportsOf
  rw [reports_append, filter_append]

theorem attemptsOf_append (stepId : String) (first second : List Entry) :
    attemptsOf stepId (first ++ second) = second.foldl (attemptsAfter stepId) (attemptsOf stepId first) :=
  foldl_append

theorem reports_visited (opened : List String) : reports (opened.map Entry.visited) = [] := by
  induction opened with
  | nil => rfl
  | cons first rest ih => exact ih

theorem attempts_visited (stepId : String) (opened : List String) (n : UInt32) :
    (opened.map Entry.visited).foldl (attemptsAfter stepId) n = if stepId ∈ opened then 0 else n := by
  induction opened generalizing n with
  | nil => rfl
  | cons first rest ih =>
    rw [map_cons, foldl_cons, ih]
    show (if stepId ∈ rest then 0 else if first = stepId then 0 else n) = _
    by_cases same : first = stepId
    · rw [if_pos same, if_pos (mem_cons.mpr (.inl same.symm))]
      split <;> rfl
    have others : stepId ∈ first :: rest ↔ stepId ∈ rest := by
      rw [mem_cons]
      exact ⟨fun either => either.resolve_left fun here => same here.symm, .inr⟩
    simp only [others, same, if_false]

def Counters.visit (c : Counters) : Counters := { c with visits := c.visits + 1, attempts := 0 }

def Moves (before after : Option Counters) : Prop := after = before ∨ after = before.map Counters.visit

def totals (run : WorkflowRun) : UInt64 × UInt64 × UInt32 := (run.totalTokens, run.totalCostUsdMicros, run.totalStepsExecuted)

variable {stepId : String} {before after : WorkflowRun} {c : Counters}

theorem countersOf_written {written : StepInstance}
    (inserted : ∀ other : String, after.steps[other]? = if stepId = other then some written else before.steps[other]?)
    (other : String) : countersOf after other = if stepId = other then some written.counters else countersOf before other := by
  unfold countersOf
  rw [inserted]
  split <;> rfl

section Reports

variable {flow : WorkflowDef} {run : WorkflowRun} {stepDef : StepDef} {step : StepInstance} {report : StepAttemptReport}
  {at_ : At}

theorem visited_counters (stepId : String) (step : StepInstance) :
    (visited flow stepId step).counters = step.counters ∨ (visited flow stepId step).counters = step.counters.visit := by
  unfold visited
  split
  · right
    unfold visitedStep
    split <;> rfl
  · exact .inl rfl

variable {opened : List String}

theorem openAll_moves (distinct : opened.Nodup) (stepId : String) :
    Moves (countersOf run stepId) (countersOf (openAll flow run opened) stepId) := by
  unfold countersOf
  rw [openAll_steps distinct]
  split
  · rcases run.steps[stepId]? with _ | step
    · exact .inl rfl
    rcases @visited_counters flow stepId step with same | visit
    · exact .inl (congrArg some same)
    · exact .inr (congrArg some visit)
  · exact .inl rfl

theorem openStep_totals (target : String) : totals (openStep flow run target) = totals run := by
  unfold openStep
  split <;> rfl

theorem openAll_totals (opened : List String) : totals (openAll flow run opened) = totals run := by
  induction opened generalizing run with
  | nil => rfl
  | cons target rest ih =>
    rw [openAll, foldl_cons, ← openAll, ih]
    exact openStep_totals target

theorem complete_countersOf (run : WorkflowRun) (stepId : String) : countersOf (complete run) stepId = countersOf run stepId := by
  unfold countersOf
  rw [complete_steps]

theorem complete_totals (run : WorkflowRun) : totals (complete run) = totals run := by
  unfold complete
  split <;> rfl

variable {outcome : StepOutcome}

theorem arrive_moves (distinct : opened.Nodup) (reporter stepId : String) :
    Moves (countersOf run stepId) (countersOf (arrive flow reporter outcome run opened) stepId) := by
  unfold arrive
  dsimp only
  split
  · split <;> exact .inl rfl
  split
  · rw [complete_countersOf]
    exact openAll_moves distinct stepId
  · exact openAll_moves distinct stepId

theorem arrive_totals (reporter : String) :
    totals (arrive flow reporter outcome run opened) = totals run := by
  unfold arrive
  dsimp only
  split
  · split <;> rfl
  split
  · rw [complete_totals]
    exact openAll_totals opened
  · exact openAll_totals opened

theorem exit_moves (stepId : String) :
    Moves (if report.stepId = stepId then some (chargeStep step report).counters else countersOf run stepId)
      (countersOf (exit flow run stepDef step report at_) stepId) := by
  unfold exit
  cases routeOf flow run stepDef step report at_ with
  | hold reason => exact .inl (countersOf_written (hold_steps reason) stepId)
  | retry => exact .inl (countersOf_written (retry_steps report.reason) stepId)
  | leave outcome =>
    have gone : countersOf (left run step report at_ outcome) stepId =
        if report.stepId = stepId then some (chargeStep step report).counters else countersOf run stepId :=
      countersOf_written left_steps stepId
    rw [← gone]
    exact arrive_moves (opened_openable report.stepId outcome).distinct report.stepId stepId

theorem exit_totals : totals (exit flow run stepDef step report at_) = totals (charge run step report at_) := by
  unfold exit
  cases routeOf flow run stepDef step report at_ with
  | hold reason => rfl
  | retry => rfl
  | leave outcome =>
    rw [arrive_totals]
    unfold left leave refreshStatus
    split <;> rfl

end Reports

variable {run : WorkflowRun}

theorem visitsOf_eq (held : countersOf run stepId = some c) :
    visitsOf run stepId = c.visits := by
  unfold countersOf at held
  unfold visitsOf
  rcases found : run.steps[stepId]? with _ | step
  · rw [found] at held
    cases held
  rw [found] at held
  cases held
  rfl

theorem countersOf_mem_keys (held : countersOf run stepId = some c) :
    stepId ∈ run.steps.keys := by
  unfold countersOf at held
  cases found : run.steps[stepId]? with
  | none =>
    rw [found] at held
    cases held
  | some step =>
    rw [Std.ExtTreeMap.mem_keys, Std.ExtTreeMap.mem_iff_isSome_getElem?, found]
    rfl

variable {c' : Counters}

theorem begun_attempts
    (was : countersOf before stepId = some c) (is : countersOf after stepId = some c') (n : UInt32) :
    (begun before after).foldl (attemptsAfter stepId) n = if c.visits = c'.visits then n else 0 := by
  unfold begun
  rw [attempts_visited]
  have member : stepId ∈ (after.steps.keys.filter fun other => visitsOf before other != visitsOf after other) ↔
      ¬ c.visits = c'.visits := by
    rw [mem_filter, visitsOf_eq was, visitsOf_eq is, bne_iff_ne]
    exact ⟨And.right, fun differ => ⟨countersOf_mem_keys is, differ⟩⟩
  by_cases same : c.visits = c'.visits
  · rw [if_pos same, if_neg (fun inside => member.mp inside same)]
  · rw [if_neg same, if_pos (member.mpr same)]

theorem UInt32.add_one_ne (n : UInt32) : n ≠ n + 1 := by
  intro same
  have numbers := congrArg UInt32.toNat same
  rw [UInt32.toNat_add] at numbers
  have one : (1 : UInt32).toNat = 1 := rfl
  omega

theorem Moves.some {before : Option Counters} (moves : Moves before (some c')) :
    ∃ c, before = some c ∧ (c' = c ∨ c' = c.visit) := by
  cases before with
  | none =>
    rcases moves with same | same
    · cases same
    · cases same
  | some c =>
    refine ⟨c, rfl, ?_⟩
    rcases moves with same | same
    · exact .inl (Option.some.inj same)
    · exact .inr (Option.some.inj same)

structure Preamble (stepId : String) (entries : List Entry) : Prop where
  silent : reports entries = []
  apart : ∀ other, stepId ≠ other → ∀ n, entries.foldl (attemptsAfter other) n = n

variable {pre : List Entry} {report : StepAttemptReport}

theorem reportsOf_committed {other : String}
    (preamble : Preamble stepId pre) :
    reportsOf other (pre ++ [.reported report] ++ begun before after) = if report.stepId = other then [report] else [] := by
  unfold reportsOf
  rw [reports_append, reports_append, preamble.silent]
  unfold begun
  rw [reports_visited, append_nil, nil_append]
  show List.filter _ [report] = _
  rw [filter_cons, filter_nil]
  simp only [beq_iff_eq]

theorem steps_committed {log : List Entry} {copy : StepInstance}
    (accounted : ∀ (stepId : String) (d : Counters), countersOf before stepId = some d → StepAccounted log stepId d)
    (stored : countersOf before report.stepId = some c) (preamble : Preamble report.stepId pre)
    (copied : copy.counters = { c with attempts := pre.foldl (attemptsAfter report.stepId) c.attempts })
    (resolves : resolvesSignOff copy report = report.attemptIri.isNone)
    (moves : ∀ stepId, Moves (if report.stepId = stepId then some (chargeStep copy report).counters else countersOf before stepId)
      (countersOf after stepId)) :
    ∀ (stepId : String) (d : Counters), countersOf after stepId = some d →
      StepAccounted (log ++ (pre ++ [.reported report] ++ begun before after)) stepId d := by
  intro stepId d held
  have moved := moves stepId
  rw [held] at moved
  obtain ⟨e, base, either⟩ := moved.some
  by_cases same : report.stepId = stepId
  · subst same
    rw [if_pos rfl] at base
    cases base
    have here := accounted report.stepId c stored
    have tokens : (chargeStep copy report).counters.tokens = saturatingAdd c.tokens report.tokensUsed := by
      have field := congrArg Counters.tokens copied
      exact congrArg (fun t => saturatingAdd t report.tokensUsed) field
    have cost : (chargeStep copy report).counters.cost = saturatingAdd c.cost report.costUsdMicros := by
      have field := congrArg Counters.cost copied
      exact congrArg (fun t => saturatingAdd t report.costUsdMicros) field
    have visits : (chargeStep copy report).counters.visits = c.visits := by
      have field : copy.visitCount = c.visits := congrArg Counters.visits copied
      exact field
    have attempts : (chargeStep copy report).counters.attempts =
        (pre ++ [Entry.reported report]).foldl (attemptsAfter report.stepId) (attemptsOf report.stepId log) := by
      have field : copy.attemptCount = pre.foldl (attemptsAfter report.stepId) c.attempts := congrArg Counters.attempts copied
      rw [foldl_append, ← here.attempts, ← field]
      show (if resolvesSignOff copy report then copy.attemptCount else copy.attemptCount + 1) = _
      rw [resolves]
      show _ = if report.stepId = report.stepId ∧ report.attemptIri.isSome then copy.attemptCount + 1 else copy.attemptCount
      cases report.attemptIri <;> simp
    have carried : d.tokens = (chargeStep copy report).counters.tokens ∧ d.cost = (chargeStep copy report).counters.cost := by
      rcases either with rfl | rfl <;> exact ⟨rfl, rfl⟩
    refine ⟨?_, ?_, ?_⟩
    · rw [carried.1, tokens, toNat_saturatingAdd, here.tokens, saturated_add, reportsOf_append, reportsOf_committed preamble,
        if_pos rfl, tokensOf_append]
      rfl
    · rw [carried.2, cost, toNat_saturatingAdd, here.cost, saturated_add, reportsOf_append, reportsOf_committed preamble,
        if_pos rfl, costOf_append]
      rfl
    rw [attemptsOf_append, foldl_append, ← attempts, begun_attempts stored held]
    rcases either with rfl | rfl
    · rw [if_pos visits.symm]
    have later : ¬ c.visits = (chargeStep copy report).counters.visit.visits := by
      rw [← visits]
      exact UInt32.add_one_ne _
    rw [if_neg later]
    rfl
  · rw [if_neg same] at base
    have here := accounted stepId e base
    have carried : d.tokens = e.tokens ∧ d.cost = e.cost := by
      rcases either with rfl | rfl <;> exact ⟨rfl, rfl⟩
    have unchanged : (pre ++ [Entry.reported report]).foldl (attemptsAfter stepId) (attemptsOf stepId log) = attemptsOf stepId log := by
      rw [foldl_append, preamble.apart stepId same]
      show (if report.stepId = stepId ∧ _ then _ else _) = _
      rw [if_neg fun both => same both.1]
    refine ⟨?_, ?_, ?_⟩
    · rw [carried.1, here.tokens, reportsOf_append, reportsOf_committed preamble, if_neg same, append_nil]
    · rw [carried.2, here.cost, reportsOf_append, reportsOf_committed preamble, if_neg same, append_nil]
    rw [attemptsOf_append, foldl_append, unchanged, begun_attempts base held]
    rcases either with rfl | rfl
    · rw [if_pos rfl]
      exact here.attempts
    · have later : ¬ e.visits = e.visit.visits := UInt32.add_one_ne e.visits
      rw [if_neg later]
      rfl

end FerroLoop.Workflow

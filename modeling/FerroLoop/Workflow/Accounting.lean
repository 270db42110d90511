import FerroLoop.Workflow.Ledger

namespace FerroLoop.Workflow

open Checked Machine Map Sample Workflow List

structure Balanced (world next : World) : Prop where
  counters : ∀ stepId, countersOf next.run stepId = countersOf world.run stepId
  totals : totals next.run = totals world.run

variable {world next : World}

theorem Frame.balanced (frame : Frame world next) : Balanced world next := by
  constructor
  · intro stepId
    rw [frame.run]
  · rw [frame.run]

variable {stepId : String}

theorem balanced_written {written : StepInstance}
    (inserted : ∀ other : String, next.run.steps[other]? = if stepId = other then some written else world.run.steps[other]?)
    (stored : countersOf world.run stepId = some written.counters) (same : totals next.run = totals world.run) :
    Balanced world next := by
  refine ⟨fun other => ?_, same⟩
  rw [countersOf_written inserted]
  split
  · rename_i here
    rw [← here, stored]
  · rfl

theorem countersOf_held {run : WorkflowRun} {step : StepInstance} (held : run.steps[stepId]? = some step) :
    countersOf run stepId = some step.counters := by
  unfold countersOf
  rw [held]
  rfl

theorem parkStep_balanced (env : Env) (world : World) (stepId detail : String) :
    Balanced world (parkStep env world stepId detail) := by
  unfold parkStep
  split
  · exact (Frame.refl world).balanced
  split
  · rename_i step held
    have kept : countersOf world.run stepId = some (heldStep step (some detail)).counters := (countersOf_held held).trans rfl
    exact balanced_written (fun other => getElem?_insert _ _ _ _) kept rfl
  · exact ⟨fun _ => rfl, rfl⟩

theorem resolveAgent_counters {flow : WorkflowDef} {env : Env} {run : WorkflowRun} {agent : String}
    {step working : StepInstance} {adapter : Option String}
    (resolved : resolveAgent flow env run stepId step adapter = .ok (some (working, agent))) :
    working.counters = step.counters := by
  unfold resolveAgent at resolved
  split at resolved
  · obtain ⟨_, _, resolved⟩ := bind_ok resolved
    cases resolved
    rfl
  obtain ⟨selected, _, resolved⟩ := bind_ok resolved
  cases selected with
  | none => cases resolved
  | some selected =>
    cases resolved
    rfl

section

variable (flow : WorkflowDef) (env : Env)

include flow env

theorem readStep_ends (world : World) (options : StepExecutionOptions) :
    Ends (fun halt => Balanced world halt.world) (readStep flow env world options) fun read =>
      ∀ stepId stepDef step agent, read = some (stepId, stepDef, step, agent) →
        countersOf world.run stepId = some step.counters := by
  have here := (Frame.refl world).balanced
  refine ends_call here (ends_call here (ends_refuse here fun _ _ => ends_refuse here fun stepId _ => ?_))
  refine ends_refuse here fun stepDef _ => ends_call here (ends_refuse here fun step held => ?_)
  refine ends_refuse here fun resolved chosen => ?_
  split
  · intro _ _ _ _ wrong
    cases wrong
  rename_i working agent
  refine ends_call here ?_
  intro _ _ _ _ same
  cases same
  rw [countersOf_held (findInstance_ok held), resolveAgent_counters chosen]

theorem begin_balanced (world : World) (options : StepExecutionOptions) :
    Ends (fun halt => Balanced world halt.world) (beginWorkflowStep flow env world options)
      fun begun => Balanced world begun.1 := by
  have here := (Frame.refl world).balanced
  rw [beginWorkflowStep_eq]
  refine Ends.bind (readStep_ends flow env world options) ?_
  intro read copied
  split
  · exact here
  rename_i stepId stepDef step agent
  have stored := copied stepId stepDef step agent rfl
  split
  · refine ends_call here (ends_call here (ends_call here ?_))
    have kept : countersOf world.run stepId = some ({ step with state := .doing } : StepInstance).counters := stored
    exact balanced_written (fun other => getElem?_insert _ _ _ _) kept rfl
  · split
    · exact ends_call here (ends_call here (parkStep_balanced env world stepId _))
    · exact startAttempt_ends (·.balanced) (fun _ frame => ⟨frame.balanced.counters, frame.balanced.totals⟩) _ _ _ _ _

theorem assign_balanced (world : World) (stepId agent : String) (adapter : Option String) (author : String) :
    Ends (fun halt => Balanced world halt.world) (assignWorkflowStep flow env world stepId agent adapter author)
      fun next => Balanced world next := by
  refine (assign_ends flow env world stepId agent adapter author).both (fun _ frame => frame.balanced) ?_
  rintro next ⟨step, found, held, _, same⟩
  subst same
  have kept : countersOf world.run stepId = some (assignedTo step found.nameKey adapter).counters :=
    (countersOf_held held).trans rfl
  exact balanced_written (fun other => getElem?_insert _ _ _ _) kept rfl

end

structure Commits (flow : WorkflowDef) (run next : WorkflowRun) (pre : List Entry) (report : StepAttemptReport)
    (copy : StepInstance) : Prop where
  preamble : Preamble report.stepId pre
  resolves : resolvesSignOff copy report = report.attemptIri.isNone
  moves : ∀ stepId, Moves (if report.stepId = stepId then some (chargeStep copy report).counters else countersOf run stepId)
    (countersOf next stepId)
  totals : ∃ at_, totals next = totals (charge run copy report at_)

variable {next : WorkflowRun} {pre : List Entry} {report : StepAttemptReport} {copy : StepInstance}

theorem commits_of_advance {flow : WorkflowDef} {run done : WorkflowRun}
    {at_ : At} (formed : WellFormed flow) (placed : Placed flow run) (preamble : Preamble report.stepId pre)
    (resolves : resolvesSignOff copy report = report.attemptIri.isNone)
    (advanced : advanceWorkflow flow { run with steps := run.steps.insert report.stepId copy } report at_ = .ok next)
    (steps : done.steps = next.steps) (same : totals done = totals next) : Commits flow run done pre report copy := by
  generalize written : ({ run with steps := run.steps.insert report.stepId copy } : WorkflowRun) = waiting at advanced
  have inserted : ∀ other : String, waiting.steps[other]? = if report.stepId = other then some copy else run.steps[other]? := by
    intro other
    rw [← written]
    exact getElem?_insert _ _ _ _
  obtain ⟨stepDef, step, accepts, left⟩ := advanceWorkflow_exit formed (covers_written placed.covers inserted) advanced
  have itself : step = copy := by
    have held := accepts.held
    rw [inserted, if_pos rfl] at held
    exact (Option.some.inj held).symm
  subst itself
  refine ⟨preamble, resolves, fun stepId => ?_, at_, ?_⟩
  · have moved : Moves (if report.stepId = stepId then some (chargeStep step report).counters else countersOf waiting stepId)
        (countersOf (exit flow waiting stepDef step report at_) stepId) := exit_moves stepId
    have result : countersOf done stepId = countersOf (exit flow waiting stepDef step report at_) stepId := by
      unfold countersOf
      rw [steps, left]
    rw [result]
    by_cases here : report.stepId = stepId
    · rw [if_pos here] at moved ⊢
      exact moved
    have other : countersOf waiting stepId = countersOf run stepId := by
      rw [countersOf_written inserted, if_neg here]
    rw [if_neg here, other] at moved
    rw [if_neg here]
    exact moved
  · rw [same, left, exit_totals, ← written]
    rfl

theorem Commits.tallies {flow : WorkflowDef} {run : WorkflowRun} {log : List Entry}
    (commits : Commits flow run next pre report copy)
    (tokens : run.totalTokens.toNat = saturated (tokensOf (reports log)))
    (cost : run.totalCostUsdMicros.toNat = saturated (costOf (reports log)))
    (executed : run.totalStepsExecuted = executedOf (reports log)) :
    next.totalTokens.toNat = saturated (tokensOf (reports (log ++ (pre ++ [.reported report] ++ begun run next)))) ∧
      next.totalCostUsdMicros.toNat = saturated (costOf (reports (log ++ (pre ++ [.reported report] ++ begun run next)))) ∧
      next.totalStepsExecuted = executedOf (reports (log ++ (pre ++ [.reported report] ++ begun run next))) := by
  have all : reports (log ++ (pre ++ [.reported report] ++ begun run next)) = reports log ++ [report] := by
    rw [reports_append, reports_append, reports_append, commits.preamble.silent]
    unfold begun
    rw [reports_visited, append_nil]
    rfl
  obtain ⟨at_, same⟩ := commits.totals
  have first : next.totalTokens = saturatingAdd run.totalTokens report.tokensUsed := congrArg Prod.fst same
  have second : next.totalCostUsdMicros = saturatingAdd run.totalCostUsdMicros report.costUsdMicros :=
    congrArg (fun t => t.2.1) same
  have third : next.totalStepsExecuted =
      if resolvesSignOff copy report then run.totalStepsExecuted else run.totalStepsExecuted + 1 := congrArg (fun t => t.2.2) same
  rw [all]
  refine ⟨?_, ?_, ?_⟩
  · rw [first, toNat_saturatingAdd, tokens, saturated_add, tokensOf_append]
    rfl
  · rw [second, toNat_saturatingAdd, cost, saturated_add, costOf_append]
    rfl
  rw [third, commits.resolves, executed]
  unfold executedOf
  rw [foldl_append]
  show _ = if report.attemptIri.isSome then _ else _
  cases report.attemptIri <;> rfl

theorem preamble_nil (stepId : String) : Preamble stepId [] := ⟨rfl, fun _ _ _ => rfl⟩

def Verdict.entry (verdict : Verdict) (stepId : String) (maxAttempts : UInt32) : Entry :=
  match verdict with
  | .approve => .approved stepId
  | .reject => .rejected stepId maxAttempts

theorem preamble_signOff (verdict : Verdict) (stepId : String) (maxAttempts : UInt32) :
    Preamble stepId [verdict.entry stepId maxAttempts] := by
  cases verdict with
  | approve | reject => exact ⟨rfl, fun other apart n => if_neg apart⟩

section

variable (verdict : Verdict) (stepDef : StepDef) (step : StepInstance) (recordId : RecordId) (stepId : String)

theorem signOff_resolves (reason : Option String) :
    resolvesSignOff (verdict.waiting stepDef step recordId) (signOffReport verdict stepId reason) = true := by
  have attempts : 0 < (verdict.waiting stepDef step recordId).attemptCount := by
    cases verdict with
    | approve => exact max_one_pos step.attemptCount
    | reject => exact max_one_pos stepDef.maxAttempts
  unfold resolvesSignOff
  rw [decide_eq_true attempts]
  rfl

theorem signOff_counters : (verdict.waiting stepDef step recordId).counters = { step.counters with
        attempts := [verdict.entry stepId stepDef.maxAttempts].foldl (attemptsAfter stepId) step.counters.attempts } := by
  cases verdict with
  | approve | reject =>
    show _ = ({ step.counters with attempts := if stepId = stepId then _ else _ } : Counters)
    rw [if_pos rfl]
    rfl

end

section Commands

variable {flow : WorkflowDef} {env : Env} {world : World}

theorem signOff_commits (formed : WellFormed flow) (placed : Placed flow world.run) (verdict : Verdict) (stepId author : String)
    (reason : Option String) (ownerLogin : String) :
    Ends (fun halt => Balanced world halt.world) (signOff flow env world verdict stepId author reason ownerLogin) fun next =>
      ∃ stepDef step recordId, flow.findStep stepId = some stepDef ∧ countersOf world.run stepId = some step.counters ∧
        Commits flow world.run next.run [verdict.entry stepId stepDef.maxAttempts] (signOffReport verdict stepId reason)
          (Verdict.waiting verdict stepDef step recordId) := by
  refine (signOff_ends flow env world verdict stepId author reason ownerLogin).both (fun _ frame => frame.balanced) ?_
  rintro next ⟨stepDef, step, recordId, run, found, _, held, _, advanced, signed, _⟩
  refine ⟨stepDef, step, recordId, found, countersOf_held held, ?_⟩
  refine commits_of_advance formed placed (preamble_signOff verdict stepId stepDef.maxAttempts)
    (signOff_resolves verdict stepDef step recordId stepId reason) advanced ?_ ?_
  · rw [signed]
  · rw [signed]
    rfl

theorem commitAttempt_commits (formed : WellFormed flow) (placed : Placed flow world.run) (flight : Flight) (stepDef : StepDef)
    (attemptId : Iri) (outcome : AttemptOutcome) :
    Ends (fun halt => Balanced world halt.world) (commitAttempt flow env world flight stepDef attemptId outcome) fun next =>
      Commits flow world.run next.run [] (attemptReport flight stepDef attemptId outcome) flight.step := by
  refine (commitAttempt_ends flow env world flight stepDef attemptId outcome).both (fun _ frame => frame.balanced) ?_
  rintro next ⟨_, _, advanced⟩
  have counted : resolvesSignOff flight.step (attemptReport flight stepDef attemptId outcome) = false := by
    unfold resolvesSignOff
    have named : (attemptReport flight stepDef attemptId outcome).attemptIri.isNone = false := rfl
    rw [named]
    simp
  exact commits_of_advance formed placed (preamble_nil _) counted advanced rfl rfl

end Commands

variable {author : String}

namespace Books

variable {flow : WorkflowDef} {s : Books}

/-- Nothing is committed: the log and the totals stay, and so do the steps' counters if a copy that is
put back is current. -/
structure Quiet (flow : WorkflowDef) (s : Books) (act : Act) : Prop where
  log : (s.step flow act).1.log = s.log
  totals : totals (s.step flow act).1.world.run = totals s.world.run
  counters : s.current flow act = true → ∀ stepId,
    countersOf (s.step flow act).1.world.run stepId = countersOf s.world.run stepId

structure Committing (flow : WorkflowDef) (s : Books) (act : Act) (pre : List Entry) (report : StepAttemptReport)
    (copy : StepInstance) : Prop where
  log : (s.step flow act).1.log = s.log ++ (pre ++ [.reported report] ++ begun s.world.run (s.step flow act).1.world.run)
  commits : Commits flow s.world.run (s.step flow act).1.world.run pre report copy
  copied : s.current flow act = true → ∃ c, countersOf s.world.run report.stepId = some c ∧
    copy.counters = { c with attempts := pre.foldl (attemptsAfter report.stepId) c.attempts }

variable {given : Command}

theorem quiet_command {env : Env} (silent : committed flow s.world given = [] ∨
      (command flow s.world (env, given)).2 ≠ .done)
    (balanced : Balanced s.world (command flow s.world (env, given)).1) : Quiet flow s (.command env given) := by
  have same : (s.step flow (.command env given)).1 = { s with world := (command flow s.world (env, given)).1 } := by
    unfold step
    dsimp only
    rcases entries : committed flow s.world given with _ | ⟨first, rest⟩
    · rfl
    cases reply : (command flow s.world (env, given)).2 with
    | done =>
      rcases silent with none | other
      · rw [entries] at none
        cases none
      · exact absurd reply other
    | acted action => rfl
    | failed error => rfl
    | idle => rfl
  refine ⟨?_, ?_, fun _ stepId => ?_⟩
  · rw [same]
  · rw [same]
    exact balanced.totals
  · rw [same]
    exact balanced.counters stepId

theorem step_done {env : Env} {first : Entry} {rest : List Entry}
    (entries : committed flow s.world given = first :: rest)
    (done : (command flow s.world (env, given)).2 = .done) :
    (s.step flow (.command env given)).1.world = (command flow s.world (env, given)).1 ∧
      (s.step flow (.command env given)).1.log =
        s.log ++ (first :: rest ++ begun s.world.run (command flow s.world (env, given)).1.run) := by
  unfold step
  dsimp only
  rw [entries, done]
  exact ⟨rfl, rfl⟩

theorem quiet_depart (env : Env) (options : StepExecutionOptions) : Quiet flow s (.depart env options) := by
  have read := readStep_ends flow env s.world options
  have still : (s.step flow (.depart env options)).1.log = s.log ∧
      Balanced s.world (s.step flow (.depart env options)).1.world := by
    have here := (Frame.refl s.world).balanced
    unfold step
    dsimp only
    rcases result : readStep flow env s.world options with halt | found
    · rw [result] at read
      exact ⟨rfl, read⟩
    rcases found with _ | chosen
    · exact ⟨rfl, here⟩
    obtain ⟨stepId, stepDef, step, agent⟩ := chosen
    dsimp only
    split
    · split <;> exact ⟨rfl, here⟩
    · cases preflightCeiling flow s.world.run stepId <;> exact ⟨rfl, here⟩
  exact ⟨still.1, still.2.totals, fun _ => still.2.counters⟩

theorem quiet_settle (env : Env) (i : Nat) : Quiet flow s (.settle env i) := by
  cases waiting : s.pending[i]? with
  | none =>
    have same : (s.step flow (.settle env i)).1 = s := by
      unfold step
      dsimp only
      rw [waiting]
    exact ⟨by rw [same], by rw [same], fun _ _ => by rw [same]⟩
  | some pending =>
    by_cases refused : env.fails .getFreshRun = true ∨ env.fails .updateWorkflowRun = true
    · have same : (s.step flow (.settle env i)).1 = { s with pending := s.pending.eraseIdx i } := by
        unfold step
        dsimp only
        rw [waiting]
        dsimp only
        rw [if_pos refused]
      exact ⟨by rw [same], by rw [same], fun _ _ => by rw [same]⟩
    · have same : (s.step flow (.settle env i)).1 =
          { s with world := commitPending env s.world pending, pending := s.pending.eraseIdx i } := by
        unfold step
        dsimp only
        rw [waiting]
        dsimp only
        rw [if_neg refused]
      cases pending with
      | park stepId detail =>
        have parked := parkStep_balanced env s.world stepId detail
        exact ⟨by rw [same], by rw [same]; exact parked.totals, fun _ other => by rw [same]; exact parked.counters other⟩
      | offer stepId copy =>
        refine ⟨by rw [same], by rw [same]; rfl, fun isCurrent => ?_⟩
        unfold current at isCurrent
        dsimp only at isCurrent
        rw [waiting] at isCurrent
        have stored : countersOf s.world.run stepId = some copy.counters := by simpa using isCurrent
        rw [same]
        have balanced : Balanced s.world (commitStepSnapshot s.world stepId copy env.now) :=
          balanced_written (fun other => getElem?_insert _ _ _ _) stored rfl
        exact balanced.counters

section

variable (formed : WellFormed flow) (placed : Placed flow s.world.run)

include formed placed

theorem signOff_step {env : Env} {verdict : Verdict} {ownerLogin : String} {reason : Option String}
    (runs : command flow s.world (env, given) =
      answer (fun world => (world, .done)) (signOff flow env s.world verdict stepId author reason ownerLogin))
    (writes : ∀ stepDef, flow.findStep stepId = some stepDef → committed flow s.world given =
      [verdict.entry stepId stepDef.maxAttempts, .reported (signOffReport verdict stepId reason)]) :
    Quiet flow s (.command env given) ∨ ∃ pre report copy, Committing flow s (.command env given) pre report copy := by
  have ends := @signOff_commits flow env s.world formed placed verdict stepId author reason ownerLogin
  cases result : signOff flow env s.world verdict stepId author reason ownerLogin with
  | error halt =>
    rw [result] at ends runs
    refine .inl (quiet_command (.inr ?_) ?_)
    · rw [runs]
      intro wrong
      cases wrong
    · rw [runs]
      exact ends
  | ok next =>
    rw [result] at ends runs
    obtain ⟨stepDef, step, recordId, found, stored, commits⟩ := ends
    have done : (command flow s.world (env, given)).2 = .done := by
      rw [runs]
      rfl
    obtain ⟨world, log⟩ := step_done (writes stepDef found) done
    have result : (command flow s.world (env, given)).1 = next := by
      rw [runs]
      rfl
    rw [result] at world log
    refine .inr ⟨[verdict.entry stepId stepDef.maxAttempts], signOffReport verdict stepId reason,
      verdict.waiting stepDef step recordId, ?_, ?_, fun _ => ⟨step.counters, stored, ?_⟩⟩
    · rw [world]
      exact log
    · rw [world]
      exact commits
    · exact signOff_counters verdict stepDef step recordId stepId

theorem finish_step (env : Env) (flight : Nat) (attemptId : Iri) (outcome : Option AttemptOutcome) :
    Quiet flow s (.command env (.finish flight attemptId outcome)) ∨
      ∃ pre report copy, Committing flow s (.command env (.finish flight attemptId outcome)) pre report copy := by
  cases flies : s.world.inFlight[flight]? with
  | none =>
    have runs : command flow s.world (env, .finish flight attemptId outcome) = (s.world, .idle) := by
      unfold command
      dsimp only
      rw [flies]
    refine .inl (quiet_command (.inr ?_) ?_)
    · rw [runs]
      intro wrong
      cases wrong
    · rw [runs]
      exact (Frame.refl s.world).balanced
  | some flying =>
    have runs : command flow s.world (env, .finish flight attemptId outcome) =
        answer (fun world => (world, .done)) (finishWorkflowStep flow env
          { s.world with inFlight := s.world.inFlight.eraseIdx flight } flying attemptId outcome) := by
      unfold command
      dsimp only
      rw [flies]
    have fails : finishWorkflowStep flow env { s.world with inFlight := s.world.inFlight.eraseIdx flight } flying attemptId
          outcome = .error ⟨.attempt, { s.world with inFlight := s.world.inFlight.eraseIdx flight }⟩ →
        Quiet flow s (.command env (.finish flight attemptId outcome)) := by
      intro stops
      rw [stops] at runs
      refine quiet_command (.inr ?_) ?_
      · rw [runs]
        intro wrong
        cases wrong
      · rw [runs]
        exact ⟨fun _ => rfl, rfl⟩
    cases found : flow.findStep flying.stepId with
    | none =>
      refine .inl (fails ?_)
      unfold finishWorkflowStep
      rw [found]
    | some stepDef =>
      cases outcome with
      | none =>
        refine .inl (fails ?_)
        unfold finishWorkflowStep
        rw [found]
      | some ended =>
        generalize launched : ({ s.world with
          inFlight := s.world.inFlight.eraseIdx flight,
          executions := s.world.executions ++ [{ stepId := flying.stepId, agent := flying.agent }] } : World) = ran
        have sameRun : ran.run = s.world.run := by rw [← launched]
        have ends := @commitAttempt_commits flow env ran formed (by rw [sameRun]; exact placed) flying stepDef attemptId ended
        have unfolds : finishWorkflowStep flow env { s.world with inFlight := s.world.inFlight.eraseIdx flight } flying attemptId
            (some ended) = commitAttempt flow env ran flying stepDef attemptId ended := by
          unfold finishWorkflowStep
          rw [found, ← launched]
        have writes : committed flow s.world (.finish flight attemptId (some ended)) =
            [.reported (attemptReport flying stepDef attemptId ended)] := by
          unfold committed
          dsimp only
          rw [flies]
          dsimp only
          rw [found]
        rw [unfolds] at runs
        cases result : commitAttempt flow env ran flying stepDef attemptId ended with
        | error halt =>
          rw [result] at ends runs
          have kept : Balanced ran halt.world := ends
          refine .inl (quiet_command (.inr ?_) ?_)
          · rw [runs]
            intro wrong
            cases wrong
          rw [runs]
          refine ⟨fun stepId => ?_, ?_⟩
          · rw [← sameRun]
            exact kept.counters stepId
          · rw [← sameRun]
            exact kept.totals
        | ok next =>
          rw [result] at ends runs
          have commits : Commits flow ran.run next.run [] (attemptReport flying stepDef attemptId ended) flying.step := ends
          rw [sameRun] at commits
          have done : (command flow s.world (env, .finish flight attemptId (some ended))).2 = .done := by
            rw [runs]
            rfl
          obtain ⟨world, log⟩ := step_done writes done
          have after : (command flow s.world (env, .finish flight attemptId (some ended))).1 = next := by
            rw [runs]
            rfl
          rw [after] at world log
          refine .inr ⟨[], attemptReport flying stepDef attemptId ended, flying.step, ?_, ?_, fun isCurrent => ?_⟩
          · rw [world]
            exact log
          · rw [world]
            exact commits
          unfold current at isCurrent
          dsimp only at isCurrent
          rw [flies] at isCurrent
          rw [done] at isCurrent
          have stored : countersOf s.world.run flying.stepId = some flying.step.counters := by simpa using isCurrent
          exact ⟨flying.step.counters, stored, rfl⟩

theorem step_cases (act : Act) : Quiet flow s act ∨ ∃ pre report copy, Committing flow s act pre report copy := by
  cases act with
  | depart env options => exact .inl (quiet_depart env options)
  | settle env i => exact .inl (quiet_settle env i)
  | command env given =>
    cases given with
    | assign stepId agent adapter author =>
      exact .inl (quiet_command (.inl rfl) (answer_ends (Balanced s.world)
        (assign_balanced flow env s.world stepId agent adapter author)))
    | begin options =>
      exact .inl (quiet_command (.inl rfl) (answer_ends (Balanced s.world) (begin_balanced flow env s.world options)))
    | finish flight attemptId outcome => exact finish_step formed placed env flight attemptId outcome
    | approve stepId author note ownerLogin => exact signOff_step formed placed rfl fun _ _ => rfl
    | reject stepId author reason ownerLogin =>
      refine signOff_step formed placed rfl fun stepDef found => ?_
      unfold committed
      dsimp only
      rw [found]
      rfl

end

theorem settle_placed (placed : Placed flow s.world.run) (env : Env) (i : Nat) :
    Placed flow (s.step flow (.settle env i)).1.world.run := by
  unfold step
  dsimp only
  split
  · exact placed
  split
  · exact placed
  rename_i pending _ _
  cases pending with
  | park stepId detail => exact (parkStep_rewrites stepId detail).placed placed
  | offer stepId copy =>
    have rewrites : Rewrites s.world (commitStepSnapshot s.world stepId copy env.now) :=
      rewrites_written rfl fun other => getElem?_insert _ _ _ _
    exact rewrites.placed placed

theorem readStep_frame (flow : WorkflowDef) (env : Env) (world : World) (options : StepExecutionOptions) :
    Ends (fun halt => Frame world halt.world) (readStep flow env world options) fun _ => True := by
  have here := Frame.refl world
  refine ends_call here (ends_call here (ends_refuse here fun _ _ => ends_refuse here fun stepId _ => ?_))
  refine ends_refuse here fun stepDef _ => ends_call here (ends_refuse here fun step held => ?_)
  refine ends_refuse here fun resolved chosen => ?_
  split
  · trivial
  · exact ends_call here trivial

theorem depart_placed (placed : Placed flow s.world.run) (env : Env) (options : StepExecutionOptions) :
    Placed flow (s.step flow (.depart env options)).1.world.run := by
  have frame := readStep_frame flow env s.world options
  unfold step
  dsimp only
  rcases result : readStep flow env s.world options with halt | found
  · rw [result] at frame
    exact (Frame.rewrites frame).placed placed
  rcases found with _ | chosen
  · exact placed
  obtain ⟨stepId, stepDef, step, agent⟩ := chosen
  dsimp only
  split
  · split <;> exact placed
  · cases preflightCeiling flow s.world.run stepId <;> exact placed

section

variable (formed : WellFormed flow) (placed : Placed flow s.world.run)

include formed placed

theorem step_placed (act : Act) : Placed flow (s.step flow act).1.world.run := by
  cases act with
  | depart env options => exact depart_placed placed env options
  | settle env i => exact settle_placed placed env i
  | command env given =>
    have kept := command_placed formed s.world (env, given) placed
    unfold step
    dsimp only
    split <;> exact kept

theorem step_totals (totals : TotalsAccounted s) (act : Act) : TotalsAccounted (s.step flow act).1 := by
  rcases step_cases formed placed act with quiet | ⟨pre, report, copy, committing⟩
  · have same := quiet.totals
    have tokens : (s.step flow act).1.world.run.totalTokens = s.world.run.totalTokens := congrArg Prod.fst same
    have cost : (s.step flow act).1.world.run.totalCostUsdMicros = s.world.run.totalCostUsdMicros :=
      congrArg (fun t => t.2.1) same
    have executed : (s.step flow act).1.world.run.totalStepsExecuted = s.world.run.totalStepsExecuted :=
      congrArg (fun t => t.2.2) same
    refine ⟨?_, ?_, ?_⟩
    · rw [tokens, quiet.log]
      exact totals.tokens
    · rw [cost, quiet.log]
      exact totals.cost
    · rw [executed, quiet.log]
      exact totals.executed
  · obtain ⟨tokens, cost, executed⟩ := committing.commits.tallies totals.tokens totals.cost totals.executed
    refine ⟨?_, ?_, ?_⟩
    · rw [committing.log]
      exact tokens
    · rw [committing.log]
      exact cost
    · rw [committing.log]
      exact executed

theorem step_steps (steps : StepsAccounted s) (act : Act)
    (isCurrent : s.current flow act = true) : StepsAccounted (s.step flow act).1 := by
  intro stepId c held
  rcases step_cases formed placed act with quiet | ⟨pre, report, copy, committing⟩
  · rw [quiet.log]
    rw [quiet.counters isCurrent] at held
    exact steps stepId c held
  obtain ⟨d, stored, copied⟩ := committing.copied isCurrent
  rw [committing.log]
  exact steps_committed steps stored committing.commits.preamble copied committing.commits.resolves
    committing.commits.moves stepId c held

end

end Books

theorem new_totals {id : WorkflowRunId} {flow : WorkflowDef} {title : String} {at_ : At} {start : WorkflowRun}
    (made : WorkflowRun.new id flow title at_ author = .ok start) : TotalsAccounted ⟨startedWorld start, [], []⟩ := by
  obtain ⟨_, _, made⟩ := bind_ok made
  obtain ⟨_, _, made⟩ := bind_ok made
  cases made
  exact ⟨rfl, rfl, rfl⟩

theorem started_accounted {flow : WorkflowDef} {run : WorkflowRun} (started : Started flow run) :
    StepsAccounted ⟨startedWorld run, [], []⟩ := by
  intro stepId c held
  unfold countersOf at held
  have steps : (startedWorld run).run.steps = newSteps flow := started.steps
  rw [steps] at held
  rcases found : (newSteps flow)[stepId]? with _ | step
  · rw [found] at held
    cases held
  obtain ⟨stepDef, same⟩ := (newSteps_fresh flow).new stepId step found
  rw [found, same] at held
  cases held
  exact ⟨rfl, rfl, rfl⟩

/-! ### Commits of several processes -/

/-- A run about to be put back, with what its commit adds to the log; `read` counts the commits that were put before
the run was got. -/
structure Put where
  read : Nat
  run : WorkflowRun
  entries : List Entry

/-- The lock on commits is one process's, so another process can put the run between the `get_workflow_run` and the
`update_workflow_run` of a commit. -/
structure Shared where
  books : Books
  puts : List Put := []
  written : Nat := 0

inductive Turn where
  | get (act : Act)
  | put (i : Nat)

def Put.land (put : Put) (books : Books) : Books :=
  { books with world := { books.world with run := put.run }, log := books.log ++ put.entries }

namespace Shared

/-- A call that ends before its `update_workflow_run` leaves its put out. -/
def step (flow : WorkflowDef) (s : Shared) : Turn → Shared × Reply
  | .get act =>
    let (after, reply) := s.books.step flow act
    ({ s with
        books := { after with world := { after.world with run := s.books.world.run }, log := s.books.log }
        puts := s.puts ++ [⟨s.written, after.world.run, after.log.drop s.books.log.length⟩] }, reply)
  | .put i =>
    match s.puts[i]? with
    | none => (s, .idle)
    | some put => ({ books := put.land s.books, puts := s.puts.eraseIdx i, written := s.written + 1 }, .done)

/-- Nothing was put since the commit got the run. -/
def unmoved (s : Shared) : Turn → Bool
  | .get _ => true
  | .put i => (s.puts[i]?).all fun put => put.read == s.written

def current (flow : WorkflowDef) (s : Shared) : Turn → Bool
  | .get act => s.books.current flow act
  | .put _ => true

end Shared

theorem TotalsAccounted.same {s t : Books} (accounted : TotalsAccounted s) (run : t.world.run = s.world.run)
    (log : t.log = s.log) : TotalsAccounted t := by
  refine ⟨?_, ?_, ?_⟩
  · rw [run, log]
    exact accounted.tokens
  · rw [run, log]
    exact accounted.cost
  · rw [run, log]
    exact accounted.executed

theorem StepsAccounted.same {s t : Books} (accounted : StepsAccounted s) (run : t.world.run = s.world.run)
    (log : t.log = s.log) : StepsAccounted t := by
  intro stepId c held
  rw [run] at held
  rw [log]
  exact accounted stepId c held

namespace Shared

/-- A property of the run and its log that every commit keeps, as the puts carry it. -/
structure Kept (flow : WorkflowDef) (holds : Books → Prop) (s : Shared) : Prop where
  placed : Placed flow s.books.world.run
  held : holds s.books
  puts : ∀ put ∈ s.puts, Placed flow put.run ∧ put.read ≤ s.written ∧ (put.read = s.written → holds (put.land s.books))

variable {flow : WorkflowDef} {holds : Books → Prop} {s : Shared}

theorem grown (formed : WellFormed flow) (placed : Placed flow s.books.world.run) (act : Act) :
    s.books.log ++ (s.books.step flow act).1.log.drop s.books.log.length = (s.books.step flow act).1.log := by
  rcases Books.step_cases formed placed act with quiet | ⟨pre, report, copy, committing⟩
  · rw [quiet.log, drop_length, append_nil]
  · rw [committing.log, drop_left]

theorem step_kept (formed : WellFormed flow)
    (same : ∀ {s t : Books}, holds s → t.world.run = s.world.run → t.log = s.log → holds t) {turn : Turn}
    (keeps : ∀ act, turn = .get act → holds (s.books.step flow act).1)
    (kept : Kept flow holds s) (fresh : s.unmoved turn = true) : Kept flow holds (s.step flow turn).1 := by
  cases turn with
  | get act =>
    refine ⟨kept.placed, same kept.held rfl rfl, ?_⟩
    intro put member
    rcases mem_append.mp member with old | new
    · obtain ⟨placed, before, lands⟩ := kept.puts put old
      exact ⟨placed, before, fun current => same (lands current) rfl rfl⟩
    rw [mem_singleton.mp new]
    exact ⟨Books.step_placed formed kept.placed act, Nat.le_refl _,
      fun _ => same (keeps act rfl) rfl (grown formed kept.placed act)⟩
  | put i =>
    unfold step
    dsimp only
    cases found : s.puts[i]? with
    | none => exact kept
    | some put =>
      obtain ⟨placed, -, lands⟩ := kept.puts put (mem_of_getElem? found)
      unfold unmoved at fresh
      dsimp only at fresh
      rw [found] at fresh
      refine ⟨placed, lands (eq_of_beq fresh), ?_⟩
      intro other member
      obtain ⟨others, before, -⟩ := kept.puts other (mem_of_mem_eraseIdx member)
      -- No other put got the run after this one.
      exact ⟨others, Nat.le_succ_of_le before, fun now => absurd before (by rw [now]; exact Nat.not_succ_le_self _)⟩

end Shared

def sharedFrom (run : WorkflowRun) : Shared := ⟨⟨startedWorld run, [], []⟩, [], 0⟩

/-- However executions, offers, parked steps, assignments and sign-offs of any number of processes interleave, as long as
nothing is put between a commit's get and its put the totals of a run are the sums over all the reports committed to it;
and as long as each commit also puts back a copy with the counters of the stored step, every step's counters are the sums
over its own reports. -/
theorem accounting_kept {id : WorkflowRunId} {flow : WorkflowDef} {title author : String} {at_ : At} {start : WorkflowRun}
    (made : WorkflowRun.new id flow title at_ author = .ok start) (turns : List Turn)
    (alone : Throughout (Shared.step flow) (fun s turn => s.unmoved turn = true) (sharedFrom start) turns) :
    TotalsAccounted (run (Shared.step flow) (sharedFrom start) turns).books ∧
      (Throughout (Shared.step flow) (fun s turn => s.current flow turn = true) (sharedFrom start) turns →
        StepsAccounted (run (Shared.step flow) (sharedFrom start) turns).books) := by
  have started := new_started made
  have placed : Placed flow (startedWorld start).run := started.placed
  have none : ∀ holds : Books → Prop, ∀ put ∈ (sharedFrom start).puts, Placed flow put.run ∧ put.read ≤ (sharedFrom start).written ∧
      (put.read = (sharedFrom start).written → holds (put.land (sharedFrom start).books)) := by
    intro _ _ member
    cases member
  constructor
  · have kept : ∀ (past : List (Turn × Reply)) (s : Shared) (turn : Turn), Shared.Kept flow TotalsAccounted s →
        s.unmoved turn = true → Shared.Kept flow TotalsAccounted (s.step flow turn).1 := fun _ s turn kept fresh =>
      Shared.step_kept started.formed TotalsAccounted.same
        (fun act _ => Books.step_totals started.formed kept.placed kept.held act) kept fresh
    exact (history_throughout kept ⟨placed, new_totals made, none _⟩ alone).held
  · intro currents
    have both := Throughout.both alone currents
    have kept : ∀ (past : List (Turn × Reply)) (s : Shared) (turn : Turn), Shared.Kept flow StepsAccounted s →
        s.unmoved turn = true ∧ s.current flow turn = true → Shared.Kept flow StepsAccounted (s.step flow turn).1 := by
      rintro _ s turn kept ⟨fresh, current⟩
      refine Shared.step_kept started.formed StepsAccounted.same ?_ kept fresh
      rintro act rfl
      exact Books.step_steps started.formed kept.placed kept.held act current
    exact (history_throughout kept ⟨placed, started_accounted started, none _⟩ both).held

namespace Sample

def twice : WorkflowDef :=
  flow "write" [{ stepDef "write" .ungated .all with maxAttempts := 2 }] [edge "write" endStep .pass]

def refused : AttemptOutcome := { completed with completed := false, status := "failed" }

def begins : Act := .command env (.begin { stepId := none, adapterOverride := none, offerOnly := false })

/-- Two executions of the step, one after the other. -/
def inTurn : List Act :=
  [.command env (.assign "write" "felicia" none "owner"), begins, .command env (.finish 0 "urn:attempt:1" (some refused)),
    begins, .command env (.finish 0 "urn:attempt:2" (some completed))]

def patient : WorkflowDef :=
  flow "write" [{ stepDef "write" (.humanSignOff .labManager) .all with maxAttempts := 3 }] [edge "write" endStep .pass]

/-- Commits that do not overlap: each put follows its get. -/
def apart (acts : List Act) : List Turn := acts.flatMap fun act => [.get act, .put 0]

end Sample

theorem accounting_kept_sample :
    StepsAccounted (run (Shared.step twice) (sharedFrom (started twice)) (apart inTurn)).books := by
  have made : WorkflowRun.new "urn:run:1" twice "Run" "1970-01-01T00:00:00.000Z" "owner" =
      .ok (started twice) := rfl
  have alone : Throughout (Shared.step twice) (fun s turn => s.unmoved turn = true)
      (sharedFrom (started twice)) (apart inTurn) := by
    simp only [apart, inTurn, flatMap_cons, flatMap_nil, cons_append, nil_append, Throughout]
    decide +kernel
  refine (accounting_kept made (apart inTurn) alone).2 ?_
  simp only [apart, inTurn, flatMap_cons, flatMap_nil, cons_append, nil_append, Throughout]
  decide +kernel

/-- Two executions of one step that overlap: the second puts back the copy it read before the first
committed, and the step's tokens are those of the second alone. -/
example :
    let s := run (Books.step twice) ⟨startedWorld (started twice), [], []⟩
      [.command env (.assign "write" "felicia" none "owner"), begins, begins,
        .command env (.finish 0 "urn:attempt:1" (some refused)),
        .command env (.finish 0 "urn:attempt:2" (some refused))]
    (countersOf s.world.run "write").map Counters.tokens = some 2 ∧ tokensOf (reportsOf "write" s.log) = 4 := by
  decide +kernel

/-- A rejection sets the attempts of a step to all it may have: the step ran once, two reports were
committed for it, and it counts three attempts. -/
theorem rejection_counts_attempts :
    let s := run (Shared.step patient) (sharedFrom (started patient)) (apart
      [.command env (.assign "write" "ferris" none "owner"), begins,
        .command env (.finish 0 "urn:attempt:1" (some completed)),
        .command env (.reject "write" "felicia" "no" "owner")])
    (countersOf s.books.world.run "write").map Counters.attempts = some 3 ∧ (reportsOf "write" s.books.log).length = 2 ∧
      ((reportsOf "write" s.books.log).filter (·.attemptIri.isSome)).length = 1 := by
  decide +kernel

end FerroLoop.Workflow

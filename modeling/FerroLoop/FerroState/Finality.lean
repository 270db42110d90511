import FerroLoop.FerroState.Workflows
import FerroLoop.Workflow.Accounting

namespace FerroLoop.FerroState

open Machine Workflow

open Workflow (WorkflowDef WorkflowRun At Books Act)

inductive RunPhase where
  | idle
  | fetched (tip : Nat) (copy : Option WorkflowRun)
  /-- The branch's copy was newer than `own`, the store's run when the two were compared. -/
  | taking (tip : Nat) (copy : WorkflowRun) (own : Option WorkflowRun)
  | imported (tip : Nat) (copy : Option WorkflowRun)
  | collected (tip : Nat) (file : Option WorkflowRun)

/-- A run about to be put back, made of the run that was read. -/
structure RunPut where
  read : WorkflowRun
  next : WorkflowRun

structure Site where
  run : Option WorkflowRun
  records : BTreeMap Iri State
  decisions : List Decision
  executions : List Execution
  inFlight : List Flight
  pending : List Pending
  puts : List RunPut
  phase : RunPhase

namespace Site

def empty : Site := ⟨none, ∅, [], [], [], [], [], .idle⟩

def books (site : Site) (run : WorkflowRun) : Books where
  world := { run, records := site.records, decisions := site.decisions, executions := site.executions, inFlight := site.inFlight }
  pending := site.pending

/-- The store after the get of a commit: its `update_workflow_run` is still to come, and a call that ends before it
leaves its put out. -/
def got (site : Site) (run : WorkflowRun) (books : Books) : Site :=
  { site with
    records := books.world.records
    decisions := books.world.decisions
    executions := books.world.executions
    inFlight := books.world.inFlight
    pending := books.pending
    puts := site.puts ++ [⟨run, books.world.run⟩] }

def finished (site : Site) : Bool := site.run.any fun run => run.status.isTerminal

/-- The run was finished after a write had read it as `own`. -/
def finishedSince (site : Site) (own : Option WorkflowRun) : Bool :=
  site.finished && !own.any fun run => run.status.isTerminal

end Site

/-- `abort_workflow_run`: a finished run keeps the status it earned. -/
def abortWorkflowRun (run : WorkflowRun) (at_ : At) (author : String) : Except WorkflowError WorkflowRun :=
  match run.status with
  | .canceled => .ok run
  | .completed | .failed => .error (.runNotRunning run.status)
  | .running | .needsHuman => .ok { run with status := .canceled, activeSteps := [], updatedAt := at_, author }

structure RunWorld where
  sites : Nat → Site
  /-- The run's file in every commit. -/
  branch : List (Option WorkflowRun)

inductive RunAction where
  | start (site : Nat) (id : Iri) (flow : WorkflowDef) (title : String) (at_ : At) (author : String)
  | command (site : Nat) (flow : WorkflowDef) (act : Act)
  | abort (site : Nat) (at_ : At) (author : String)
  | put (site : Nat) (i : Nat)
  /-- The run's workflow gave way to another id. -/
  | retarget (site : Nat) (workflowId : Iri)
  | fetch (site : Nat)
  | compare (site : Nat)
  /-- The ids are those the store resolves the copy's to. -/
  | take (site : Nat) (project workflowId : Iri)
  | collect (site : Nat)
  | push (site : Nat)
  /-- Another part of the sync fails. -/
  | fail (site : Nat)

namespace RunWorld

def empty : RunWorld := ⟨fun _ => .empty, []⟩

def setSite (w : RunWorld) (i : Nat) (site : Site) : RunWorld := { w with sites := fun j => if j = i then site else w.sites j }

/-- What an action makes of the store it happens in, `branch` being the commits so far. -/
def act (branch : List (Option WorkflowRun)) (site : Site) : RunAction → Site
  | .start _ id flow title at_ author =>
    match site.run, WorkflowRun.new id flow title at_ author with
    | none, .ok run => { site with run := some run }
    | _, _ => site
  | .command _ flow act =>
    match site.run with
    | some run => site.got run ((site.books run).step flow act).1
    | none => site
  | .abort _ at_ author =>
    match site.run with
    | some run =>
      match abortWorkflowRun run at_ author with
      | .ok next => if run.status = .canceled then site else { site with puts := site.puts ++ [⟨run, next⟩] }
      | .error _ => site
    | none => site
  | .put _ i =>
    match site.puts[i]? with
    | some put => { site with run := some put.next, puts := site.puts.eraseIdx i }
    | none => site
  | .retarget _ workflowId => { site with run := site.run.map fun run => { run with workflowId } }
  | .fetch _ =>
    match site.phase with
    | .idle => { site with phase := .fetched branch.length branch.getLast?.join }
    | _ => site
  | .compare _ =>
    match site.phase with
    | .fetched tip none => { site with phase := .imported tip none }
    | .fetched tip (some copy) =>
      if site.run.all fun own => own ≠ copy ∧ newerRun copy own then { site with phase := .taking tip copy site.run }
      else { site with phase := .imported tip (some copy) }
    | _ => site
  | .take _ project workflowId =>
    match site.phase with
    | .taking tip copy _ => { site with run := some { copy with project, workflowId }, phase := .imported tip (some copy) }
    | _ => site
  | .collect _ =>
    match site.phase with
    | .imported tip copy => { site with phase := .collected tip (site.run <|> copy) }
    | _ => site
  | .push _ | .fail _ => { site with phase := .idle }

end RunWorld

def RunAction.site : RunAction → Nat
  | .start i _ _ _ _ _ | .command i _ _ | .abort i _ _ | .put i _ | .retarget i _ | .fetch i | .compare i | .take i _ _ | .collect i
  | .push i | .fail i => i

namespace RunWorld

def pushed (w : RunWorld) : RunAction → List (Option WorkflowRun)
  | .push i =>
    match (w.sites i).phase with
    | .collected tip file => if w.branch.length = tip then w.branch ++ [file] else w.branch
    | _ => w.branch
  | _ => w.branch

def step (w : RunWorld) (a : RunAction) : RunWorld × Unit :=
  ({ w.setSite a.site (act w.branch (w.sites a.site) a) with branch := w.pushed a }, ())

end RunWorld

theorem advanceWorkflow_final {flow : WorkflowDef} {run next : WorkflowRun} {report : StepAttemptReport} {at_ : At}
    (final : run.status.isTerminal = true) : advanceWorkflow flow run report at_ ≠ .ok next := by
  intro advanced
  unfold advanceWorkflow at advanced
  rw [if_pos final] at advanced
  cases advanced

def Final (world : Workflow.World) : Prop := world.run.status.isTerminal = true

variable (flow : WorkflowDef)

theorem begin_final (env : Env) (world : Workflow.World) (options : StepExecutionOptions)
    (final : Final world) :
    Checked.Ends (fun halt => Final halt.world) (beginWorkflowStep flow env world options) fun begun => Final begun.1 := by
  refine ends_call final (ends_call final (ends_refuse final fun _ running => ?_))
  have status := not_not.mp (Checked.refuseIf_ok running)
  unfold Final at final
  rw [status] at final
  cases final

theorem signOff_final (env : Env) (world : Workflow.World) (verdict : Verdict)
    (stepId author : String) (reason : Option String) (ownerLogin : String) (final : Final world) :
    Checked.Ends (fun halt => Final halt.world) (signOff flow env world verdict stepId author reason ownerLogin) Final := by
  refine (signOff_ends flow env world verdict stepId author reason ownerLogin).both ?_ ?_
  · intro halt frame
    unfold Final
    rw [frame.run]
    exact final
  · rintro next ⟨stepDef, step, recordId, run, _, _, _, _, advanced, _⟩
    exact absurd advanced (advanceWorkflow_final final)

theorem command_final (flow : WorkflowDef) (world : Workflow.World) (event : Env × Command) (final : Final world) :
    Final (command flow world event).1 := by
  obtain ⟨env, given⟩ := event
  cases given with
  | assign stepId agent adapter author =>
    refine answer_ends Final ((assign_ends flow env world stepId agent adapter author).both ?_ ?_)
    · intro halt frame
      unfold Final
      rw [frame.run]
      exact final
    · rintro next ⟨step, found, _, _, same⟩
      rw [same]
      exact final
  | begin options => exact answer_ends Final (begin_final flow env world options final)
  | finish flight attemptId outcome =>
    unfold command
    dsimp only
    split
    · rename_i flown _
      refine answer_ends Final ?_
      unfold finishWorkflowStep
      split
      · refine (commitAttempt_ends flow env _ flown _ attemptId _).both ?_ ?_
        · intro halt frame
          unfold Final
          rw [frame.run]
          exact final
        · rintro next ⟨_, _, advanced⟩
          exact absurd advanced (advanceWorkflow_final final)
      · exact final
    · exact final
  | approve stepId author note ownerLogin
  | reject stepId author reason ownerLogin => exact answer_ends Final (signOff_final flow env world _ _ _ _ _ final)

theorem act_final (flow : WorkflowDef) (s : Books) (act : Act) (final : Final s.world) : Final (s.step flow act).1.world := by
  cases act with
  | command env given =>
    have kept := command_final flow s.world (env, given) final
    unfold Books.step
    dsimp only
    split <;> exact kept
  | depart env options =>
    have read := Books.readStep_frame flow env s.world options
    unfold Books.step
    dsimp only
    split
    · rename_i halt result
      rw [result] at read
      have frame : Frame s.world halt.world := read
      unfold Final
      rw [frame.run]
      exact final
    · exact final
    · split
      · split <;> exact final
      · split <;> exact final
  | settle env i =>
    unfold Books.step
    dsimp only
    split
    · exact final
    split
    · exact final
    rename_i pending _ _
    cases pending with
    | offer stepId step => exact final
    | park stepId detail =>
      have parked : parkStep env s.world stepId detail = s.world := if_pos final
      show Final (parkStep env s.world stepId detail)
      rw [parked]
      exact final

theorem abort_final {run next : WorkflowRun} {at_ : At} {author : String} (final : run.status.isTerminal = true)
    (aborted : abortWorkflowRun run at_ author = .ok next) : next.status.isTerminal = true := by
  unfold abortWorkflowRun at aborted
  split at aborted
  · cases aborted
    exact final
  · cases aborted
  · cases aborted
  · cases aborted
    rfl
  · cases aborted
    rfl

/-- A sync compares an unfinished copy with the store's finished run and finds it newer by steps and time, or a write
lands on a run that was finished after the write read it, and unfinishes it. -/
def RunAction.reopens (w : RunWorld) : RunAction → Bool
  | .compare i =>
    match (w.sites i).phase, (w.sites i).run with
    | .fetched _ (some copy), some own => own.status.isTerminal && !copy.status.isTerminal && newerRun copy own
    | _, _ => false
  | .take i _ _ =>
    match (w.sites i).phase with
    | .taking _ copy own => !copy.status.isTerminal && (w.sites i).finishedSince own
    | _ => false
  | .put i k => ((w.sites i).puts[k]?).any fun put => !put.next.status.isTerminal && (w.sites i).finishedSince (some put.read)
  | _ => false

/-- What is about to be written over a finished run that was read is finished too. -/
structure Site.Sound (site : Site) : Prop where
  puts : ∀ put ∈ site.puts, put.read.status.isTerminal = true → put.next.status.isTerminal = true
  taking : ∀ tip copy own, site.phase = .taking tip copy (some own) → own.status.isTerminal = true →
    copy.status.isTerminal = true

section Steps

variable {w : RunWorld} {a : RunAction}

theorem step_site (w : RunWorld) (a : RunAction) (i : Nat) :
    (w.step a).1.sites i = if i = a.site then RunWorld.act w.branch (w.sites a.site) a else w.sites i := rfl

theorem act_sound (sound : (w.sites a.site).Sound) (keeps : a.reopens w = false) :
    (RunWorld.act w.branch (w.sites a.site) a).Sound := by
  unfold RunWorld.act
  cases a with
  | start j id flow title at_ author =>
    dsimp only
    split
    · exact ⟨sound.puts, sound.taking⟩
    · exact sound
  | command j flow act =>
    dsimp only
    split
    · refine ⟨?_, sound.taking⟩
      intro put member final
      rcases List.mem_append.mp member with old | new
      · exact sound.puts put old final
      rw [List.mem_singleton.mp new] at final ⊢
      exact act_final flow _ act final
    · exact sound
  | abort j at_ author =>
    dsimp only
    split
    · split
      · rename_i run _ next aborted
        split
        · exact sound
        refine ⟨?_, sound.taking⟩
        intro put member final
        rcases List.mem_append.mp member with old | new
        · exact sound.puts put old final
        rw [List.mem_singleton.mp new] at final ⊢
        exact abort_final final aborted
      · exact sound
    · exact sound
  | put j k =>
    dsimp only
    split
    · exact ⟨fun put member => sound.puts put (List.mem_of_mem_eraseIdx member), sound.taking⟩
    · exact sound
  | retarget j workflowId => exact ⟨sound.puts, sound.taking⟩
  | fetch j =>
    dsimp only
    split
    · exact ⟨sound.puts, by rintro _ _ _ ⟨⟩⟩
    · exact sound
  | compare j =>
    dsimp only
    split
    · exact ⟨sound.puts, by rintro _ _ _ ⟨⟩⟩
    · rename_i tip copy phase
      split
      · rename_i newer
        refine ⟨sound.puts, ?_⟩
        intro _ _ own same final
        obtain ⟨rfl, rfl, stored⟩ := RunPhase.taking.inj same
        change (w.sites j).phase = _ at phase
        change (w.sites j).run = _ at stored
        unfold RunAction.reopens at keeps
        dsimp only at keeps
        rw [phase, stored] at keeps
        change (w.sites j).run.all _ = true at newer
        rw [stored] at newer
        have ahead : own ≠ copy ∧ newerRun copy own = true := of_decide_eq_true newer
        simpa [final, ahead.2] using keeps
      · exact ⟨sound.puts, by rintro _ _ _ ⟨⟩⟩
    · exact sound
  | take j project workflowId | collect j =>
    dsimp only
    split
    · exact ⟨sound.puts, by rintro _ _ _ ⟨⟩⟩
    · exact sound
  | push j | fail j => exact ⟨sound.puts, by rintro _ _ _ ⟨⟩⟩

/-- A write that lands on a finished run is finished: it was if the run was when it was read, and else the run was
finished since. -/
theorem lands_finished {site : Site} {own : Option WorkflowRun} {next : WorkflowRun} (finished : site.finished = true)
    (reads : ∀ run, own = some run → run.status.isTerminal = true → next.status.isTerminal = true)
    (keeps : (!next.status.isTerminal && site.finishedSince own) = false) : next.status.isTerminal = true := by
  cases final : next.status.isTerminal with
  | true => rfl
  | false =>
    unfold Site.finishedSince at keeps
    rw [final, finished] at keeps
    rcases own with _ | run
    · cases keeps
    have was : run.status.isTerminal = true := by simpa using keeps
    exact final.symm.trans (reads run rfl was)

theorem act_finished (sound : (w.sites a.site).Sound) (keeps : a.reopens w = false)
    (finished : (w.sites a.site).finished = true) : (RunWorld.act w.branch (w.sites a.site) a).finished = true := by
  unfold RunWorld.act
  cases a with
  | start j id flow title at_ author =>
    dsimp only
    split
    · rename_i absent _
      change (w.sites j).run = none at absent
      change (w.sites j).run.any _ = true at finished
      rw [absent] at finished
      cases finished
    · exact finished
  | command j flow act =>
    dsimp only
    split <;> exact finished
  | abort j at_ author =>
    dsimp only
    split
    · split
      · split <;> exact finished
      · exact finished
    · exact finished
  | put j k =>
    dsimp only
    split
    · rename_i put found
      change (w.sites j).puts[k]? = some put at found
      unfold RunAction.reopens at keeps
      dsimp only at keeps
      rw [found] at keeps
      refine lands_finished finished ?_ keeps
      rintro run ⟨⟩ final
      exact sound.puts put (List.mem_of_getElem? found) final
    · exact finished
  | retarget j workflowId =>
    change (w.sites j).run.any _ = true at finished
    show ((w.sites j).run.map _).any _ = true
    rw [Option.any_map]
    exact finished
  | fetch j =>
    dsimp only
    split <;> exact finished
  | compare j =>
    dsimp only
    split
    · exact finished
    · split <;> exact finished
    · exact finished
  | take j project workflowId =>
    dsimp only
    split
    · rename_i tip copy own phase
      change (w.sites j).phase = _ at phase
      unfold RunAction.reopens at keeps
      dsimp only at keeps
      rw [phase] at keeps
      have lands : copy.status.isTerminal = true := by
        refine lands_finished finished ?_ keeps
        rintro run rfl final
        exact sound.taking tip copy run phase final
      exact lands
    · exact finished
  | collect j =>
    dsimp only
    split <;> exact finished
  | push j | fail j => exact finished

end Steps

/-- In every run in which no sync finds an unfinished copy newer by steps and time than a finished run, and no write
unfinishes a run that was finished after the write read it, a store's finished run stays finished from each moment to each
later one. -/
theorem finished_stays (actions : List RunAction)
    (calm : Throughout RunWorld.step (fun w a => a.reopens w = false) .empty actions) :
    ∀ i first second, first ++ second <+: actions → ((run RunWorld.step .empty first).sites i).finished = true →
      ((run RunWorld.step .empty (first ++ second)).sites i).finished = true := by
  have kept : ∀ (w : RunWorld) (a : RunAction), (∀ i, (w.sites i).Sound) → a.reopens w = false →
      ∀ i, ((w.step a).1.sites i).Sound := by
    intro w a sound keeps i
    rw [step_site]
    split
    · exact act_sound (sound a.site) keeps
    · exact sound i
  have stays : ∀ (w : RunWorld) (a : RunAction), (∀ i, (w.sites i).Sound) → a.reopens w = false →
      ∀ i, (w.sites i).finished = true → ((w.step a).1.sites i).finished = true := by
    intro w a sound keeps i finished
    rw [step_site]
    split
    · rename_i here
      rw [here] at finished
      exact act_finished (sound a.site) keeps finished
    · exact finished
  have start : ∀ i, (RunWorld.empty.sites i).Sound := fun _ => ⟨by rintro _ ⟨⟩, by rintro _ _ _ ⟨⟩⟩
  exact stays_iff.mpr (calm.mono kept stays start)

def twoSteps : WorkflowDef :=
  Sample.flow "plan" [Sample.stepDef "plan" .ungated .all, Sample.stepDef "write" .ungated .all]
    [Sample.edge "plan" "write" .pass, Sample.edge "write" endStep .pass]

/-- A sync that finds the branch's copy older than the store's, or none. -/
def publishes (i : Nat) : List RunAction := [.fetch i, .compare i, .collect i, .push i]

def takes (i : Nat) : List RunAction := [.fetch i, .compare i, .take i "urn:project:1" "urn:workflow:1", .collect i, .push i]

def abortedRun : List RunAction :=
  [.start 0 "urn:run:1" twoSteps "Run" "1970-01-01T00:00:00.000Z" "owner"] ++ publishes 0 ++ takes 1 ++
    [.abort 0 "1970-01-01T00:00:01.000Z" "owner", .put 0 0]

def resumedRun : List RunAction :=
  [.command 1 twoSteps (.command Sample.env (.assign "plan" "felicia" none "owner")), .put 1 0,
    .command 1 twoSteps (.command Sample.env (.begin ⟨none, none, false⟩)),
    .command 1 twoSteps (.command Sample.env (.finish 0 "urn:attempt:1" (some Sample.completed))), .put 1 1] ++
    publishes 1 ++ takes 0

/-- The other store takes the aborted run, and the first one finds nothing newer. -/
theorem finished_stays_sample :
    ((run RunWorld.step .empty (abortedRun ++ (publishes 0 ++ takes 1 ++ publishes 0))).sites 0).finished = true := by
  refine finished_stays (abortedRun ++ (publishes 0 ++ takes 1 ++ publishes 0)) ?_ 0 abortedRun _ (List.prefix_refl _) ?_
  · simp only [abortedRun, publishes, takes, List.cons_append, List.nil_append, Throughout]
    decide +kernel
  · decide +kernel

/-- The aborted run is running again. -/
theorem abortedRun_resumes :
    ((run RunWorld.step .empty abortedRun).sites 0).run.map (·.status) = some .canceled ∧
      ((run RunWorld.step .empty (abortedRun ++ resumedRun)).sites 0).run.map (·.status) = some .running := by
  decide +kernel

end FerroLoop.FerroState

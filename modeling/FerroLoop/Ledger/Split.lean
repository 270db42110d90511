import FerroLoop.Lib.Checked
import FerroLoop.Lib.Map

/-!
Mode B's ledger: `SplitLedger` of `crates/core/src/split.rs` over the local store's half of publishing
(`crates/store/src/ferrostore/traits_catalog.rs`, `doc.rs`) and a shared ledger that appends a batch in one
commit, adds no entry whose id it already holds, and may fail or lose its answer
(`conformance::MemRemote`).
-/

namespace FerroLoop.Ledger

open Std

abbrev Iri := String

structure GateRun where
  id : Option Iri
  gate : Iri
  record : Option Iri
  deriving DecidableEq

structure Attempt where
  id : Option Iri
  project : Iri
  record : Iri
  deriving DecidableEq

structure Decision where
  id : Iri
  record : Iri
  restsOn : List Iri
  deriving DecidableEq

inductive StoreError where
  | notOwned (id : Iri)
  | restsOnLocalEntry (decision entry : Iri)
  | cutoverChanged (repo : String) (held found : Iri)
  | missingRow (id : Iri)
  | unreachable
  | backend
  deriving DecidableEq

def GateRun.entry (run : GateRun) : Option (Iri × Iri) :=
  match run.id, run.record with
  | some id, some record => some (id, record)
  | _, _ => none

def Attempt.entry (attempt : Attempt) : Option (Iri × Iri) :=
  attempt.id.map fun id => (id, attempt.record)

structure Log (α : Type) where
  rows : List α
  candidates : ExtTreeMap Iri Nat compare

def Log.empty {α : Type} : Log α := ⟨[], ∅⟩

/-- `append_log`. -/
def Log.append {α : Type} (log : Log α) (value : α) (candidate : Option Iri) : Log α where
  rows := log.rows ++ [value]
  candidates :=
    match candidate with
    | some id => log.candidates.insert id (log.rows.length + 1)
    | none => log.candidates

/-- `doc::waiting`: the rows of the candidates after the cut-over that are not published, in id order. -/
def Log.waiting {α : Type} (log : Log α) (isPublished : Iri → Bool) (after : Iri) : Except StoreError (List α) :=
  (log.candidates.toList.filter fun held => decide (after < held.1) && !isPublished held.1).mapM fun held =>
    match log.rows[held.2 - 1]? with
    | some row => .ok row
    | none => .error (.missingRow held.1)

/-- `doc::drop_candidates`, for one index. -/
def Log.drop {α : Type} (log : Log α) (ids : List Iri) : Log α :=
  { log with candidates := ids.foldl (fun index id => index.erase id) log.candidates }

structure LocalLedger where
  gateRuns : Log GateRun
  attempts : Log Attempt
  published : List (String × Iri)
  cutovers : ExtTreeMap String Iri compare

def LocalLedger.empty : LocalLedger := ⟨.empty, .empty, [], ∅⟩

namespace LocalLedger

def appendGateRun (s : LocalLedger) (run : GateRun) : LocalLedger :=
  { s with gateRuns := s.gateRuns.append run (run.entry.map Prod.fst) }

def appendAttempt (s : LocalLedger) (attempt : Attempt) : LocalLedger :=
  { s with attempts := s.attempts.append attempt attempt.id }

section

variable (s : LocalLedger) (repo : String)

def isPublished (id : Iri) : Bool := decide ((repo, id) ∈ s.published)

/-- What a flush that landed leaves behind, in one write. -/
def settle (published setAside : List Iri) : LocalLedger :=
  { s with
    published := s.published ++ published.map fun id => (repo, id)
    gateRuns := (s.gateRuns.drop published).drop setAside
    attempts := (s.attempts.drop published).drop setAside }

def cutover : Option Iri := s.cutovers[repo]?

def setCutover (id : Iri) : Except StoreError LocalLedger :=
  match s.cutovers[repo]? with
  | some held => if held = id then .ok s else .error (.cutoverChanged repo held id)
  | none => .ok { s with cutovers := s.cutovers.insert repo id }

end

end LocalLedger

structure Remote where
  runs : List GateRun
  attempts : List Attempt
  decisions : List Decision
  commits : Nat

def Remote.empty : Remote := ⟨[], [], [], 0⟩

structure Batch where
  decision : Decision
  runs : List GateRun
  attempts : List Attempt

def addMissing {α ι : Type} [DecidableEq ι] (id : α → ι) (held new : List α) : List α :=
  new.foldl (fun held entry => if held.any (fun other => id other = id entry) then held else held ++ [entry]) held

def Remote.land (remote : Remote) (batch : Batch) : Remote where
  runs := addMissing GateRun.id remote.runs batch.runs
  attempts := addMissing Attempt.id remote.attempts batch.attempts
  decisions := addMissing Decision.id remote.decisions [batch.decision]
  commits := remote.commits + 1

/-- How many entries, decisions among them, the ledger holds. -/
def Remote.size (remote : Remote) : Nat := remote.runs.length + remote.attempts.length + remote.decisions.length

/-- What becomes of one publish. -/
inductive Landing where
  /-- Nothing lands, and the answer says so or is missing. -/
  | failed
  | landed
  | answerLost
  deriving DecidableEq

/-- `RemoteLedger::publish`: the commit, or nothing when there was nothing left to add. -/
def Remote.publish (remote : Remote) (batch : Batch) (landing : Landing) : Remote × Except StoreError (Option Nat) :=
  match landing with
  | .failed => (remote, .error .unreachable)
  | .landed =>
    let next := remote.land batch
    if next.size = remote.size then (remote, .ok none) else (next, .ok (some next.commits))
  | .answerLost =>
    let next := remote.land batch
    (if next.size = remote.size then remote else next, .error .unreachable)

/-! ### `SplitLedger::flush` -/

inductive LeftLocal where
  | noCutover
  | otherRepository (entry record : Iri)
  deriving DecidableEq

structure Flushed where
  commit : Option Nat
  leftLocal : List LeftLocal
  deriving DecidableEq

def sortOut {α : Type} (owns : Iri → Except StoreError Bool) (entry : α → Option (Iri × Iri)) :
    List α → Except StoreError (List α × List (Iri × Iri))
  | [] => .ok ([], [])
  | first :: rest =>
    match entry first with
    | none => sortOut owns entry rest
    | some (id, record) => do
      let mine ← owns record
      let (kept, aside) ← sortOut owns entry rest
      return if mine then (first :: kept, aside) else (kept, (id, record) :: aside)

/-- What a flush has decided before anything is sent. -/
structure Prepared where
  batch : Batch
  ids : List Iri
  aside : List (Iri × Iri)

def restsOnLocal (s : LocalLedger) (repo : String) (ids : List Iri) (decision : Decision) : Option Iri :=
  decision.restsOn.find? fun cited => !(decide (cited ∈ ids)) && !(s.isPublished repo cited)

section

variable (repo : String) (owns : Iri → Except StoreError Bool)

/-- The part of `flush` before the publish; `none` is a binding with no cut-over. -/
def prepare (s : LocalLedger) (decision : Decision) : Except StoreError (Option Prepared) := do
  let mine ← owns decision.record
  Checked.refuseIf (mine = false) (.notOwned decision.record)
  match s.cutover repo with
  | none => return none
  | some cutover =>
    let pendingRuns ← s.gateRuns.waiting (s.isPublished repo) cutover
    let pendingAttempts ← s.attempts.waiting (s.isPublished repo) cutover
    let (runs, asideRuns) ← sortOut owns GateRun.entry pendingRuns
    let (attempts, asideAttempts) ← sortOut owns Attempt.entry pendingAttempts
    let ids := runs.filterMap GateRun.id ++ attempts.filterMap Attempt.id
    match restsOnLocal s repo ids decision with
    | some cited => throw (.restsOnLocalEntry decision.id cited)
    | none => return some ⟨⟨decision, runs, attempts⟩, ids, asideRuns ++ asideAttempts⟩

structure World where
  ours : LocalLedger
  github : Remote

/-- `settles` is whether the local write after the publish succeeds. -/
def flush (w : World) (decision : Decision) (landing : Landing) (settles : Bool) : World × Except StoreError Flushed :=
  match prepare repo owns w.ours decision with
  | .error e => (w, .error e)
  | .ok none => (w, .ok ⟨none, [.noCutover]⟩)
  | .ok (some prepared) =>
    match w.github.publish prepared.batch landing with
    | (github, .error e) => ({ w with github }, .error e)
    | (github, .ok commit) =>
      if settles then
        (⟨w.ours.settle repo prepared.ids (prepared.aside.map Prod.fst), github⟩,
          .ok ⟨commit, prepared.aside.map fun held => .otherRepository held.1 held.2⟩)
      else ({ w with github }, .error .backend)

inductive Event where
  | appendGateRun (run : GateRun)
  | appendAttempt (attempt : Attempt)
  | setCutover (repo : String) (id : Iri)
  | flush (decision : Decision) (landing : Landing) (settles : Bool)

def step (w : World) : Event → World × Except StoreError (Option Flushed)
  | .appendGateRun run => ({ w with ours := w.ours.appendGateRun run }, .ok none)
  | .appendAttempt attempt => ({ w with ours := w.ours.appendAttempt attempt }, .ok none)
  | .setCutover other id =>
    match w.ours.setCutover other id with
    | .ok ours => ({ w with ours }, .ok none)
    | .error e => (w, .error e)
  | .flush decision landing settles =>
    let (next, answer) := flush repo owns w decision landing settles
    (next, answer.map some)

end

def World.empty : World := ⟨.empty, .empty⟩

end FerroLoop.Ledger

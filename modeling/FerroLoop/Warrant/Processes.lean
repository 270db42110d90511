import FerroLoop.Warrant.Grants
import FerroLoop.Lib.Machine

/-!
Any number of calls on one ledger, in any interleaving. A call that writes takes the lock, reads the file, and puts
another in its place; a check that consumes nothing reads the file without the lock. A turn may also end a call with an
I/O error, or with the end of its process.
-/

namespace FerroLoop.Warrant

open Std Text Checked Machine Gate

inductive Call where
  | issue (args : IssueGrantArgs) (key : SigningKey) (nowMs : UInt64)
  | verify (idOrToken : String) (targetAgent : Option String) (consume : Bool) (nowMs : UInt64)
  | revoke (grantId : String) (nowMs : UInt64)

/-- A check that spends the grant. -/
def Call.consumes : Call → Bool
  | .verify _ _ consume _ => consume
  | .issue .. | .revoke .. => false

inductive Outcome where
  | issued (stored : StoredOwnerGrant)
  | verified (grant : VerifiedGrant)
  | revoked (stored : StoredOwnerGrant)

/-- How far a call is. -/
inductive Stage where
  | fresh
  | reading
  | locking
  | holding
  | writing (next : OwnerWarrantLedger) (outcome : Outcome)
  | releasing (reply : Except GateError Outcome)
  | done (reply : Except GateError Outcome)

structure System where
  file : Option OwnerWarrantLedger
  holder : Option Nat
  stages : Nat → Stage

def System.start : System := ⟨none, none, fun _ => .fresh⟩

def System.at_ (s : System) (i : Nat) (stage : Stage) : System := { s with stages := Function.update s.stages i stage }

structure Turn where
  call : Nat
  draws : List String
  fails : Bool

variable (outside : Outside) (calls : Nat → Call)

def noLedger : Except GateError Outcome := rejected "no warrant ledger exists; no grant has been issued"

def begin (file : Option OwnerWarrantLedger) : Call → Stage
  | .issue args _ nowMs =>
    match requestOf outside args nowMs with
    | .error e => .done (.error e)
    | .ok _ => .locking
  | .verify idOrToken targetAgent consume _ =>
    if trim idOrToken = "" then .done (badInput "a grant id or token is required")
    else if consume && targetAgent.all (trim · == "") then .done (badInput "consume needs a target agent")
    else if file.isNone then .done noLedger
    else if consume then .locking else .reading
  | .revoke _ _ => if file.isNone then .done noLedger else .locking

def checkIn (idOrToken : String) (targetAgent : Option String) (nowMs : UInt64) (file : Option OwnerWarrantLedger) :
    Except GateError (OwnerWarrantLedger × OwnerGrant × Bool) := do
  let ledger ← requireLedger file
  let named ← checkGrant outside (trim idOrToken) targetAgent nowMs ledger
  pure (ledger, named)

def look (file : Option OwnerWarrantLedger) : Call → Except GateError Outcome
  | .verify idOrToken targetAgent _ nowMs =>
    (checkIn outside idOrToken targetAgent nowMs file).map fun (_, grant, inLedger) => .verified ⟨grant, inLedger, false⟩
  | .issue _ _ _ => .error .panicked
  | .revoke _ _ => .error .panicked

def change (draws : List String) (file : Option OwnerWarrantLedger) : Call → Stage
  | .issue args key nowMs =>
    match requestOf outside args nowMs with
    | .error e => .releasing (.error e)
    | .ok request =>
      match issueIn outside key request draws file with
      | none => .holding
      | some (.error e) => .releasing (.error e)
      | some (.ok (stored, next)) => .writing next (.issued stored)
  | .verify idOrToken targetAgent _ nowMs =>
    match checkIn outside idOrToken targetAgent nowMs file with
    | .error e => .releasing (.error e)
    | .ok (ledger, grant, inLedger) =>
      if inLedger then
        .writing (consumedIn outside ledger grant.grantId targetAgent nowMs) (.verified ⟨grant, true, true⟩)
      else .releasing (.ok (.verified ⟨grant, false, false⟩))
  | .revoke grantId nowMs =>
    match (do revokeIn outside (trim grantId) nowMs (← requireLedger file)) with
    | .error e => .releasing (.error e)
    | .ok (stored, next) => .writing next (.revoked stored)

def System.end_ (s : System) (i : Nat) : System :=
  { s.at_ i (.done (.error (.io "" ""))) with holder := if s.holder = some i then none else s.holder }

def System.turn (s : System) (t : Turn) : System :=
  match s.stages t.call with
  | .done _ => s
  | stage =>
    if t.fails then s.end_ t.call
    else
      match stage with
      | .fresh => s.at_ t.call (begin outside s.file (calls t.call))
      | .reading => s.at_ t.call (.done (look outside s.file (calls t.call)))
      | .locking => if s.holder = none then { s.at_ t.call .holding with holder := some t.call } else s
      | .holding => s.at_ t.call (change outside t.draws s.file (calls t.call))
      | .writing next outcome => { s.at_ t.call (.releasing (.ok outcome)) with file := some next }
      | .releasing reply => { s.at_ t.call (.done reply) with holder := none }
      | .done _ => s

def System.after (turns : List Turn) : System := turns.foldl (System.turn outside calls) System.start

end FerroLoop.Warrant

import FerroLoop.Lib.Machine
import FerroLoop.Store.Collections
import Std.Data.ExtHashMap

/-!
The exactly-once table of a store server: recent request ids with their replies, and the threads
that claim ids, wait for a running request, answer and give up. Instants are nanoseconds.
-/

namespace FerroLoop.Session

open Store

abbrev HashMap (κ ν : Type) [BEq κ] [Hashable κ] := Std.ExtHashMap κ ν

abbrev Instant := Nat

def secs (n : Nat) : Nat := n * 1000000000

def callTimeout : Nat := 10

def dedupEntries : Nat := 10000
def dedupPerPrincipal : Nat := dedupEntries / 4
def dedupTtl : Nat := secs 600
def dedupMinAge : Nat := secs (2 * callTimeout)

def dedupFull : String := "dedup table full, retry"
def dedupQuota : String := "dedup quota for this credential reached, retry"
def dedupOtherMethod : String := "request id already used for another method"

/-- A `unix:<uid>` principal is the server's own user and has no quota. -/
def quotaApplies (principal : String) : Bool := !principal.startsWith "unix:"

structure Key where
  principal : String
  req : BitVec 128
deriving DecidableEq, Hashable

instance : EquivBEq Key := inferInstance
instance : LawfulHashable Key := inferInstance

structure Entry where
  claimed : Instant
  method : String
  reply : Option Value

/-- An id in arrival order, with the time it was claimed. -/
abbrev Item := Instant × Key

structure Table where
  entries : HashMap Key Entry
  order : List Item
  held : HashMap String Nat

namespace Table

def empty : Table := ⟨∅, [], ∅⟩

section

variable (table : Table)

def heldBy (principal : String) : Nat := table.held[principal]?.getD 0

def insert (table : Table) (key : Key) (entry : Entry) : Table where
  entries := table.entries.insert key entry
  order := table.order ++ [(entry.claimed, key)]
  held := table.held.insert key.principal (table.heldBy key.principal + 1)

def release (held : HashMap String Nat) (principal : String) : HashMap String Nat :=
  match held[principal]? with
  | none => held
  | some count => if count - 1 = 0 then held.erase principal else held.insert principal (count - 1)

def remove (key : Key) : Table :=
  match table.entries[key]? with
  | none => table
  | some _ => { table with entries := table.entries.erase key, held := release table.held key.principal }

def live (item : Item) : Option Entry :=
  table.entries[item.2]?.filter fun entry => entry.claimed == item.1

/-- The loop of `evict` over the items that are left; `running` are the ones set aside so far. -/
def evictLoop (now : Instant) (table : Table) (running : List Item) : List Item → Table
  | [] => { table with order := running }
  | item :: rest =>
    match table.live item with
    | none => evictLoop now table running rest
    | some entry =>
      match entry.reply with
      | none => evictLoop now table (running ++ [item]) rest
      | some _ =>
        if now - item.1 ≤ dedupTtl ∧ ¬ (dedupEntries ≤ table.entries.size ∧ dedupMinAge < now - item.1) then
          { table with order := running ++ item :: rest }
        else evictLoop now (table.remove item.2) running rest

def evict (now : Instant) : Table := evictLoop now table [] table.order

/-- The first `excess` answered ids of the principal that are older than `dedupMinAge`. -/
def gone (table : Table) (principal : String) (now : Instant) : Nat → List Item → List Key
  | 0, _ => []
  | _ + 1, [] => []
  | excess + 1, item :: rest =>
    if now - item.1 ≤ dedupMinAge then []
    else if item.2.principal = principal ∧ (table.live item).any (fun entry => entry.reply.isSome) then
      item.2 :: gone table principal now excess rest
    else gone table principal now (excess + 1) rest

def sweep : Table :=
  if 2 * dedupEntries < table.order.length then
    { table with order := table.order.filter fun item => (table.live item).isSome }
  else table

def evictOwn (principal : String) (now : Instant) : Table :=
  let excess := table.heldBy principal + 1 - dedupPerPrincipal
  ((table.gone principal now excess table.order).foldl remove table).sweep

/-- `Running::finish` on the table. -/
def finish (key : Key) (claimed : Instant) (reply : Value) : Table :=
  match table.live (claimed, key) with
  | none => table
  | some entry => { table with entries := table.entries.insert key { entry with reply := some reply } }

/-- `Running::drop` on the table. -/
def release? (key : Key) (claimed : Instant) : Table :=
  if (table.live (claimed, key)).isSome then table.remove key else table

end

end Table

/-- What one turn of the loop of `claim_at` comes to. -/
inductive Turn where
  | refused (err : StoreError)
  | replay (reply : Value)
  | wait
  | run

section Claim

variable (table : Table) (key : Key) (method : String) (now : Instant)

def claimNew : Table × Turn :=
  let capped := quotaApplies key.principal
  let table :=
    if capped ∧ dedupPerPrincipal ≤ table.heldBy key.principal then table.evictOwn key.principal now else table
  if dedupEntries ≤ table.entries.size then
    (table, .refused (backend
      (dedupFull ++ s!": the server holds {dedupEntries} recent writes it cannot forget yet")))
  else if capped ∧ dedupPerPrincipal ≤ table.heldBy key.principal then
    (table, .refused (backend (dedupQuota ++ s!": it holds {dedupPerPrincipal} of the server's " ++
      s!"{dedupEntries} recent writes, which cannot be forgotten yet")))
  else (table.insert key ⟨now, method, none⟩, .run)

/-- One turn of the loop of `claim_at`, under the table's lock. -/
def claimTurn : Table × Turn :=
  let table := table.evict now
  match table.entries[key]? with
  | none => claimNew table key method now
  | some entry =>
    if entry.method ≠ method then
      (table, .refused (backend (dedupOtherMethod ++ ": this credential sent request id " ++ key.req.toHex ++
        " for `" ++ entry.method ++ "`, and this request is `" ++ method ++ "`; nothing ran")))
    else
      match entry.reply with
      | some reply => (table, .replay reply)
      | none => (table, .wait)

end Claim

/-- Where a thread is with its request: `running` holds the claim (`Running`) it got. -/
inductive Thread where
  | idle
  | waiting (key : Key) (method : String)
  | running (key : Key) (method : String) (claimed : Instant)

structure Server where
  table : Table
  threads : Nat → Thread
  answered : Key → Option Instant

def Server.start : Server := ⟨Table.empty, fun _ => .idle, fun _ => none⟩

inductive Action where
  | claim (key : Key) (method : String)
  | wake
  | finish (reply : Value)
  | drop

structure Event where
  thread : Nat
  time : Instant
  action : Action

inductive Outcome where
  | turn (turn : Turn)
  | done
  | skipped

def setThread (threads : Nat → Thread) (thread : Nat) (now : Thread) : Nat → Thread :=
  fun other => if other = thread then now else threads other

def Turn.thread (key : Key) (method : String) (now : Instant) : Turn → Thread
  | .refused _ => .idle
  | .replay _ => .idle
  | .wait => .waiting key method
  | .run => .running key method now

def Server.turn (server : Server) (thread : Nat) (key : Key) (method : String) (now : Instant) : Server × Outcome :=
  let (table, turn) := claimTurn server.table key method now
  ({ server with table, threads := setThread server.threads thread (turn.thread key method now) }, .turn turn)

def Server.step (server : Server) (event : Event) : Server × Outcome :=
  match event.action, server.threads event.thread with
  | .claim key method, .idle => server.turn event.thread key method event.time
  | .wake, .waiting key method => server.turn event.thread key method event.time
  | .finish reply, .running key _ claimed =>
    ({ table := server.table.finish key claimed reply
       threads := setThread server.threads event.thread .idle
       answered := fun other => if other = key then some event.time else server.answered other }, .done)
  | .drop, .running key _ claimed =>
    ({ server with
        table := server.table.release? key claimed
        threads := setThread server.threads event.thread .idle }, .done)
  | _, _ => (server, .skipped)

end FerroLoop.Session

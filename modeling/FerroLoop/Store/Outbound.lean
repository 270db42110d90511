import FerroLoop.Store.Inbound

/-!
Outbound sync of one handle: committing threads register their batches with the attached adapter
and send them, flushes drain the queue, and `on_commit` may fail, panic, or call back into the
handle.
-/

namespace FerroLoop.Store

inductive SyncMode where
  | writeThrough
  | writeBehind
  | localCache
  | cloudPreCache
deriving DecidableEq

/-- What registering a commit leaves its committer to do once every store lock is released. -/
inductive Registered where
  | nothing
  | owned (batch : SyncBatch)
  | queued (seq : Nat)

/-- Where a thread is: in `deliver_owned`, `drain_through` or `sync_flush`, or inside `on_commit`
for a batch that it owns or that is the front of the queue. -/
inductive Activity where
  | deliver (registered : Registered)
  | drain (seq : Nat)
  | flush
  | call (batch : SyncBatch) (owned : Bool)

def Activity.isCall : Activity → Bool
  | .call _ _ => true
  | _ => false

structure SyncSlot where
  synced : Nat
  pending : List SyncBatch
  /-- `notify_in_flight`, with `notify_owner`. -/
  inFlight : Option Nat

/-- No queued batch and no `on_commit` running. -/
def SyncSlot.isIdle (slot : SyncSlot) : Bool := slot.pending.isEmpty && slot.inFlight.isNone

/-- The slot of the handle, the call stack of each thread, and every batch that was registered and
that the adapter took, which the code does not keep. -/
structure Outbound extends SyncSlot where
  lastSeq : Nat
  running : Nat → List Activity
  registered : List SyncBatch
  delivered : List SyncBatch

namespace Outbound

def start (lastSeq synced : Nat) : Outbound := ⟨⟨synced, [], none⟩, lastSeq, fun _ => [], [], []⟩

def setStack (slot : Outbound) (thread : Nat) (stack : List Activity) : Outbound :=
  { slot with running := fun other => if other = thread then stack else slot.running other }

/-- `synced_seq` moves forward only. -/
def bump (slot : Outbound) (seq : Nat) : Outbound :=
  if slot.synced < seq then { slot with synced := seq } else slot

section

variable (slot : Outbound) (batch : SyncBatch)

def enqueue : Outbound :=
  { slot with pending := slot.pending ++ [batch], registered := slot.registered ++ [batch] }

def take (owner : Nat) : Outbound :=
  { slot with inFlight := some owner, registered := slot.registered ++ [batch] }

/-- `register_committed_for`, under the commit gate. -/
def register (mode : SyncMode) (slot : Outbound) (batch : SyncBatch) (silent : Bool) (owner : Nat) :
    Outbound × Registered :=
  if batch.ops.isEmpty then (slot, .nothing)
  else if silent then (if slot.isIdle then slot.bump batch.seq else slot, .nothing)
  else
    match mode with
    | .writeThrough =>
      if ¬ slot.isIdle then (slot.enqueue batch, .queued batch.seq) else (slot.take batch owner, .owned batch)
    | _ => (slot.enqueue batch, .nothing)

/-- A failed or unwound `on_commit` leaves its batch at the front of the queue. -/
def putBack : Outbound :=
  if slot.pending.any fun pending => pending.seq == batch.seq then slot
  else { slot with pending := batch :: slot.pending }

def sentFront : Outbound :=
  match slot.pending with
  | [] => slot
  | front :: rest => if front.seq = batch.seq then bump { slot with pending := rest } batch.seq else slot

end

end Outbound

/-- How a call of `on_commit` ends. -/
inductive CallEnd where
  | ok
  | failed
  | panicked

inductive SyncAction where
  /-- A commit at the next sequence, after `elsewhere` commits of other handles. -/
  | commit (ops : List Op) (silent : Bool) (elsewhere : Nat)
  | flush
  | resume
  | answer (answer : CallEnd)

structure SyncEvent where
  thread : Nat
  action : SyncAction

inductive SyncOutcome where
  | returned (seq : Nat)
  | undelivered (seq : Nat)
  | goesOn
deriving DecidableEq

def flushFails : List Activity → List Activity × SyncOutcome
  | .flush :: .drain seq :: rest => (rest, .undelivered seq)
  | .flush :: rest => (rest, .goesOn)
  | stack => (stack, .goesOn)

/-- Unwinding stops at an enclosing `on_commit`, where the adapter may catch the panic. -/
def unwound (stack : List Activity) : List Activity := stack.dropWhile fun frame => !frame.isCall

namespace Outbound

variable (slot : Outbound) (thread : Nat)

/-- The next section of a thread that is not inside `on_commit`. -/
def resume : List Activity → Outbound × SyncOutcome
  | .deliver .nothing :: rest => (slot.setStack thread rest, .goesOn)
  | .deliver (.queued seq) :: rest => (slot.setStack thread (.drain seq :: rest), .goesOn)
  | .deliver (.owned batch) :: rest => (slot.setStack thread (.call batch true :: rest), .goesOn)
  | .drain seq :: rest =>
    if seq ≤ slot.synced then (slot.setStack thread rest, .returned seq)
    else if slot.inFlight = some thread then (slot.setStack thread rest, .returned seq)
    else (slot.setStack thread (.flush :: .drain seq :: rest), .goesOn)
  | .flush :: rest =>
    match slot.inFlight with
    | some owner => if owner = thread then (slot.setStack thread rest, .goesOn) else (slot, .goesOn)
    | none =>
      match slot.pending with
      | batch :: _ =>
        (setStack { slot with inFlight := some thread } thread (.call batch false :: .flush :: rest), .goesOn)
      | [] => (slot.setStack thread rest, .goesOn)
  | _ => (slot, .goesOn)

/-- `on_commit` ends. Its end and the section that records it are one step: until that section ran,
the flag keeps every other thread from sending. -/
def ends (answer : CallEnd) : List Activity → Outbound × SyncOutcome
  | .call batch owned :: rest =>
    let slot := { slot with inFlight := none }
    match answer, owned with
    | .ok, true => (setStack { slot.bump batch.seq with delivered := slot.delivered ++ [batch] } thread rest,
        .returned batch.seq)
    | .ok, false => (setStack { slot.sentFront batch with delivered := slot.delivered ++ [batch] } thread rest, .goesOn)
    | .failed, true => ((slot.putBack batch).setStack thread rest, .undelivered batch.seq)
    | .failed, false => (slot.setStack thread (flushFails rest).1, (flushFails rest).2)
    | .panicked, _ => ((slot.putBack batch).setStack thread (unwound rest), .goesOn)
  | _ => (slot, .goesOn)

def outside : List Activity → Bool
  | [] => true
  | frame :: _ => frame.isCall

def step (mode : SyncMode) (slot : Outbound) (event : SyncEvent) : Outbound × SyncOutcome :=
  let thread := event.thread
  let stack := slot.running thread
  match event.action with
  | .commit ops silent elsewhere =>
    if outside stack then
      let seq := if ops.isEmpty then slot.lastSeq + elsewhere else slot.lastSeq + elsewhere + 1
      let (slot, registered) := register mode { slot with lastSeq := seq } ⟨seq, ops⟩ silent thread
      (slot.setStack thread (.deliver registered :: stack), .goesOn)
    else (slot, .goesOn)
  | .flush => if outside stack then (slot.setStack thread (.flush :: stack), .goesOn) else (slot, .goesOn)
  | .resume => slot.resume thread stack
  | .answer answer => slot.ends thread answer stack

end Outbound

end FerroLoop.Store

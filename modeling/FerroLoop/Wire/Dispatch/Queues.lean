import FerroLoop.Lib.Machine
import FerroLoop.Lib.Map
import FerroLoop.Wire.Message
import Std.Data.ExtTreeSet

/-!
The daemon's recipient queues and the workers that drain them (`schedule_dispatch`,
`start_queued_worker`, `run_recipient_queue`, `wake_capacity_waiters` and
`wake_recipient_after_registration` of `crates/wire/src/daemon.rs`). What happens under one hold of
the `dispatch_queues` lock is one step; a worker is between two of them while it pushes.
-/

namespace FerroLoop.Wire.Dispatch

open Std

def maxDispatchRecipients : Nat := 128
def maxTrackedRecipients : Nat := 512
def maxQueuedPerRecipient : Nat := 1024
def maxOverflowRecipients : Nat := 128

structure RecipientDispatchQueue where
  pending : List (MessageId × At) := []
  inFlight : Option MessageId := none
  overflowed : Bool := false
  waitingForRoute : Bool := false
  waitingForCapacity : Bool := false
  workerActive : Bool := false
  routeGeneration : UInt64 := 0
  deriving DecidableEq

abbrev Queues := ExtTreeMap String RecipientDispatchQueue compare

inductive DispatchOutcome where
  | resolved | noRoute | unconfirmed
  deriving DecidableEq

def named (recipient : String) (receipt : DeliveryReceipt) : Bool :=
  Text.eqIgnoreAsciiCase receipt.recipientName recipient

/-- The pass for one recipient: the receipts it pushes and whether it pushed any. `listed` is
what `list_wire_receipts` answered, `routed` which names have a route after discovery. A push
that fails may call its refreshed route once more; that is the same push. -/
def dispatchMessageSelected (listed : Option (List DeliveryReceipt)) (recipient : String) (routed : String → Bool) :
    List DeliveryReceipt × Option Bool :=
  match listed with
  | none => ([], none)
  | some receipts =>
    let pushed := (receipts.filter (named recipient)).filter fun rcpt => deliverable rcpt && routed rcpt.recipientName
    (pushed, some !pushed.isEmpty)

/-- How `dispatch_and_propagate` judges a pass by the receipt it reads afterwards. -/
def dispatchOutcome (attempted : Option Bool) : Option DeliveryReceipt → DispatchOutcome
  | none => .unconfirmed
  | some receipt =>
    if settled receipt.status then .resolved
    else if attempted == some false && receipt.attempts < maxDeliver then .noRoute
    else .unconfirmed

def readBack (recipient : String) (listed : Option (List DeliveryReceipt)) : Option DeliveryReceipt :=
  listed.bind fun receipts => receipts.find? (named recipient)

structure Job where
  id : MessageId
  now : At
  generation : UInt64
  deriving DecidableEq

/-- Where a worker thread stands in `run_recipient_queue`. -/
inductive Stage where
  /-- At the top of the loop. -/
  | taking
  /-- It took a job and has not pushed it yet. -/
  | holding (job : Job)
  /-- Its pass is over; the receipts are not read back yet. `attempted` is `none` where the
  message or its receipts could not be read. -/
  | dispatched (job : Job) (found : Bool) (attempted : Option Bool)
  /-- It gave its slot back and still has to look for waiting recipients. -/
  | leaving
  /-- It has seen who waits and has not started anyone. -/
  | waking (candidates : List String)
  deriving DecidableEq

structure Worker where
  recipient : String
  stage : Stage
  deriving DecidableEq

def Worker.owns (worker : Worker) : Bool :=
  match worker.stage with
  | .taking | .holding _ | .dispatched _ _ _ => true
  | .leaving | .waking _ => false

def Worker.pushing (worker : Worker) : Bool :=
  match worker.stage with
  | .holding _ | .dispatched _ _ _ => true
  | .taking | .leaving | .waking _ => false

inductive Note where
  | admitted (recipient : String) (id : MessageId)
  | refused (recipient : String) (id : MessageId)
  | pushed (recipient : String) (id : MessageId)
  | unconfirmed (recipient : String) (id : MessageId)
  deriving DecidableEq

structure Daemon where
  queues : Queues
  overflowRecipients : ExtTreeSet String compare
  overflowCapacityExhausted : Bool
  shutdown : Bool
  workers : ExtTreeMap Nat Worker compare
  /-- How often a worker thread was asked for; the threads carry these numbers. -/
  attempts : Nat
  history : List Note

def Daemon.start : Daemon where
  queues := ∅
  overflowRecipients := ∅
  overflowCapacityExhausted := false
  shutdown := false
  workers := ∅
  attempts := 0
  history := []

def activeWorkers (queues : Queues) : Nat := Map.count (fun _ queue => queue.workerActive) queues

namespace Daemon

section

variable (daemon : Daemon)

def putQueue (recipient : String) (queue : RecipientDispatchQueue) : Daemon :=
  { daemon with queues := daemon.queues.insert recipient queue }

def dropQueue (recipient : String) : Daemon :=
  { daemon with queues := daemon.queues.erase recipient }

def putWorker (thread : Nat) (worker : Worker) : Daemon :=
  { daemon with workers := daemon.workers.insert thread worker }

def dropWorker (thread : Nat) : Daemon :=
  { daemon with workers := daemon.workers.erase thread }

def note (notes : List Note) : Daemon :=
  { daemon with history := daemon.history ++ notes }

def retainOverflowFence (recipient : String) : Daemon :=
  if daemon.overflowRecipients.contains recipient || daemon.overflowRecipients.size < maxOverflowRecipients then
    { daemon with overflowRecipients := daemon.overflowRecipients.insert recipient }
  else { daemon with overflowCapacityExhausted := true }

end

section Spawning

variable (spawns : Nat → Bool)

/-- Ask for a thread; `spawns` says which requests the system grants. -/
def spawnRecipientWorker (daemon : Daemon) (recipient : String) : Daemon × Bool :=
  let asked := { daemon with attempts := daemon.attempts + 1 }
  if spawns daemon.attempts then (asked.putWorker daemon.attempts ⟨recipient, .taking⟩, true) else (asked, false)

/-- Start a queued worker or keep it waiting; `false` where the thread could not be started. -/
def startQueuedWorker (daemon : Daemon) (recipient : String) : Daemon × Bool :=
  let active := activeWorkers daemon.queues
  match daemon.queues[recipient]? with
  | none => (daemon, true)
  | some queue =>
    if queue.workerActive || queue.pending.isEmpty then (daemon, true)
    else if maxDispatchRecipients ≤ active then
      (daemon.putQueue recipient { queue with waitingForCapacity := true }, true)
    else
      let started := daemon.putQueue recipient
        { queue with waitingForCapacity := false, waitingForRoute := false, workerActive := true }
      match started.spawnRecipientWorker spawns recipient with
      | (spawned, true) => (spawned, true)
      | (failed, false) => ((failed.retainOverflowFence recipient).dropQueue recipient, false)

def admitTracked (daemon : Daemon) (id : MessageId) (now : At) (name : String) (queue : RecipientDispatchQueue) :
    Daemon × List String :=
  if queue.inFlight = some id ∨ queue.pending.any (fun entry => entry.1 = id) then (daemon, [])
  else if queue.overflowed || maxQueuedPerRecipient ≤ queue.pending.length then
    let full := { queue with overflowed := true, routeGeneration := queue.routeGeneration + 1 }
    let refused := (daemon.putQueue name full).note [.refused name id]
    if full.waitingForRoute && !full.pending.isEmpty then ((refused.startQueuedWorker spawns name).1, [name])
    else (refused, [name])
  else
    let queue := { queue with pending := queue.pending ++ [(id, now)], routeGeneration := queue.routeGeneration + 1 }
    let admitted := (daemon.putQueue name queue).note [.admitted name id]
    if queue.waitingForRoute then
      match admitted.startQueuedWorker spawns name with
      | (started, true) => (started, [])
      | (failed, false) => (failed, [name])
    else (admitted, [])

def admitUntracked (daemon : Daemon) (id : MessageId) (now : At) (name : String) : Daemon × List String :=
  if daemon.overflowRecipients.contains name || daemon.overflowCapacityExhausted then
    (daemon.note [.refused name id], [name])
  else if maxTrackedRecipients ≤ daemon.queues.size then
    ((daemon.retainOverflowFence name).note [.refused name id], [name])
  else
    let admitted := (daemon.putQueue name { pending := [(id, now)] }).note [.admitted name id]
    match admitted.startQueuedWorker spawns name with
    | (started, true) => (started, [])
    | (failed, false) => (failed, [name])

def scheduleReceipt (id : MessageId) (now : At) (daemon : Daemon) (receipt : DeliveryReceipt) : Daemon × List String :=
  if settled receipt.status then (daemon, [])
  else
    let name := Text.toAsciiLowercase receipt.recipientName
    match daemon.queues[name]? with
    | some queue => daemon.admitTracked spawns id now name queue
    | none => daemon.admitUntracked spawns id now name

/-- Enqueue a stored message for each of its recipients; the names are those whose delivery
stays pending. -/
def scheduleDispatch (id : MessageId) (now : At) : Daemon → List DeliveryReceipt → Daemon × List String
  | daemon, [] => (daemon, [])
  | daemon, receipt :: rest =>
    let (daemon, errors) := scheduleReceipt spawns id now daemon receipt
    let (daemon, others) := scheduleDispatch id now daemon rest
    (daemon, errors ++ others)

def wakeRecipientAfterRegistration (daemon : Daemon) (recipient : String) : Daemon :=
  match daemon.queues[recipient]? with
  | none => daemon
  | some queue =>
    let woken := daemon.putQueue recipient { queue with routeGeneration := queue.routeGeneration + 1 }
    if !queue.pending.isEmpty && !queue.workerActive then (woken.startQueuedWorker spawns recipient).1 else woken

section

variable (daemon : Daemon) (thread : Nat) (recipient : String)

def leave : Daemon :=
  daemon.putWorker thread ⟨recipient, .leaving⟩

/-- The top of the loop. -/
def take : Daemon :=
  if daemon.shutdown then (daemon.dropQueue recipient).leave thread recipient
  else
    match daemon.queues[recipient]? with
    | none => daemon.dropWorker thread
    | some queue =>
      match queue.pending with
      | [] =>
        let fenced := if queue.overflowed then daemon.retainOverflowFence recipient else daemon
        (fenced.dropQueue recipient).leave thread recipient
      | (id, now) :: rest =>
        (daemon.putQueue recipient { queue with pending := rest, inFlight := some id }).putWorker thread
          ⟨recipient, .holding ⟨id, now, queue.routeGeneration⟩⟩

def dispatch (job : Job) (found : Bool) (listed : Option (List DeliveryReceipt)) (routed : String → Bool) : Daemon :=
  if found then
    let (pushed, attempted) := dispatchMessageSelected listed recipient routed
    (daemon.note (pushed.map fun _ => .pushed recipient job.id)).putWorker thread
      ⟨recipient, .dispatched job true attempted⟩
  else daemon.putWorker thread ⟨recipient, .dispatched job false none⟩

end

inductive Ended where
  | panicked
  | read (listed : Option (List DeliveryReceipt))

def Ended.outcome (recipient : String) (found : Bool) (attempted : Option Bool) : Ended → DispatchOutcome
  | .panicked => .unconfirmed
  | .read listed => if found then dispatchOutcome attempted (readBack recipient listed) else .unconfirmed

/-- The receipts read back show the push settled: there is one of that name, and every one of
that name is. -/
def Ended.confirms (recipient : String) : Ended → Bool
  | .panicked | .read none => false
  | .read (some listed) => listed.any (named recipient) && (listed.filter (named recipient)).all (settled ·.status)

section

variable (daemon : Daemon) (thread : Nat) (recipient : String)

def conclude (job : Job) (outcome : DispatchOutcome) : Daemon :=
  match daemon.queues[recipient]? with
  | none => daemon.putWorker thread ⟨recipient, .taking⟩
  | some queue =>
    let idle := { queue with inFlight := none }
    match outcome with
    | .resolved => (daemon.putQueue recipient idle).putWorker thread ⟨recipient, .taking⟩
    | .noRoute =>
      if queue.routeGeneration = job.generation then
        if queue.overflowed then
          (daemon.putQueue recipient
            { idle with pending := (job.id, job.now) :: queue.pending, waitingForRoute := true, workerActive := false }).leave
            thread recipient
        else (daemon.dropQueue recipient).leave thread recipient
      else
        (daemon.putQueue recipient { idle with pending := (job.id, job.now) :: queue.pending }).putWorker thread
          ⟨recipient, .taking⟩
    | .unconfirmed => ((daemon.retainOverflowFence recipient).dropQueue recipient).leave thread recipient

def finish (job : Job) (found : Bool) (attempted : Option Bool) (ended : Ended) : Daemon :=
  let told := if attempted = some true && !ended.confirms recipient then daemon.note [.unconfirmed recipient job.id] else daemon
  told.conclude thread recipient job (ended.outcome recipient found attempted)

/-- `wake_capacity_waiters` up to its snapshot; after a shutdown request it wakes no one. -/
def snapshot : Daemon :=
  if daemon.shutdown then daemon.dropWorker thread
  else
    let candidates := (daemon.queues.filter fun _ queue => queue.waitingForCapacity && !queue.pending.isEmpty).keys
    daemon.putWorker thread ⟨recipient, .waking candidates⟩

end

/-- The admissions of `wake_capacity_waiters`, in the order of the snapshot. -/
def startWaiters : Daemon → List String → Daemon
  | daemon, [] => daemon
  | daemon, name :: rest =>
    if maxDispatchRecipients ≤ activeWorkers daemon.queues then daemon
    else
      match daemon.queues[name]? with
      | none => startWaiters daemon rest
      | some queue =>
        if queue.waitingForCapacity && !queue.pending.isEmpty then startWaiters (daemon.startQueuedWorker spawns name).1 rest
        else startWaiters daemon rest

end Spawning

end Daemon

open Daemon

inductive Event where
  /-- A message was stored, by a local send or a peer's frame, with these receipts. -/
  | schedule (id : MessageId) (recipients : List DeliveryReceipt) (now : At)
  /-- A route was registered. -/
  | register (persona : String)
  /-- A worker goes round its loop. -/
  | take (thread : Nat)
  /-- A worker looks its message up and runs the pass. -/
  | dispatch (thread : Nat) (found : Bool) (listed : Option (List DeliveryReceipt)) (routed : String → Bool)
  /-- A worker's pass ends and is judged. -/
  | finish (thread : Nat) (ended : Ended)
  /-- A worker that left sees who waits for its slot. -/
  | snapshot (thread : Nat)
  /-- It starts them and is gone. -/
  | wake (thread : Nat)
  | requestShutdown

def step (spawns : Nat → Bool) (daemon : Daemon) : Event → Daemon
  | .schedule id recipients now => (scheduleDispatch spawns id now daemon recipients).1
  | .register persona => daemon.wakeRecipientAfterRegistration spawns persona
  | .take thread =>
    match daemon.workers[thread]? with
    | some ⟨recipient, .taking⟩ => daemon.take thread recipient
    | _ => daemon
  | .dispatch thread found listed routed =>
    match daemon.workers[thread]? with
    | some ⟨recipient, .holding job⟩ => daemon.dispatch thread recipient job found listed routed
    | _ => daemon
  | .finish thread ended =>
    match daemon.workers[thread]? with
    | some ⟨recipient, .dispatched job found attempted⟩ => daemon.finish thread recipient job found attempted ended
    | _ => daemon
  | .snapshot thread =>
    match daemon.workers[thread]? with
    | some ⟨recipient, .leaving⟩ => daemon.snapshot thread recipient
    | _ => daemon
  | .wake thread =>
    match daemon.workers[thread]? with
    | some ⟨_, .waking candidates⟩ => (daemon.startWaiters spawns candidates).dropWorker thread
    | _ => daemon
  | .requestShutdown => { daemon with shutdown := true }

def run (spawns : Nat → Bool) (events : List Event) : Daemon := events.foldl (step spawns) .start

end FerroLoop.Wire.Dispatch

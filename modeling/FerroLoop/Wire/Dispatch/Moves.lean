import FerroLoop.Wire.Dispatch.Queues

namespace FerroLoop.Wire.Dispatch

open List hiding isEmpty_iff
open Std Daemon

def Daemon.fenced (daemon : Daemon) (recipient : String) : Bool :=
  daemon.overflowRecipients.contains recipient || daemon.overflowCapacityExhausted

section Fence

variable (daemon : Daemon) (recipient : String)

@[simp] theorem retainOverflowFence_queues : (daemon.retainOverflowFence recipient).queues = daemon.queues := by
  unfold retainOverflowFence
  split <;> rfl

@[simp] theorem retainOverflowFence_workers : (daemon.retainOverflowFence recipient).workers = daemon.workers := by
  unfold retainOverflowFence
  split <;> rfl

@[simp] theorem retainOverflowFence_attempts : (daemon.retainOverflowFence recipient).attempts = daemon.attempts := by
  unfold retainOverflowFence
  split <;> rfl

@[simp] theorem retainOverflowFence_shutdown : (daemon.retainOverflowFence recipient).shutdown = daemon.shutdown := by
  unfold retainOverflowFence
  split <;> rfl

@[simp] theorem retainOverflowFence_history : (daemon.retainOverflowFence recipient).history = daemon.history := by
  unfold retainOverflowFence
  split <;> rfl

theorem retainOverflowFence_fenced : (daemon.retainOverflowFence recipient).fenced recipient = true := by
  unfold retainOverflowFence fenced
  split <;> simp

theorem retainOverflowFence_keeps {other : String} (fenced : daemon.fenced other = true) :
    (daemon.retainOverflowFence recipient).fenced other = true := by
  unfold retainOverflowFence
  unfold Daemon.fenced at fenced ⊢
  split
  · rcases Bool.or_eq_true _ _ ▸ fenced with blocked | exhausted
    · simp [ExtTreeSet.contains_insert, blocked]
    · simp [exhausted]
  · simp

end Fence

def RecipientDispatchQueue.started (queue : RecipientDispatchQueue) : RecipientDispatchQueue :=
  { queue with waitingForCapacity := false, waitingForRoute := false, workerActive := true }

inductive Move (daemon : Daemon) : Daemon → Prop
  /-- A tracked recipient takes a message. -/
  | enqueue {name : String} {queue : RecipientDispatchQueue} {id : MessageId} {now : At}
      (held : daemon.queues[name]? = some queue) (room : queue.overflowed = false) :
      Move daemon ((daemon.putQueue name
        { queue with pending := queue.pending ++ [(id, now)], routeGeneration := queue.routeGeneration + 1 }).note
        [.admitted name id])
  /-- A new recipient is tracked for its message. -/
  | track {name : String} {id : MessageId} {now : At} (absent : daemon.queues[name]? = none)
      (unfenced : daemon.fenced name = false) :
      Move daemon ((daemon.putQueue name { pending := [(id, now)] }).note [.admitted name id])
  /-- A message beyond a queue's bound stays in the inbox. -/
  | overflow {name : String} {queue : RecipientDispatchQueue} {id : MessageId}
      (held : daemon.queues[name]? = some queue) :
      Move daemon ((daemon.putQueue name
        { queue with overflowed := true, routeGeneration := queue.routeGeneration + 1 }).note [.refused name id])
  /-- A message of a fenced recipient stays in the inbox. -/
  | refuse {name : String} {id : MessageId} (absent : daemon.queues[name]? = none)
      (fenced : daemon.fenced name = true) : Move daemon (daemon.note [.refused name id])
  /-- A message beyond the bound on tracked recipients stays in the inbox. -/
  | untracked {name : String} {id : MessageId} (absent : daemon.queues[name]? = none) :
      Move daemon ((daemon.retainOverflowFence name).note [.refused name id])
  | touch {name : String} {queue : RecipientDispatchQueue} (held : daemon.queues[name]? = some queue) :
      Move daemon (daemon.putQueue name { queue with routeGeneration := queue.routeGeneration + 1 })
  | wait {name : String} {queue : RecipientDispatchQueue} (held : daemon.queues[name]? = some queue)
      (idle : queue.workerActive = false) (filled : queue.pending ≠ [])
      (full : maxDispatchRecipients ≤ activeWorkers daemon.queues) :
      Move daemon (daemon.putQueue name { queue with waitingForCapacity := true })
  | spawn {name : String} {queue : RecipientDispatchQueue} (held : daemon.queues[name]? = some queue)
      (idle : queue.workerActive = false) (room : activeWorkers daemon.queues < maxDispatchRecipients) :
      Move daemon
        { daemon.putQueue name queue.started with
          workers := daemon.workers.insert daemon.attempts ⟨name, .taking⟩
          attempts := daemon.attempts + 1 }
  /-- The system refuses the thread. -/
  | fail {name : String} {queue : RecipientDispatchQueue} (held : daemon.queues[name]? = some queue)
      (idle : queue.workerActive = false) :
      Move daemon { (daemon.retainOverflowFence name).dropQueue name with attempts := daemon.attempts + 1 }
  | take {thread : Nat} {name : String} {queue : RecipientDispatchQueue} {id : MessageId} {now : At}
      {rest : List (MessageId × At)} (at_ : daemon.workers[thread]? = some ⟨name, .taking⟩)
      (open_ : daemon.shutdown = false) (held : daemon.queues[name]? = some queue)
      (next : queue.pending = (id, now) :: rest) :
      Move daemon ((daemon.putQueue name { queue with pending := rest, inFlight := some id }).putWorker thread
        ⟨name, .holding ⟨id, now, queue.routeGeneration⟩⟩)
  /-- The message cannot be read. -/
  | lookup {thread : Nat} {name : String} {job : Job} (at_ : daemon.workers[thread]? = some ⟨name, .holding job⟩) :
      Move daemon (daemon.putWorker thread ⟨name, .dispatched job false none⟩)
  /-- The pass pushes the message at most once, or does not and says so. -/
  | dispatch {thread : Nat} {name : String} {job : Job} {notes : List Note} {attempted : Option Bool}
      (at_ : daemon.workers[thread]? = some ⟨name, .holding job⟩)
      (pass : notes = [] ∨ notes = [.pushed name job.id] ∧ attempted = some true) :
      Move daemon ((daemon.note notes).putWorker thread ⟨name, .dispatched job true attempted⟩)
  | resolve {thread : Nat} {name : String} {queue : RecipientDispatchQueue} {job : Job} {found : Bool}
      {attempted : Option Bool} (at_ : daemon.workers[thread]? = some ⟨name, .dispatched job found attempted⟩)
      (held : daemon.queues[name]? = some queue) :
      Move daemon ((daemon.putQueue name { queue with inFlight := none }).putWorker thread ⟨name, .taking⟩)
  /-- No route, and something arrived meanwhile: the oldest message is tried again. -/
  | retry {thread : Nat} {name : String} {queue : RecipientDispatchQueue} {job : Job}
      (at_ : daemon.workers[thread]? = some ⟨name, .dispatched job true (some false)⟩)
      (held : daemon.queues[name]? = some queue) :
      Move daemon ((daemon.putQueue name
        { queue with inFlight := none, pending := (job.id, job.now) :: queue.pending }).putWorker thread ⟨name, .taking⟩)
  /-- No route for an overflowed queue: the accepted messages wait for one. -/
  | park {thread : Nat} {name : String} {queue : RecipientDispatchQueue} {job : Job}
      (at_ : daemon.workers[thread]? = some ⟨name, .dispatched job true (some false)⟩)
      (held : daemon.queues[name]? = some queue) (over_ : queue.overflowed = true) :
      Move daemon ((daemon.putQueue name
        { queue with
          inFlight := none, pending := (job.id, job.now) :: queue.pending, waitingForRoute := true
          workerActive := false }).leave thread name)
  /-- The queue is given up without a fence. -/
  | depart {thread : Nat} {worker : Worker} {queue : RecipientDispatchQueue}
      (at_ : daemon.workers[thread]? = some worker) (owns : worker.owns = true)
      (held : daemon.queues[worker.recipient]? = some queue)
      (ends : daemon.shutdown = true ∨ queue.overflowed = false) :
      Move daemon ((daemon.dropQueue worker.recipient).leave thread worker.recipient)
  /-- The queue is given up behind a fence. -/
  | expel {thread : Nat} {worker : Worker} {queue : RecipientDispatchQueue} {notes : List Note}
      (at_ : daemon.workers[thread]? = some worker) (owns : worker.owns = true)
      (held : daemon.queues[worker.recipient]? = some queue)
      (told : notes = [] ∨ ∃ id, notes = [.unconfirmed worker.recipient id]) :
      Move daemon ((((daemon.note notes).retainOverflowFence worker.recipient).dropQueue worker.recipient).leave thread
        worker.recipient)
  | snapshot {thread : Nat} {name : String} (at_ : daemon.workers[thread]? = some ⟨name, .leaving⟩)
      (open_ : daemon.shutdown = false) :
      Move daemon (daemon.putWorker thread ⟨name, .waking
        (daemon.queues.filter fun _ queue => queue.waitingForCapacity && !queue.pending.isEmpty).keys⟩)
  | requestShutdown : Move daemon { daemon with shutdown := true }

abbrev Moves : Daemon → Daemon → Prop := Relation.ReflTransGen Move

open Relation

section Starting

variable (spawns : Nat → Bool)

theorem erase_insert_self (queues : Queues) (name : String) (queue : RecipientDispatchQueue) :
    (queues.insert name queue).erase name = queues.erase name := by
  apply ExtTreeMap.ext_getElem?
  intro other
  rw [Map.getElem?_erase, Map.getElem?_erase, Map.getElem?_insert]
  split <;> rfl

variable {name : String} {queue : RecipientDispatchQueue}

/-- With a slot free an idle queue gets its worker, or the thread is refused and the recipient fenced. -/
theorem startQueuedWorker_room {daemon : Daemon}
    (held : daemon.queues[name]? = some queue) (idle : queue.workerActive = false) (filled : queue.pending ≠ [])
    (room : activeWorkers daemon.queues < maxDispatchRecipients) :
    (daemon.startQueuedWorker spawns name).1 =
        { daemon.putQueue name queue.started with
          workers := daemon.workers.insert daemon.attempts ⟨name, .taking⟩
          attempts := daemon.attempts + 1 } ∨
      (daemon.startQueuedWorker spawns name).1 =
        { (daemon.retainOverflowFence name).dropQueue name with attempts := daemon.attempts + 1 } := by
  have ready : ¬(queue.workerActive || queue.pending.isEmpty) = true := by simp [idle, filled]
  have unchanged : (daemon.putQueue name queue.started).attempts = daemon.attempts := rfl
  simp only [startQueuedWorker, held, if_neg ready, if_neg (Nat.not_le_of_lt room)]
  have start : daemon.putQueue name
      { queue with waitingForCapacity := false, waitingForRoute := false, workerActive := true } =
        daemon.putQueue name queue.started := rfl
  rw [start]
  by_cases granted : spawns daemon.attempts = true
  · rw [spawnRecipientWorker, unchanged, if_pos granted]
    exact .inl rfl
  rw [spawnRecipientWorker, unchanged, if_neg granted]
  refine .inr ?_
  unfold retainOverflowFence dropQueue putQueue
  simp only
  split <;> simp only [erase_insert_self]

variable (daemon : Daemon)

theorem startQueuedWorker_moves (daemon : Daemon) (name : String) :
    Moves daemon (daemon.startQueuedWorker spawns name).1 := by
  rcases held : daemon.queues[name]? with _ | queue
  · simp only [startQueuedWorker, held]
    exact .refl
  by_cases busy : (queue.workerActive || queue.pending.isEmpty) = true
  · simp only [startQueuedWorker, held, if_pos busy]
    exact .refl
  have ready := busy
  simp only [Bool.or_eq_true, List.isEmpty_iff, not_or, Bool.not_eq_true] at ready
  by_cases full : maxDispatchRecipients ≤ activeWorkers daemon.queues
  · simp only [startQueuedWorker, held, if_neg busy, if_pos full]
    exact .single (.wait held ready.1 ready.2 full)
  have room := Nat.lt_of_not_le full
  rcases startQueuedWorker_room spawns held ready.1 ready.2 room with spawned | failed
  · rw [spawned]
    exact .single (.spawn held ready.1 room)
  · rw [failed]
    exact .single (.fail held ready.1)

theorem Moves.start {daemon before : Daemon} (moved : Moves daemon before) (name : String) :
    Moves daemon (before.startQueuedWorker spawns name).1 :=
  moved.trans (startQueuedWorker_moves spawns before name)

variable {id : MessageId}

theorem admitTracked_moves {daemon : Daemon} {now : At}
    (held : daemon.queues[name]? = some queue) : Moves daemon (daemon.admitTracked spawns id now name queue).1 := by
  unfold admitTracked
  split
  · exact .refl
  by_cases full : (queue.overflowed || decide (maxQueuedPerRecipient ≤ queue.pending.length)) = true
  · rw [if_pos full]
    have refused : Moves daemon _ := .single (@Move.overflow daemon name queue id held)
    simp only
    split
    · exact refused.start spawns name
    · exact refused
  · rw [if_neg full]
    have room : queue.overflowed = false := by
      simp only [Bool.or_eq_true, not_or, Bool.not_eq_true] at full
      exact full.1
    have admitted : Moves daemon _ := .single (@Move.enqueue daemon name queue id now held room)
    have started := admitted.start spawns name
    simp only
    split
    · split
      all_goals
        rename_i found
        rw [found] at started
        exact started
    · exact admitted

theorem admitUntracked_moves {daemon : Daemon} {now : At}
    (absent : daemon.queues[name]? = none) : Moves daemon (daemon.admitUntracked spawns id now name).1 := by
  unfold admitUntracked
  split
  · rename_i fenced
    exact .single (.refuse absent fenced)
  rename_i unfenced
  split
  · exact .single (.untracked absent)
  have tracked : Moves daemon _ := .single (@Move.track daemon name id now absent (Bool.not_eq_true _ ▸ unfenced))
  have started := tracked.start spawns name
  simp only
  split
  all_goals
    rename_i found
    rw [found] at started
    exact started

theorem scheduleReceipt_moves (id : MessageId) (now : At) (daemon : Daemon) (receipt : DeliveryReceipt) :
    Moves daemon (scheduleReceipt spawns id now daemon receipt).1 := by
  unfold scheduleReceipt
  split
  · exact .refl
  simp only
  cases held : daemon.queues[Text.toAsciiLowercase receipt.recipientName]? with
  | some queue => exact admitTracked_moves spawns held
  | none => exact admitUntracked_moves spawns held

theorem scheduleDispatch_moves (id : MessageId) (now : At) (daemon : Daemon) (recipients : List DeliveryReceipt) :
    Moves daemon (scheduleDispatch spawns id now daemon recipients).1 := by
  induction recipients generalizing daemon with
  | nil => exact .refl
  | cons receipt rest ih => exact (scheduleReceipt_moves spawns id now daemon receipt).trans (ih _)

theorem wakeRecipientAfterRegistration_moves (daemon : Daemon) (name : String) :
    Moves daemon (daemon.wakeRecipientAfterRegistration spawns name) := by
  unfold wakeRecipientAfterRegistration
  rcases held : daemon.queues[name]? with _ | queue
  · exact .refl
  have touched : Moves daemon _ := .single (.touch held)
  simp only
  split
  · exact touched.start spawns name
  · exact touched

theorem startWaiters_moves (names : List String) :
    Moves daemon (startWaiters spawns daemon names) := by
  induction names generalizing daemon with
  | nil => exact .refl
  | cons name rest ih =>
    unfold startWaiters
    split
    · exact .refl
    split
    · exact ih daemon
    · split
      · exact (startQueuedWorker_moves spawns daemon name).trans (ih _)
      · exact ih daemon

end Starting

def Single (listed : List DeliveryReceipt) : Prop :=
  listed.Pairwise fun a b => Text.eqIgnoreAsciiCase a.recipientName b.recipientName = false

def Event.Single : Event → Prop
  | .schedule _ recipients _ => Dispatch.Single recipients
  | .dispatch _ _ (some listed) _ => Dispatch.Single listed
  | .finish _ (.read (some listed)) => Dispatch.Single listed
  | _ => True

theorem Single.filter_named {listed : List DeliveryReceipt} (single : Single listed) (name : String) :
    listed.filter (named name) = [] ∨ ∃ receipt, listed.filter (named name) = [receipt] := by
  have apart := List.Pairwise.filter (named name) single
  have all : ∀ receipt ∈ listed.filter (named name), named name receipt = true :=
    fun receipt member => (mem_filter.mp member).2
  match found : listed.filter (named name) with
  | [] => exact .inl rfl
  | [receipt] => exact .inr ⟨receipt, rfl⟩
  | first :: second :: rest =>
    rw [found] at apart all
    have one := all first (by simp)
    have two := all second (by simp)
    have differ := (pairwise_cons.mp apart).1 second (by simp)
    simp only [named, Text.eqIgnoreAsciiCase_iff] at one two
    rw [← two] at one
    rw [Text.eqIgnoreAsciiCase_iff.mpr one] at differ
    cases differ

def Daemon.Owned (daemon : Daemon) : Prop :=
  ∀ {thread : Nat} {worker : Worker}, daemon.workers[thread]? = some worker → worker.owns = true →
    ∃ queue, daemon.queues[worker.recipient]? = some queue

variable {thread : Nat} {daemon : Daemon} {name : String} {job : Job} {found : Bool} {ended : Ended}
  {attempted : Option Bool}

theorem take_moves (owned : daemon.Owned)
    (at_ : daemon.workers[thread]? = some ⟨name, .taking⟩) : Moves daemon (daemon.take thread name) := by
  obtain ⟨queue, held⟩ := owned at_ rfl
  unfold Daemon.take
  by_cases shut : daemon.shutdown = true
  · rw [if_pos shut]
    exact .single (.depart at_ rfl held (.inl shut))
  rw [if_neg shut]
  rw [Bool.not_eq_true] at shut
  simp only [held]
  cases next : queue.pending with
  | nil =>
    by_cases full : queue.overflowed = true
    · simp only [full, if_true]
      have expelled := Move.expel at_ rfl held (.inl rfl)
      simpa [note] using ReflTransGen.single expelled
    · simp only [full]
      exact .single (.depart at_ rfl held (.inr (by simpa using full)))
  | cons entry rest =>
    exact .single (.take at_ shut held next)

theorem dispatch_moves
    {listed : Option (List DeliveryReceipt)} {routed : String → Bool}
    (at_ : daemon.workers[thread]? = some ⟨name, .holding job⟩)
    (single : Event.Single (.dispatch thread found listed routed)) :
    Moves daemon (daemon.dispatch thread name job found listed routed) := by
  unfold dispatch
  rcases found with _ | _
  · exact .single (.lookup at_)
  simp only [if_true]
  rcases listed with _ | receipts
  · exact .single (.dispatch at_ (.inl rfl))
  -- One receipt of that name is pushed or is not.
  refine .single (.dispatch at_ ?_)
  have few : (dispatchMessageSelected (some receipts) name routed).1.length ≤ 1 := by
    refine Nat.le_trans (length_filter_le _ _) ?_
    rcases Single.filter_named single name with none_ | ⟨receipt, one⟩
    · rw [none_]
      exact Nat.zero_le 1
    · rw [one]
      exact Nat.le_refl 1
  have flag : (dispatchMessageSelected (some receipts) name routed).2 =
      some !(dispatchMessageSelected (some receipts) name routed).1.isEmpty := rfl
  rw [flag]
  match pushed : (dispatchMessageSelected (some receipts) name routed).1, few with
  | [], _ => exact .inl rfl
  | [receipt], _ => exact .inr ⟨rfl, rfl⟩

theorem outcome_unconfirmed
    (single : Event.Single (.finish thread ended)) (pending : ended.confirms name = false) :
    ended.outcome name found (some true) = .unconfirmed := by
  cases ended with
  | panicked => rfl
  | read listed =>
    rcases found with _ | _
    · rfl
    simp only [Ended.outcome, if_true]
    rcases listed with _ | receipts
    · rfl
    rcases back : readBack name (some receipts) with _ | receipt
    · rfl
    have member := mem_of_find?_eq_some back
    have matches_ := find?_some back
    rcases Single.filter_named single name with none_ | ⟨only, one⟩
    · rw [filter_eq_nil_iff] at none_
      exact absurd matches_ (none_ receipt member)
    have same : receipt = only := by
      have within : receipt ∈ receipts.filter (named name) := mem_filter.mpr ⟨member, matches_⟩
      rw [one] at within
      exact mem_singleton.mp within
    have any : receipts.any (named name) = true := any_eq_true.mpr ⟨receipt, member, matches_⟩
    simp only [Ended.confirms, any, one, Bool.true_and, all_cons, all_nil, Bool.and_true,
      ← same] at pending
    simp only [dispatchOutcome, pending, Bool.false_eq_true, if_false]
    rfl

theorem conclude_moves (owned : daemon.Owned)
    {outcome : DispatchOutcome}
    (at_ : daemon.workers[thread]? = some ⟨name, .dispatched job found attempted⟩)
    (routeless : outcome = .noRoute → found = true ∧ attempted = some false) :
    Moves daemon (daemon.conclude thread name job outcome) := by
  obtain ⟨queue, held⟩ := owned at_ rfl
  unfold conclude
  simp only [held]
  cases outcome with
  | resolved => exact .single (.resolve at_ held)
  | unconfirmed =>
    have expelled := Move.expel at_ rfl held (.inl rfl)
    simpa [note] using ReflTransGen.single expelled
  | noRoute =>
    obtain ⟨rfl, rfl⟩ := routeless rfl
    simp only
    by_cases quiet : queue.routeGeneration = job.generation
    · rw [if_pos quiet]
      by_cases full : queue.overflowed = true
      · rw [if_pos full]
        exact .single (.park at_ held full)
      · rw [if_neg full]
        exact .single (.depart at_ rfl held (.inr (by simpa using full)))
    · rw [if_neg quiet]
      exact .single (.retry at_ held)

theorem outcome_noRoute
    (judged : ended.outcome name found attempted = .noRoute) : found = true ∧ attempted = some false := by
  cases ended with
  | panicked => cases judged
  | read listed =>
    rcases found with _ | _
    · cases judged
    refine ⟨rfl, ?_⟩
    simp only [Ended.outcome, if_true] at judged
    rcases back : readBack name listed with _ | receipt
    · rw [back] at judged
      cases judged
    rw [back] at judged
    unfold dispatchOutcome at judged
    simp only at judged
    split at judged
    · cases judged
    split at judged
    · rename_i none_
      simp only [Bool.and_eq_true, beq_iff_eq] at none_
      exact none_.1
    · cases judged

theorem finish_moves (owned : daemon.Owned)
    (at_ : daemon.workers[thread]? = some ⟨name, .dispatched job found attempted⟩)
    (single : Event.Single (.finish thread ended)) :
    Moves daemon (daemon.finish thread name job found attempted ended) := by
  unfold finish
  by_cases lost : (decide (attempted = some true) && !ended.confirms name) = true
  · simp only [lost, if_true]
    simp only [Bool.and_eq_true, decide_eq_true_eq, Bool.not_eq_true'] at lost
    obtain ⟨rfl, pending⟩ := lost
    obtain ⟨queue, held⟩ := owned at_ rfl
    rw [outcome_unconfirmed single pending]
    unfold conclude
    have still : (daemon.note [.unconfirmed name job.id]).queues[name]? = some queue := held
    simp only [still]
    exact .single (.expel at_ rfl held (.inr ⟨job.id, rfl⟩))
  · simp only [lost]
    exact conclude_moves owned at_ outcome_noRoute

end FerroLoop.Wire.Dispatch

import FerroLoop.Wire.Dispatch.Moves

namespace FerroLoop.Wire.Dispatch

open Std Map Option

def Daemon.running (daemon : Daemon) : Nat := count (fun _ worker => worker.owns) daemon.workers

/-- Workers and queues agree: a worker that owns a recipient has marked its queue, no other owns
it too, and no more queues are marked than workers run. -/
structure Daemon.Sound (daemon : Daemon) : Prop where
  owned : ∀ {thread : Nat} {worker : Worker}, daemon.workers[thread]? = some worker → worker.owns = true →
    ∃ queue, daemon.queues[worker.recipient]? = some queue ∧ queue.workerActive = true
  unique : ∀ {i j : Nat} {v w : Worker}, daemon.workers[i]? = some v → daemon.workers[j]? = some w →
    v.owns = true → w.owns = true → v.recipient = w.recipient → i = j
  numbered : ∀ {thread : Nat} {worker : Worker}, daemon.workers[thread]? = some worker → thread < daemon.attempts
  counted : daemon.running = activeWorkers daemon.queues
  bounded : activeWorkers daemon.queues ≤ maxDispatchRecipients
  waiting : ∀ {name : String} {queue : RecipientDispatchQueue}, daemon.queues[name]? = some queue →
    queue.waitingForCapacity = true → queue.workerActive = false ∧ queue.pending ≠ []

variable (spawns : Nat → Bool) {daemon next : Daemon} {worker : Worker}

theorem Daemon.Sound.hasQueues (sound : daemon.Sound) : daemon.Owned := by
  intro thread worker at_ owns
  obtain ⟨queue, held, -⟩ := sound.owned at_ owns
  exact ⟨queue, held⟩

theorem start_sound : Daemon.start.Sound where
  owned at_ := by simp [Daemon.start] at at_
  unique at_ := by simp [Daemon.start] at at_
  numbered at_ := by simp [Daemon.start] at at_
  counted := rfl
  bounded := Nat.zero_le _
  waiting held := by simp [Daemon.start] at held

theorem activeWorkers_insert (queues : Queues) (name : String) (queue : RecipientDispatchQueue) :
    activeWorkers (queues.insert name queue) + ((queues[name]?).any (·.workerActive)).toNat =
      activeWorkers queues + queue.workerActive.toNat :=
  count_insert _ queues name queue

theorem activeWorkers_erase (queues : Queues) (name : String) :
    activeWorkers (queues.erase name) + ((queues[name]?).any (·.workerActive)).toNat = activeWorkers queues :=
  count_erase _ queues name

theorem activeWorkers_same {queues : Queues} {name : String} {queue : RecipientDispatchQueue}
    (same : (queues[name]?).any (·.workerActive) = queue.workerActive) :
    activeWorkers (queues.insert name queue) = activeWorkers queues := by
  have counted := activeWorkers_insert queues name queue
  rw [same] at counted
  omega

variable {old worker : Worker}

namespace Daemon.Sound

variable {daemon : Daemon} (sound : daemon.Sound)

include sound

variable {queue : RecipientDispatchQueue} {other : Daemon} {thread : Nat}

theorem putQueue {name : String}
    (same : (daemon.queues[name]?).any (·.workerActive) = queue.workerActive)
    (waits : queue.waitingForCapacity = true → queue.workerActive = false ∧ queue.pending ≠ []) :
    (daemon.putQueue name queue).Sound where
  owned := by
    intro thread worker at_ owns
    obtain ⟨old, held, active⟩ := sound.owned at_ owns
    simp only [Daemon.putQueue, getElem?_insert]
    by_cases here : name = worker.recipient
    · rw [if_pos here]
      rw [here, held, any_some, active] at same
      exact ⟨queue, rfl, same.symm⟩
    · rw [if_neg here]
      exact ⟨old, held, active⟩
  unique := sound.unique
  numbered := sound.numbered
  counted := sound.counted.trans (activeWorkers_same same).symm
  bounded := by
    have kept := activeWorkers_same same
    have bounded := sound.bounded
    simp only [Daemon.putQueue, kept]
    exact bounded
  waiting := by
    intro other found held waits_
    rcases insert_cases held with ⟨_, rfl⟩ | ⟨_, held⟩
    · exact waits waits_
    · exact sound.waiting held waits_

theorem congr (queues : other.queues = daemon.queues) (workers : other.workers = daemon.workers)
    (attempts : daemon.attempts ≤ other.attempts) : other.Sound where
  owned := by
    rw [queues, workers]
    exact sound.owned
  unique := by
    rw [workers]
    exact sound.unique
  numbered := by
    rw [workers]
    intro thread worker at_
    exact Nat.lt_of_lt_of_le (sound.numbered at_) attempts
  counted := by
    rw [Daemon.running, workers, queues]
    exact sound.counted
  bounded := by
    rw [queues]
    exact sound.bounded
  waiting := by
    rw [queues]
    exact sound.waiting

theorem dropQueue {name : String} (held : daemon.queues[name]? = some queue)
    (idle : queue.workerActive = false) : (daemon.dropQueue name).Sound where
  owned := by
    intro thread worker at_ owns
    obtain ⟨old, found, active⟩ := sound.owned at_ owns
    have apart : name ≠ worker.recipient := by
      intro same
      rw [same, found] at held
      cases held
      rw [idle] at active
      cases active
    exact ⟨old, by rw [Daemon.dropQueue, getElem?_erase, if_neg apart]; exact found, active⟩
  unique := sound.unique
  numbered := sound.numbered
  counted := by
    have erased := activeWorkers_erase daemon.queues name
    rw [held, any_some, idle] at erased
    exact sound.counted.trans erased.symm
  bounded := by
    have erased := activeWorkers_erase daemon.queues name
    have bounded := sound.bounded
    simp only [Daemon.dropQueue]
    omega
  waiting := by
    intro other found held_ waits
    simp only [Daemon.dropQueue, getElem?_erase] at held_
    by_cases here : name = other
    · rw [if_pos here] at held_
      cases held_
    · rw [if_neg here] at held_
      exact sound.waiting held_ waits

theorem putWorker (at_ : daemon.workers[thread]? = some old)
    (same : worker.recipient = old.recipient) (owns : worker.owns = old.owns) :
    (daemon.putWorker thread worker).Sound where
  owned := by
    intro i w found owning
    rcases insert_cases found with ⟨_, rfl⟩ | ⟨_, found⟩
    · rw [same]
      exact sound.owned at_ (owns ▸ owning)
    · exact sound.owned found owning
  unique := by
    -- Either thread may be the one that moved; it owns what it owned before.
    have before : ∀ {i : Nat} {w : Worker}, (daemon.putWorker thread worker).workers[i]? = some w → w.owns = true →
        ∃ v, daemon.workers[i]? = some v ∧ v.owns = true ∧ v.recipient = w.recipient := by
      intro i w found owning
      rcases insert_cases found with ⟨here, rfl⟩ | ⟨_, found⟩
      · exact ⟨old, here ▸ at_, owns ▸ owning, same.symm⟩
      · exact ⟨w, found, owning, rfl⟩
    intro i j v w first second one two shared
    obtain ⟨v', at_i, owns_i, same_i⟩ := before first one
    obtain ⟨w', at_j, owns_j, same_j⟩ := before second two
    exact sound.unique at_i at_j owns_i owns_j (same_i.trans (shared.trans same_j.symm))
  numbered := by
    intro i w found
    rcases insert_cases found with ⟨here, _⟩ | ⟨_, found⟩
    · exact here ▸ sound.numbered at_
    · exact sound.numbered found
  counted := by
    have counted := count_insert (fun _ (w : Worker) => w.owns) daemon.workers thread worker
    rw [at_, any_some, owns] at counted
    have before := sound.counted
    simp only [Daemon.running, Daemon.putWorker] at before ⊢
    omega
  bounded := sound.bounded
  waiting := sound.waiting

theorem dropWorker (at_ : daemon.workers[thread]? = some worker)
    (gone : worker.owns = false) : (daemon.dropWorker thread).Sound := by
  have before : ∀ {i : Nat} {w : Worker}, (daemon.dropWorker thread).workers[i]? = some w →
      daemon.workers[i]? = some w := by
    intro i w found
    simp only [Daemon.dropWorker, getElem?_erase] at found
    split at found
    · cases found
    · exact found
  refine ⟨?_, ?_, ?_, ?_, sound.bounded, sound.waiting⟩
  · intro i w found owns
    exact sound.owned (before found) owns
  · intro i j v w first second
    exact sound.unique (before first) (before second)
  · intro i w found
    exact sound.numbered (before found)
  · have counted := count_erase (fun _ (w : Worker) => w.owns) daemon.workers thread
    rw [at_, any_some, gone] at counted
    exact (Nat.add_right_cancel_iff.mp (counted.trans rfl)).trans sound.counted

theorem spawn {name : String} (held : daemon.queues[name]? = some queue)
    (idle : queue.workerActive = false) (room : activeWorkers daemon.queues < maxDispatchRecipients) :
    Sound
      { daemon.putQueue name queue.started with
        workers := daemon.workers.insert daemon.attempts ⟨name, .taking⟩
        attempts := daemon.attempts + 1 } := by
  have fresh : daemon.workers[daemon.attempts]? = none := by
    cases found : daemon.workers[daemon.attempts]? with
    | none => rfl
    | some worker => exact absurd (sound.numbered found) (Nat.lt_irrefl _)
  -- No worker owned the recipient, or its queue would have been marked.
  have unowned : ∀ {i : Nat} {w : Worker}, daemon.workers[i]? = some w → w.owns = true → w.recipient ≠ name := by
    intro i w found owns same
    obtain ⟨old, before, active⟩ := sound.owned found owns
    rw [same, held] at before
    cases before
    rw [idle] at active
    cases active
  have active := activeWorkers_insert daemon.queues name queue.started
  rw [held, any_some, idle] at active
  have marked : queue.started.workerActive.toNat = 1 := rfl
  rw [marked] at active
  refine ⟨?_, ?_, ?_, ?_, ?_, ?_⟩
  · intro i w found owns
    simp only [Daemon.putQueue, getElem?_insert] at found ⊢
    by_cases here : daemon.attempts = i
    · rw [if_pos here] at found
      cases found
      exact ⟨queue.started, if_pos rfl, rfl⟩
    · rw [if_neg here] at found
      rw [if_neg (unowned found owns).symm]
      exact sound.owned found owns
  · intro i j v w first second one two shared
    simp only [getElem?_insert] at first second
    by_cases here : daemon.attempts = i <;> by_cases there : daemon.attempts = j
    · exact here.symm.trans there
    · rw [if_pos here] at first
      rw [if_neg there] at second
      cases first
      exact absurd shared.symm (unowned second two)
    · rw [if_neg here] at first
      rw [if_pos there] at second
      cases second
      exact absurd shared (unowned first one)
    · rw [if_neg here] at first
      rw [if_neg there] at second
      exact sound.unique first second one two shared
  · intro i w found
    rcases insert_cases found with ⟨here, _⟩ | ⟨_, found⟩
    · exact here ▸ Nat.lt_succ_self _
    · exact Nat.lt_succ_of_lt (sound.numbered found)
  · have counted := count_insert (fun _ (w : Worker) => w.owns) daemon.workers daemon.attempts ⟨name, .taking⟩
    rw [fresh] at counted
    have owning : (Worker.owns ⟨name, .taking⟩).toNat = 1 := rfl
    rw [owning] at counted
    have before := sound.counted
    simp only [Daemon.running, Daemon.putQueue, any_none, Bool.toNat_false] at before counted active ⊢
    omega
  · simp only [Daemon.putQueue, Bool.toNat_false] at active ⊢
    omega
  · intro other found held_ waits
    rcases insert_cases held_ with ⟨_, rfl⟩ | ⟨_, held_⟩
    · cases waits
    · exact sound.waiting held_ waits

section

variable (at_ : daemon.workers[thread]? = some worker) (owns : worker.owns = true) (attempts : other.attempts = daemon.attempts) (workers : other.workers = daemon.workers.insert thread ⟨worker.recipient, .leaving⟩)

include at_ owns attempts workers

theorem release (others : ∀ name, worker.recipient ≠ name → other.queues[name]? = daemon.queues[name]?)
    (idle : ∀ queue, other.queues[worker.recipient]? = some queue →
      queue.workerActive = false ∧ queue.waitingForCapacity = false)
    (fewer : activeWorkers other.queues + 1 = activeWorkers daemon.queues) : other.Sound := by
  have before : ∀ {i : Nat} {w : Worker}, other.workers[i]? = some w → w.owns = true →
      daemon.workers[i]? = some w ∧ worker.recipient ≠ w.recipient := by
    intro i w found owning
    rw [workers] at found
    rcases insert_cases found with ⟨_, rfl⟩ | ⟨here, found⟩
    · cases owning
    refine ⟨found, ?_⟩
    intro same
    exact here (sound.unique at_ found owns owning same)
  refine ⟨?_, ?_, ?_, ?_, ?_, ?_⟩
  · intro i w found owning
    obtain ⟨old, apart⟩ := before found owning
    rw [others _ apart]
    exact sound.owned old owning
  · intro i j v w first second one two
    exact sound.unique (before first one).1 (before second two).1 one two
  · intro i w found
    rw [workers, getElem?_insert] at found
    rw [attempts]
    by_cases here : thread = i
    · exact here ▸ sound.numbered at_
    · rw [if_neg here] at found
      exact sound.numbered found
  · have counted := count_insert (fun _ (w : Worker) => w.owns) daemon.workers thread ⟨worker.recipient, .leaving⟩
    rw [at_, any_some, owns] at counted
    have left : (Worker.owns ⟨worker.recipient, .leaving⟩).toNat = 0 := rfl
    rw [left, Bool.toNat_true] at counted
    have whole := sound.counted
    rw [Daemon.running, workers]
    rw [Daemon.running] at whole
    omega
  · have bounded := sound.bounded
    omega
  · intro name queue held waits
    by_cases here : worker.recipient = name
    · rw [(idle queue (here ▸ held)).2] at waits
      cases waits
    · rw [others name here] at held
      exact sound.waiting held waits

theorem releaseDropped (queues : other.queues = daemon.queues.erase worker.recipient) : other.Sound := by
  obtain ⟨queue, held, active⟩ := sound.owned at_ owns
  refine sound.release at_ owns attempts workers ?_ ?_ ?_
  · intro name apart
    rw [queues, getElem?_erase, if_neg apart]
  · intro found held_
    rw [queues, getElem?_erase, if_pos rfl] at held_
    cases held_
  · have erased := activeWorkers_erase daemon.queues worker.recipient
    rw [held, any_some, active, Bool.toNat_true] at erased
    rw [queues]
    exact erased

end

theorem requeue {name : String} {old : RecipientDispatchQueue} (held : daemon.queues[name]? = some old)
    (active : queue.workerActive = old.workerActive) (waits : queue.waitingForCapacity = old.waitingForCapacity)
    (filled : old.workerActive = false → old.pending ≠ [] → queue.pending ≠ []) : (daemon.putQueue name queue).Sound := by
  refine sound.putQueue ?_ ?_
  · rw [held, any_some, active]
  · intro waiting
    rw [waits] at waiting
    obtain ⟨idle, some_⟩ := sound.waiting held waiting
    exact ⟨active.trans idle, filled idle some_⟩

end Daemon.Sound

theorem move_sound (sound : daemon.Sound) (move : Move daemon next) : next.Sound := by
  cases move with
  | enqueue held _ =>
    refine Daemon.Sound.congr (sound.requeue held ?_ ?_ ?filled) rfl rfl (Nat.le_refl _)
    case filled => intro _ _ empty; exact absurd empty (by simp)
    all_goals rfl
  | track absent _ =>
    refine Daemon.Sound.congr (sound.putQueue ?_ ?_) rfl rfl (Nat.le_refl _)
    · rw [absent]
      rfl
    · intro waits
      cases waits
  | overflow held =>
    refine Daemon.Sound.congr (sound.requeue held ?_ ?_ ?filled) rfl rfl (Nat.le_refl _)
    case filled => exact fun _ filled => filled
    all_goals rfl
  | refuse _ _ => exact sound.congr rfl rfl (Nat.le_refl _)
  | untracked _ => exact sound.congr (by simp [Daemon.note]) (by simp [Daemon.note]) (by simp [Daemon.note])
  | touch held => exact sound.requeue held rfl rfl fun _ filled => filled
  | wait held idle filled _ =>
    refine sound.putQueue ?_ fun _ => ⟨idle, filled⟩
    rw [held, any_some]
  | spawn held idle room => exact sound.spawn held idle room
  | fail held idle =>
    refine (sound.dropQueue held idle).congr ?_ ?_ ?_
    · simp [Daemon.dropQueue]
    · simp [Daemon.dropQueue]
    · exact Nat.le_succ _
  | take at_ _ held _ =>
    obtain ⟨queue, found, active⟩ := sound.owned at_ rfl
    rw [held] at found
    cases found
    -- The queue has a worker, so it does not wait for one.
    refine Daemon.Sound.putWorker (sound.requeue held ?_ ?_ ?filled) at_ ?_ ?_
    case filled => intro idle; rw [active] at idle; cases idle
    all_goals rfl
  | lookup at_ => exact sound.putWorker at_ rfl rfl
  | dispatch at_ _ =>
    refine Daemon.Sound.putWorker (sound.congr ?_ ?_ ?_) at_ ?_ ?_
    case refine_3 => exact Nat.le_refl _
    all_goals rfl
  | resolve at_ held =>
    refine Daemon.Sound.putWorker (sound.requeue held ?_ ?_ ?filled) at_ ?_ ?_
    case filled => exact fun _ filled => filled
    all_goals rfl
  | retry at_ held =>
    refine Daemon.Sound.putWorker (sound.requeue held ?_ ?_ ?filled) at_ ?_ ?_
    case filled => intro _ _ empty; cases empty
    all_goals rfl
  | @park thread name queue job at_ held _ =>
    obtain ⟨same, found, active⟩ := sound.owned at_ rfl
    rw [held] at found
    cases found
    refine sound.release at_ rfl rfl rfl ?_ ?_ ?_
    · intro name apart
      simp only [Daemon.leave, Daemon.putWorker, Daemon.putQueue, getElem?_insert]
      rw [if_neg apart]
    · intro parked held_
      simp only [Daemon.leave, Daemon.putWorker, Daemon.putQueue, getElem?_insert, if_true] at held_
      cases held_
      refine ⟨rfl, Bool.eq_false_iff.mpr ?_⟩
      intro waits
      rw [(sound.waiting held waits).1] at active
      cases active
    · have counted := activeWorkers_insert daemon.queues name
        { queue with
          inFlight := none, pending := (job.id, job.now) :: queue.pending, waitingForRoute := true, workerActive := false }
      rw [held, any_some, active] at counted
      exact counted
  | depart at_ owns _ _ => exact sound.releaseDropped at_ owns rfl rfl rfl
  | expel at_ owns _ _ =>
    refine sound.releaseDropped at_ owns ?_ ?_ ?_
    · simp [Daemon.leave, Daemon.putWorker, Daemon.dropQueue, Daemon.note]
    · simp [Daemon.leave, Daemon.putWorker, Daemon.dropQueue, Daemon.note]
    · simp [Daemon.leave, Daemon.putWorker, Daemon.dropQueue, Daemon.note]
  | snapshot at_ _ => exact sound.putWorker at_ rfl rfl
  | requestShutdown => exact sound.congr rfl rfl (Nat.le_refl _)

theorem moves_sound (sound : daemon.Sound) (moves : Moves daemon next) : next.Sound := by
  induction moves with
  | refl => exact sound
  | tail _ move ih => exact move_sound ih move

def Worker.wakes (worker : Worker) (name : String) : Prop :=
  worker.stage = .leaving ∨ ∃ candidates, worker.stage = .waking candidates ∧ name ∈ candidates

theorem Worker.wakes_gone {name : String} (wakes : worker.wakes name) : worker.owns = false := by
  unfold Worker.owns
  rcases wakes with left | ⟨candidates, waking, -⟩
  · rw [left]
  · rw [waking]

/-- Whoever waits for a slot waits while all are taken, for one of the `counts` workers that is
about to wake it, or for a reason of its own. -/
def Daemon.Covered (daemon : Daemon) (counts : Nat → Prop) (extra : String → Prop) : Prop :=
  ∀ (name : String) (queue : RecipientDispatchQueue), daemon.queues[name]? = some queue → queue.waitingForCapacity = true →
    maxDispatchRecipients ≤ activeWorkers daemon.queues ∨
      (∃ thread worker, counts thread ∧ daemon.workers[thread]? = some worker ∧ worker.wakes name) ∨ extra name

variable {thread : Nat}

section Covered

variable {daemon next : Daemon} {counts : Nat → Prop} {extra : String → Prop}

theorem Daemon.Covered.kept (covered : daemon.Covered counts extra)
    (active : activeWorkers daemon.queues ≤ activeWorkers next.queues)
    (waits : ∀ (name : String) (queue : RecipientDispatchQueue), next.queues[name]? = some queue → queue.waitingForCapacity = true →
      maxDispatchRecipients ≤ activeWorkers next.queues ∨
        ∃ old : RecipientDispatchQueue, daemon.queues[name]? = some old ∧ old.waitingForCapacity = true)
    (wakes : ∀ (thread : Nat) (worker : Worker), daemon.workers[thread]? = some worker → worker.owns = false →
      next.workers[thread]? = some worker) : next.Covered counts extra := by
  intro name queue held waiting
  rcases waits name queue held waiting with full | ⟨old, before, waited⟩
  · exact .inl full
  rcases covered name old before waited with full | ⟨thread, worker, counted, at_, waking⟩ | reason
  · exact .inl (Nat.le_trans full active)
  · exact .inr (.inl ⟨thread, worker, counted, wakes thread worker at_ (Worker.wakes_gone waking), waking⟩)
  · exact .inr (.inr reason)

theorem leave_covered (daemon : Daemon) (name : String) (counted : counts thread) :
    (daemon.leave thread name).Covered counts extra := by
  intro _ _ _ _
  refine .inr (.inl ⟨thread, ⟨name, .leaving⟩, counted, ?_, .inl rfl⟩)
  rw [Daemon.leave, Daemon.putWorker, getElem?_insert, if_pos rfl]

variable {queue : RecipientDispatchQueue}

theorem Daemon.Covered.requeue (covered : daemon.Covered counts extra) {name : String} {old : RecipientDispatchQueue}
    (held : daemon.queues[name]? = some old) (queues : next.queues = daemon.queues.insert name queue)
    (active : queue.workerActive = old.workerActive) (waits : queue.waitingForCapacity = old.waitingForCapacity)
    (wakes : ∀ (thread : Nat) (worker : Worker), daemon.workers[thread]? = some worker → worker.owns = false →
      next.workers[thread]? = some worker) : next.Covered counts extra := by
  refine covered.kept ?_ ?_ wakes
  · have same := @activeWorkers_same daemon.queues name queue (by rw [held, any_some, active])
    rw [queues]
    exact Nat.le_of_eq same.symm
  · intro other found held_ waiting
    rw [queues] at held_
    rcases insert_cases held_ with ⟨here, rfl⟩ | ⟨_, held_⟩
    · exact .inr ⟨old, here ▸ held, waits ▸ waiting⟩
    · exact .inr ⟨found, held_, waiting⟩

theorem wakes_putWorker (at_ : daemon.workers[thread]? = some old)
    (owns : old.owns = true) (i : Nat) (w : Worker) (found : daemon.workers[i]? = some w) (gone : w.owns = false) :
    (daemon.workers.insert thread worker)[i]? = some w := by
  rw [getElem?_insert]
  by_cases here : thread = i
  · rw [here] at at_
    rw [at_] at found
    cases found
    rw [owns] at gone
    cases gone
  · rw [if_neg here]
    exact found

theorem Daemon.Covered.spawn (sound : daemon.Sound) (covered : daemon.Covered counts extra) {name : String}
    (held : daemon.queues[name]? = some queue) (idle : queue.workerActive = false) :
    Daemon.Covered
      { daemon.putQueue name queue.started with
        workers := daemon.workers.insert daemon.attempts ⟨name, .taking⟩
        attempts := daemon.attempts + 1 } counts extra := by
  refine covered.kept ?_ ?_ ?_
  · have counted := activeWorkers_insert daemon.queues name queue.started
    rw [held, any_some, idle] at counted
    exact Nat.le_trans (Nat.le_add_right _ _) (Nat.le_of_eq counted.symm)
  · intro other found held_ waiting
    rcases insert_cases held_ with ⟨_, rfl⟩ | ⟨_, held_⟩
    · cases waiting
    · exact .inr ⟨found, held_, waiting⟩
  · intro thread worker at_ _
    rw [getElem?_insert, if_neg (Nat.ne_of_gt (sound.numbered at_))]
    exact at_

theorem Daemon.Covered.fail (covered : daemon.Covered counts extra) {name : String}
    (held : daemon.queues[name]? = some queue) (idle : queue.workerActive = false) :
    Daemon.Covered { (daemon.retainOverflowFence name).dropQueue name with attempts := daemon.attempts + 1 } counts extra := by
  refine covered.kept ?_ ?_ ?_
  · have counted := activeWorkers_erase daemon.queues name
    rw [held, any_some, idle] at counted
    simp only [Daemon.dropQueue, retainOverflowFence_queues]
    exact Nat.le_of_eq counted.symm
  · intro other found held_ waiting
    simp only [Daemon.dropQueue, retainOverflowFence_queues, getElem?_erase] at held_
    by_cases here : name = other
    · rw [if_pos here] at held_
      cases held_
    · rw [if_neg here] at held_
      exact .inr ⟨found, held_, waiting⟩
  · intro thread worker at_ _
    simpa [Daemon.dropQueue] using at_

end Covered

/-- Everyone who waits for a slot will be looked at again. -/
def Daemon.Attended (daemon : Daemon) : Prop := daemon.Covered (fun _ => True) fun _ => False

theorem move_attended (sound : daemon.Sound) (attended : daemon.Attended)
    (move : Move daemon next) : next.Attended := by
  have unmoved : ∀ (thread : Nat) (worker : Worker), daemon.workers[thread]? = some worker → worker.owns = false →
      daemon.workers[thread]? = some worker := fun _ _ at_ _ => at_
  cases move with
  | enqueue held _ => exact attended.requeue held rfl rfl rfl unmoved
  | @track name id now absent _ =>
    refine attended.kept ?_ ?_ unmoved
    · have counted := activeWorkers_insert daemon.queues name { pending := [(id, now)] }
      rw [absent] at counted
      exact Nat.le_of_eq counted.symm
    · intro other found held_ waiting
      rcases insert_cases held_ with ⟨_, rfl⟩ | ⟨_, held_⟩
      · cases waiting
      · exact .inr ⟨found, held_, waiting⟩
  | overflow held => exact attended.requeue held rfl rfl rfl unmoved
  | refuse _ _ => exact attended
  | untracked _ =>
    refine attended.kept ?_ ?_ ?_
    · simp [Daemon.note]
    · intro other found held_ waiting
      simp only [Daemon.note, retainOverflowFence_queues] at held_
      exact .inr ⟨found, held_, waiting⟩
    · intro thread worker at_ _
      simpa [Daemon.note] using at_
  | touch held => exact attended.requeue held rfl rfl rfl unmoved
  | @wait name queue held idle _ full =>
    intro _ _ _ _
    have same := @activeWorkers_same daemon.queues name { queue with waitingForCapacity := true }
      (by rw [held, any_some])
    exact .inl (Nat.le_trans full (Nat.le_of_eq same.symm))
  | spawn held idle _ => exact attended.spawn sound held idle
  | fail held idle => exact attended.fail held idle
  | take at_ _ held _ => exact attended.requeue held rfl rfl rfl (wakes_putWorker at_ rfl)
  | lookup at_ | dispatch at_ _ =>
    exact attended.kept (Nat.le_refl _) (fun _ found held waiting => .inr ⟨found, held, waiting⟩) (wakes_putWorker at_ rfl)
  | resolve at_ held | retry at_ held => exact attended.requeue held rfl rfl rfl (wakes_putWorker at_ rfl)
  | park _ _ _ | depart _ _ _ _ | expel _ _ _ _ => exact leave_covered _ _ trivial
  | @snapshot thread recipient _ _ =>
    intro name queue held waiting
    refine .inr (.inl ⟨thread, _, trivial, (getElem?_insert _ _ _ _).trans (if_pos rfl), .inr ⟨_, rfl, ?_⟩⟩)
    rw [ExtTreeMap.mem_keys, ExtTreeMap.mem_iff_isSome_getElem?, getElem?_filter]
    have held_ : daemon.queues[name]? = some queue := held
    have filled := (sound.waiting held_ waiting).2
    rw [held_]
    simp [Option.filter, waiting, filled]
  | requestShutdown => exact attended

theorem moves_attended (sound : daemon.Sound) (attended : daemon.Attended)
    (moves : Moves daemon next) : next.Attended := by
  induction moves with
  | refl => exact attended
  | tail past move ih => exact move_attended (moves_sound sound past) ih move

variable {counts : Nat → Prop}

theorem Daemon.Covered.settle {name : String} {rest : List String}
    (covered : daemon.Covered counts (· ∈ name :: rest))
    (dealt : ∀ queue, daemon.queues[name]? = some queue → queue.waitingForCapacity = false) :
    daemon.Covered counts (· ∈ rest) := by
  intro other queue held waiting
  rcases covered other queue held waiting with full | woken | listed
  · exact .inl full
  · exact .inr (.inl woken)
  rcases List.mem_cons.mp listed with same | later
  · rw [same] at held
    rw [dealt queue held] at waiting
    cases waiting
  · exact .inr (.inr later)

theorem startWaiters_covered {names : List String}
    (sound : daemon.Sound) (covered : daemon.Covered counts (· ∈ names)) :
    (Daemon.startWaiters spawns daemon names).Covered counts fun _ => False := by
  induction names generalizing daemon with
  | nil =>
    intro name queue held waiting
    rcases covered name queue held waiting with full | woken | listed
    · exact .inl full
    · exact .inr (.inl woken)
    · cases listed
  | cons name rest ih =>
    unfold Daemon.startWaiters
    by_cases full : maxDispatchRecipients ≤ activeWorkers daemon.queues
    · rw [if_pos full]
      exact fun _ _ _ _ => .inl full
    rw [if_neg full]
    cases held : daemon.queues[name]? with
    | none =>
      refine ih sound (covered.settle ?_)
      intro queue found
      rw [held] at found
      cases found
    | some queue =>
      simp only
      by_cases waits : (queue.waitingForCapacity && !queue.pending.isEmpty) = true
      · rw [if_pos waits]
        rw [Bool.and_eq_true] at waits
        obtain ⟨idle, filled⟩ := sound.waiting held waits.1
        refine ih (moves_sound sound (startQueuedWorker_moves spawns daemon name)) ?_
        rcases startQueuedWorker_room spawns held idle filled (Nat.lt_of_not_le full) with spawned | failed
        · rw [spawned]
          refine (covered.spawn sound held idle).settle ?_
          intro found now
          simp only [Daemon.putQueue, getElem?_insert, if_true] at now
          cases now
          rfl
        · rw [failed]
          refine (covered.fail held idle).settle ?_
          intro found now
          simp only [Daemon.dropQueue, getElem?_erase, if_true] at now
          cases now
      · rw [if_neg waits]
        refine ih sound (covered.settle ?_)
        intro found now
        rw [held] at now
        cases now
        rw [Bool.eq_false_iff]
        intro waiting
        have filled := (sound.waiting held waiting).2
        exact waits (by simp [waiting, filled])

/-- What one event keeps: agreement of workers and queues, and, until a shutdown is requested,
that no recipient waits unnoticed. -/
structure Daemon.Kept (daemon : Daemon) : Prop where
  sound : daemon.Sound
  attended : daemon.shutdown = false → daemon.Attended

theorem start_kept : Daemon.start.Kept where
  sound := start_sound
  attended := by
    intro _ name queue held
    simp [Daemon.start] at held

theorem startQueuedWorker_worker (sound : daemon.Sound)
    (at_ : daemon.workers[thread]? = some worker) (name : String) :
    (daemon.startQueuedWorker spawns name).1.workers[thread]? = some worker := by
  rcases held : daemon.queues[name]? with _ | queue
  · simp only [Daemon.startQueuedWorker, held]
    exact at_
  by_cases busy : (queue.workerActive || queue.pending.isEmpty) = true
  · simp only [Daemon.startQueuedWorker, held, if_pos busy]
    exact at_
  have ready := busy
  simp only [Bool.or_eq_true, List.isEmpty_iff, not_or, Bool.not_eq_true] at ready
  by_cases full : maxDispatchRecipients ≤ activeWorkers daemon.queues
  · simp only [Daemon.startQueuedWorker, held, if_neg busy, if_pos full]
    exact at_
  rcases startQueuedWorker_room spawns held ready.1 ready.2 (Nat.lt_of_not_le full) with spawned | failed
  · rw [spawned]
    simp only [getElem?_insert]
    rw [if_neg (Nat.ne_of_gt (sound.numbered at_))]
    exact at_
  · rw [failed]
    simpa [Daemon.dropQueue] using at_

theorem startWaiters_worker (sound : daemon.Sound)
    (at_ : daemon.workers[thread]? = some worker) (names : List String) :
    (Daemon.startWaiters spawns daemon names).workers[thread]? = some worker := by
  induction names generalizing daemon with
  | nil => exact at_
  | cons name rest ih =>
    unfold Daemon.startWaiters
    split
    · exact at_
    split
    · exact ih sound at_
    · split
      · exact ih (moves_sound sound (startQueuedWorker_moves spawns daemon name)) (startQueuedWorker_worker spawns sound at_ name)
      · exact ih sound at_

variable {event : Event}

/-- What an event does: moves, the end of a worker after a shutdown request, or the end of one
that woke who waited. -/
theorem step_cases (sound : daemon.Sound)
    (single : event.Single) :
    Moves daemon (step spawns daemon event) ∨
      (∃ thread name, daemon.workers[thread]? = some ⟨name, .leaving⟩ ∧ daemon.shutdown = true ∧
        step spawns daemon event = daemon.dropWorker thread) ∨
      ∃ thread name candidates, daemon.workers[thread]? = some ⟨name, .waking candidates⟩ ∧
        step spawns daemon event = (Daemon.startWaiters spawns daemon candidates).dropWorker thread := by
  cases event with
  | schedule id recipients now => exact .inl (scheduleDispatch_moves spawns id now daemon recipients)
  | register persona => exact .inl (wakeRecipientAfterRegistration_moves spawns daemon persona)
  | requestShutdown => exact .inl (.single .requestShutdown)
  | take thread =>
    simp only [step]
    split
    · rename_i name at_
      exact .inl (take_moves sound.hasQueues at_)
    · exact .inl .refl
  | dispatch thread found listed routed =>
    simp only [step]
    split
    · rename_i name job at_
      exact .inl (dispatch_moves at_ single)
    · exact .inl .refl
  | finish thread ended =>
    simp only [step]
    split
    · rename_i name job found attempted at_
      exact .inl (finish_moves sound.hasQueues at_ single)
    · exact .inl .refl
  | snapshot thread =>
    simp only [step]
    split
    · rename_i name at_
      unfold Daemon.snapshot
      by_cases shut : daemon.shutdown = true
      · rw [if_pos shut]
        exact .inr (.inl ⟨thread, name, at_, shut, rfl⟩)
      · rw [if_neg shut]
        exact .inl (.single (.snapshot at_ (Bool.not_eq_true _ ▸ shut)))
    · exact .inl .refl
  | wake thread =>
    simp only [step]
    split
    · rename_i name candidates at_
      exact .inr (.inr ⟨thread, name, candidates, at_, rfl⟩)
    · exact .inl .refl

theorem move_shutdown (move : Move daemon next) (open_ : next.shutdown = false) :
    daemon.shutdown = false := by
  cases move with
  | requestShutdown => cases open_
  | untracked _ => simpa [Daemon.note] using open_
  | fail _ _ => simpa [Daemon.dropQueue] using open_
  | expel _ _ _ _ => simpa [Daemon.leave, Daemon.putWorker, Daemon.dropQueue, Daemon.note] using open_
  | _ => exact open_

theorem moves_shutdown (moves : Moves daemon next) (open_ : next.shutdown = false) :
    daemon.shutdown = false := by
  induction moves with
  | refl => exact open_
  | tail _ move ih => exact ih (move_shutdown move open_)

theorem step_kept (kept : daemon.Kept) (single : event.Single) :
    (step spawns daemon event).Kept := by
  rcases step_cases spawns kept.sound single with moves | ⟨thread, name, at_, shut, same⟩ | ⟨thread, name, candidates, at_, same⟩
  · exact ⟨moves_sound kept.sound moves,
      fun open_ => moves_attended kept.sound (kept.attended (moves_shutdown moves open_)) moves⟩
  · rw [same]
    refine ⟨kept.sound.dropWorker at_ rfl, ?_⟩
    intro open_
    rw [show (daemon.dropWorker thread).shutdown = daemon.shutdown from rfl, shut] at open_
    cases open_
  · rw [same]
    have woken := startWaiters_moves spawns daemon candidates
    have sound := moves_sound kept.sound woken
    refine ⟨sound.dropWorker (startWaiters_worker spawns kept.sound at_ candidates) rfl, ?_⟩
    intro open_
    -- Apart from this worker, whoever waits is on its list or is left to another.
    have covered : daemon.Covered (· ≠ thread) (· ∈ candidates) := by
      intro other queue held waiting
      rcases kept.attended (moves_shutdown woken open_) other queue held waiting with
        full | ⟨i, worker, -, found, wakes⟩ | none_
      · exact .inl full
      · by_cases here : i = thread
        · rw [here, at_] at found
          cases found
          rcases wakes with left | ⟨listed, stage, member⟩
          · cases left
          · cases stage
            exact .inr (.inr member)
        · exact .inr (.inl ⟨i, worker, here, found, wakes⟩)
      · cases none_
    have after := startWaiters_covered spawns kept.sound covered
    intro other queue held waiting
    rcases after other queue held waiting with full | ⟨i, worker, apart, found, wakes⟩ | none_
    · exact .inl full
    · refine .inr (.inl ⟨i, worker, trivial, ?_, wakes⟩)
      rw [Daemon.dropWorker, getElem?_erase, if_neg apart.symm]
      exact found
    · cases none_

theorem Daemon.Sound.push_alone (sound : daemon.Sound) {i j : Nat} {v w : Worker}
    (first : daemon.workers[i]? = some v) (second : daemon.workers[j]? = some w) (one : v.pushing = true)
    (two : w.pushing = true) (shared : v.recipient = w.recipient) : i = j := by
  have owns : ∀ {worker : Worker}, worker.pushing = true → worker.owns = true := by
    intro worker pushing
    unfold Worker.pushing at pushing
    unfold Worker.owns
    cases stage : worker.stage with
    | taking => rfl
    | holding _ => rfl
    | dispatched _ _ _ => rfl
    | leaving | waking _ => rw [stage] at pushing; cases pushing
  exact sound.unique first second (owns one) (owns two) shared

end FerroLoop.Wire.Dispatch

import FerroLoop.Wire.Dispatch.Workers

namespace FerroLoop.Wire.Dispatch

open List hiding getElem?_insert
open Std Map Daemon List.Sublist

def pushes (name : String) (history : List Note) : List MessageId :=
  history.filterMap fun
    | .pushed recipient id => if recipient = name then some id else none
    | _ => none

def admissions (name : String) (history : List Note) : List MessageId :=
  history.filterMap fun
    | .admitted recipient id => if recipient = name then some id else none
    | _ => none

def Note.closes (note : Note) (name : String) : Prop :=
  ∃ id, note = .refused name id ∨ note = .unconfirmed name id

theorem pushes_append (name : String) (past notes : List Note) :
    pushes name (past ++ notes) = pushes name past ++ pushes name notes := filterMap_append

theorem admissions_append (name : String) (past notes : List Note) :
    admissions name (past ++ notes) = admissions name past ++ admissions name notes := filterMap_append

def Daemon.waiting (daemon : Daemon) (name : String) : List MessageId :=
  if daemon.shutdown then [] else (daemon.queues[name]?).elim [] fun queue => queue.pending.map Prod.fst

def Worker.held (worker : Worker) : List MessageId :=
  match worker.stage with
  | .holding job => [job.id]
  | .dispatched job true (some false) => [job.id]
  | _ => []

theorem Worker.held_gone {worker : Worker} (gone : worker.owns = false) : worker.held = [] := by
  unfold Worker.owns at gone
  unfold Worker.held
  cases stage : worker.stage with
  | taking => rfl
  | leaving => rfl
  | waking _ => rfl
  | holding _ | dispatched _ _ _ => rw [stage] at gone; cases gone

structure Daemon.Within (daemon : Daemon) (name : String) (order : List MessageId) : Prop where
  queued : (pushes name daemon.history ++ daemon.waiting name).Sublist order
  held : ∀ {thread : Nat} {worker : Worker}, daemon.workers[thread]? = some worker → worker.recipient = name →
    (pushes name daemon.history ++ (worker.held ++ daemon.waiting name)).Sublist order

/-- The recipient takes no message any more, or none that a worker would look at. -/
def Daemon.Closed (daemon : Daemon) (name : String) : Prop :=
  daemon.shutdown = true ∨ (∃ queue, daemon.queues[name]? = some queue ∧ queue.overflowed = true) ∨
    daemon.queues[name]? = none ∧ daemon.fenced name = true

structure Daemon.Ordered (daemon : Daemon) : Prop where
  order : ∀ name, daemon.Within name (admissions name daemon.history)
  closed : ∀ name before note after, daemon.history = before ++ note :: after → note.closes name →
    daemon.Within name (admissions name before) ∧ daemon.Closed name

theorem start_ordered : start.Ordered where
  order name := by
    refine ⟨nil_sublist _, ?_⟩
    intro thread worker at_
    simp [start] at at_
  closed name before note after split_ := by
    exact absurd split_.symm (by simp [start])

theorem note_of_append {past notes before after : List Note} {note : Note} (split_ : past ++ notes = before ++ note :: after) :
    (∃ more, before = past ++ more ∧ notes = more ++ note :: after) ∨ ∃ others, past = before ++ note :: others := by
  rcases append_eq_append_iff.mp split_ with ⟨more, same, rest⟩ | ⟨more, same, rest⟩
  · exact .inl ⟨more, same, rest⟩
  rcases more with _ | ⟨first, others⟩
  · rw [append_nil] at same
    exact .inl ⟨[], by rw [append_nil, same], rest.symm⟩
  injection rest with head tail
  rw [← head] at same
  exact .inr ⟨others, same⟩

section History

variable {daemon next : Daemon} (ordered : daemon.Ordered)

include ordered

/-- A step that admits no message keeps the order, if it hands out no more than there was and
closes the recipients it refuses. -/
theorem Daemon.Ordered.quiet (notes : List Note) (history : next.history = daemon.history ++ notes)
    (nothing : ∀ name, admissions name notes = [])
    (within : ∀ name order, daemon.Within name order → next.Within name order)
    (closed : ∀ name, daemon.Closed name → next.Closed name)
    (closing : ∀ name note, note ∈ notes → note.closes name → next.Closed name) : next.Ordered where
  order := by
    intro name
    rw [history, admissions_append, nothing, append_nil]
    exact within name _ (ordered.order name)
  closed := by
    intro name before note after split_ closes
    rw [history] at split_
    rcases note_of_append split_ with ⟨more, same, rest⟩ | ⟨others, same⟩
    · have member : note ∈ notes := by
        rw [rest]
        exact mem_append_right _ mem_cons_self
      have none_ : admissions name more = [] := by
        have all := nothing name
        rw [rest, admissions_append] at all
        exact (append_eq_nil_iff.mp all).1
      refine ⟨?_, closing name note member closes⟩
      rw [same, admissions_append, none_, append_nil]
      exact within name _ (ordered.order name)
    · obtain ⟨earlier, shut⟩ := ordered.closed name before note others same closes
      exact ⟨within name _ earlier, closed name shut⟩

theorem Daemon.Ordered.silent (history : next.history = daemon.history)
    (within : ∀ name order, daemon.Within name order → next.Within name order)
    (closed : ∀ name, daemon.Closed name → next.Closed name) : next.Ordered :=
  ordered.quiet [] (history.trans (append_nil _).symm) (fun _ => rfl) within closed nofun

/-- A step that admits a message keeps the order, if its recipient was not closed or nothing is
handed out any more. -/
theorem Daemon.Ordered.admitted {recipient : String} {id : MessageId}
    (history : next.history = daemon.history ++ [.admitted recipient id])
    (grown : ∀ order, daemon.Within recipient order → next.Within recipient (order ++ [id]))
    (within : ∀ name order, name ≠ recipient ∨ daemon.shutdown = true → daemon.Within name order → next.Within name order)
    (closed : ∀ name, daemon.Closed name → next.Closed name)
    (open_ : daemon.Closed recipient → daemon.shutdown = true) : next.Ordered where
  order := by
    intro name
    rw [history, admissions_append]
    by_cases here : name = recipient
    · subst here
      have one : admissions name [.admitted name id] = [id] := by simp [admissions]
      rw [one]
      exact grown _ (ordered.order name)
    · have none_ : admissions name [.admitted recipient id] = [] := by simp [admissions, Ne.symm here]
      rw [none_, append_nil]
      exact within name _ (.inl here) (ordered.order name)
  closed := by
    intro name before note after split_ closes
    rw [history] at split_
    rcases note_of_append split_ with ⟨more, -, rest⟩ | ⟨others, same⟩
    · -- The new note closes nothing.
      have last : note = .admitted recipient id := by
        have member : note ∈ [Note.admitted recipient id] := by
          rw [rest]
          exact mem_append_right _ mem_cons_self
        exact mem_singleton.mp member
      obtain ⟨other, refused | lost⟩ := closes
      · rw [last] at refused; cases refused
      · rw [last] at lost; cases lost
    · obtain ⟨earlier, shut⟩ := ordered.closed name before note others same closes
      refine ⟨within name _ ?_ earlier, closed name shut⟩
      by_cases here : name = recipient
      · exact .inr (open_ (here ▸ shut))
      · exact .inl here

end History

section Within

variable {daemon next : Daemon} {name : String} {order : List MessageId}

theorem Daemon.Within.kept (within : daemon.Within name order)
    (pushed : pushes name next.history = pushes name daemon.history)
    (fewer : (next.waiting name).Sublist (daemon.waiting name))
    (held : ∀ (thread : Nat) (worker : Worker), next.workers[thread]? = some worker → worker.recipient = name →
      worker.held = [] ∨ ∃ (old : Worker), daemon.workers[thread]? = some old ∧ old.recipient = name ∧ old.held = worker.held) :
    next.Within name order := by
  have queued : (pushes name next.history ++ next.waiting name).Sublist order := by
    rw [pushed]
    exact (fewer.append_left _).trans within.queued
  refine ⟨queued, ?_⟩
  intro thread worker at_ same
  rcases held thread worker at_ same with none_ | ⟨old, before, recipient, kept⟩
  · rw [none_, nil_append]
    exact queued
  · rw [pushed, ← kept]
    exact ((fewer.append_left _).append_left _).trans (within.held before recipient)

variable {queue : RecipientDispatchQueue}

theorem waiting_requeued {other : String} {old : RecipientDispatchQueue} (held : daemon.queues[other]? = some old)
    (queues : next.queues = daemon.queues.insert other queue) (shutdown : next.shutdown = daemon.shutdown)
    (fewer : (queue.pending.map Prod.fst).Sublist (old.pending.map Prod.fst)) :
    (next.waiting name).Sublist (daemon.waiting name) := by
  unfold waiting
  rw [shutdown, queues]
  split
  · exact refl _
  rw [getElem?_insert]
  by_cases here : other = name
  · rw [if_pos here]
    rw [here] at held
    rw [held]
    exact fewer
  · rw [if_neg here]

theorem waiting_dropped {other : String} (queues : next.queues = daemon.queues.erase other)
    (shutdown : next.shutdown = daemon.shutdown) : (next.waiting name).Sublist (daemon.waiting name) := by
  unfold waiting
  rw [shutdown, queues]
  split
  · exact refl _
  rw [getElem?_erase]
  by_cases here : other = name
  · rw [if_pos here]
    exact nil_sublist _
  · rw [if_neg here]

theorem waiting_same (queues : next.queues = daemon.queues) (shutdown : next.shutdown = daemon.shutdown) :
    (next.waiting name).Sublist (daemon.waiting name) := by
  unfold waiting
  rw [shutdown, queues]

theorem held_putWorker {thread : Nat} {moved : Worker} {old : Worker} (at_ : daemon.workers[thread]? = some old)
    (same : moved.recipient = old.recipient) (less : moved.held = [] ∨ moved.held = old.held)
    (i : Nat) (worker : Worker) (found : (daemon.workers.insert thread moved)[i]? = some worker)
    (recipient : worker.recipient = name) :
    worker.held = [] ∨ ∃ (old : Worker), daemon.workers[i]? = some old ∧ old.recipient = name ∧ old.held = worker.held := by
  rcases insert_cases found with ⟨here, rfl⟩ | ⟨_, found⟩
  · rcases less with none_ | kept
    · exact .inl none_
    · exact .inr ⟨old, here ▸ at_, same ▸ recipient, kept.symm⟩
  · exact .inr ⟨worker, found, recipient, rfl⟩

theorem Daemon.Within.grown (within : daemon.Within name order) {id : MessageId}
    (pushed : pushes name next.history = pushes name daemon.history)
    (more : (next.waiting name).Sublist (daemon.waiting name ++ [id])) (workers : next.workers = daemon.workers) :
    next.Within name (order ++ [id]) := by
  refine ⟨?_, ?_⟩
  · rw [pushed]
    refine (more.append_left _).trans ?_
    rw [← append_assoc]
    exact within.queued.append_right _
  · intro thread worker at_ same
    rw [workers] at at_
    rw [pushed]
    refine ((more.append_left _).append_left _).trans ?_
    rw [← append_assoc worker.held, ← append_assoc]
    exact (within.held at_ same).append_right _

theorem waiting_apart {other : String}
    (queues : next.queues = daemon.queues.insert other queue) (shutdown : next.shutdown = daemon.shutdown)
    (apart : name ≠ other ∨ daemon.shutdown = true) : (next.waiting name).Sublist (daemon.waiting name) := by
  unfold waiting
  rw [shutdown, queues]
  rcases apart with differs | shut
  · rw [getElem?_insert, if_neg (Ne.symm differs)]
  · rw [if_pos shut, if_pos shut]

theorem waiting_enqueued {id : MessageId}
    (queues : next.queues = daemon.queues.insert name queue) (shutdown : next.shutdown = daemon.shutdown)
    (filled : queue.pending.map Prod.fst = (daemon.queues[name]?).elim [] (fun old => old.pending.map Prod.fst) ++ [id]) :
    (next.waiting name).Sublist (daemon.waiting name ++ [id]) := by
  unfold waiting
  rw [shutdown, queues, getElem?_insert, if_pos rfl, Option.elim_some]
  split
  · exact nil_sublist _
  · rw [filled]

end Within

variable {queue : RecipientDispatchQueue}

section Closed

variable {daemon next : Daemon} {name : String}

theorem Daemon.Closed.requeue (closed : daemon.Closed name) {other : String} {old : RecipientDispatchQueue}
    (held : daemon.queues[other]? = some old) (queues : next.queues = daemon.queues.insert other queue)
    (over_ : old.overflowed = true → queue.overflowed = true) (shutdown : next.shutdown = daemon.shutdown)
    (fenced : daemon.fenced name = true → next.fenced name = true) : next.Closed name := by
  rcases closed with shut | ⟨found, here, full⟩ | ⟨absent, fence⟩
  · exact .inl (shutdown.trans shut)
  · refine .inr (.inl ?_)
    rw [queues, getElem?_insert]
    by_cases same : other = name
    · rw [same, here] at held
      cases held
      exact ⟨queue, if_pos same, over_ full⟩
    · exact ⟨found, (if_neg same).trans here, full⟩
  · refine .inr (.inr ⟨?_, fenced fence⟩)
    have apart : other ≠ name := by
      intro same
      rw [same, absent] at held
      cases held
    rw [queues, getElem?_insert, if_neg apart]
    exact absent

theorem Daemon.Ordered.requeued (ordered : daemon.Ordered) {other : String} {old : RecipientDispatchQueue}
    (held : daemon.queues[other]? = some old) (queues : next.queues = daemon.queues.insert other queue)
    (over_ : queue.overflowed = old.overflowed) (shutdown : next.shutdown = daemon.shutdown)
    (fenced : next.fenced = daemon.fenced) (history : next.history = daemon.history)
    (within : ∀ name order, daemon.Within name order → next.Within name order) : next.Ordered := by
  refine ordered.silent history within fun name closed => ?_
  refine closed.requeue held queues over_.trans shutdown fun fence => ?_
  rw [fenced]
  exact fence

theorem Daemon.Closed.dropped (closed : daemon.Closed name) {other : String}
    (queues : next.queues = daemon.queues.erase other) (shutdown : next.shutdown = daemon.shutdown)
    (fenced : daemon.fenced name = true → next.fenced name = true)
    (gone : ∀ queue, daemon.queues[other]? = some queue → queue.overflowed = true → daemon.shutdown = false →
      next.fenced other = true) : next.Closed name := by
  by_cases shut : daemon.shutdown = true
  · exact .inl (shutdown.trans shut)
  rcases closed with now | ⟨found, here, full⟩ | ⟨absent, fence⟩
  · exact absurd now shut
  · by_cases same : other = name
    · refine .inr (.inr ⟨?_, ?_⟩)
      · rw [queues, getElem?_erase, if_pos same]
      · exact same ▸ gone found (same ▸ here) full (Bool.not_eq_true _ ▸ shut)
    · refine .inr (.inl ⟨found, ?_, full⟩)
      rw [queues, getElem?_erase, if_neg same]
      exact here
  · refine .inr (.inr ⟨?_, fenced fence⟩)
    rw [queues, getElem?_erase, absent]
    exact ite_self _

theorem Daemon.Closed.same (closed : daemon.Closed name) (queues : next.queues = daemon.queues)
    (shutdown : daemon.shutdown = true → next.shutdown = true)
    (fenced : daemon.fenced name = true → next.fenced name = true) : next.Closed name := by
  rcases closed with shut | full | ⟨absent, fence⟩
  · exact .inl (shutdown shut)
  · exact .inr (.inl (queues ▸ full))
  · exact .inr (.inr ⟨queues ▸ absent, fenced fence⟩)

end Closed

variable {thread : Nat} {daemon next : Daemon} {order : List MessageId} {name recipient : String}

theorem Daemon.Within.handOver (sound : daemon.Sound)
    (within : daemon.Within name order) {old moved : Worker}
    (at_ : daemon.workers[thread]? = some old) (owns : old.owns = true) (recipient : old.recipient = name)
    (workers : next.workers = daemon.workers.insert thread moved) (empty : moved.held = [])
    (total : (pushes name next.history ++ next.waiting name).Sublist
      (pushes name daemon.history ++ (old.held ++ daemon.waiting name))) : next.Within name order := by
  have queued := total.trans (within.held at_ recipient)
  refine ⟨queued, ?_⟩
  intro i worker found same
  have none_ : worker.held = [] := by
    rw [workers] at found
    rcases insert_cases found with ⟨_, rfl⟩ | ⟨here, found⟩
    · exact empty
    apply Worker.held_gone
    rw [Bool.eq_false_iff]
    intro also
    exact here (sound.unique at_ found owns also (recipient.trans same.symm))
  rw [none_, nil_append]
  exact queued

theorem pushes_apart {other : String} {id : MessageId} (apart : other ≠ name) (past : List Note) :
    pushes name (past ++ [.pushed other id]) = pushes name past := by
  simp [pushes, apart]

theorem take_within {id : MessageId}
    {now : At} {rest : List (MessageId × At)} (open_ : daemon.shutdown = false)
    (held : daemon.queues[recipient]? = some queue) (next : queue.pending = (id, now) :: rest)
    (within : daemon.Within name order) :
    Within ((daemon.putQueue recipient { queue with pending := rest, inFlight := some id }).putWorker thread
      ⟨recipient, .holding ⟨id, now, queue.routeGeneration⟩⟩) name order := by
  have fewer : (waiting ((daemon.putQueue recipient
      { queue with pending := rest, inFlight := some id }).putWorker thread
        ⟨recipient, .holding ⟨id, now, queue.routeGeneration⟩⟩) name).Sublist (daemon.waiting name) := by
    refine waiting_requeued held rfl rfl ?_
    rw [next]
    exact sublist_cons_self _ _
  refine ⟨(fewer.append_left _).trans within.queued, ?_⟩
  intro i worker found same
  simp only [putWorker, getElem?_insert] at found
  by_cases mine : thread = i
  · -- The worker itself: what it holds is what the queue lost.
    rw [if_pos mine] at found
    cases found
    subst same
    have queued := within.queued
    have shut : ¬daemon.shutdown = true := by
      rw [open_]
      exact Bool.false_ne_true
    have all : daemon.waiting recipient = id :: rest.map Prod.fst := by
      rw [waiting, if_neg shut, held, Option.elim_some, next, map_cons]
    have less : waiting ((daemon.putQueue recipient { queue with pending := rest, inFlight := some id }).putWorker
        thread ⟨recipient, .holding ⟨id, now, queue.routeGeneration⟩⟩) recipient = rest.map Prod.fst := by
      simp [waiting, putQueue, putWorker, open_]
    rw [all] at queued
    rw [less]
    exact queued
  · rw [if_neg mine] at found
    exact ((fewer.append_left _).append_left _).trans (within.held found same)

theorem handedBack_within (sound : daemon.Sound) {job : Job}
    {moved : Worker} {back : RecipientDispatchQueue}
    (at_ : daemon.workers[thread]? = some ⟨recipient, .dispatched job true (some false)⟩)
    (held : daemon.queues[recipient]? = some queue) (pending : back.pending = (job.id, job.now) :: queue.pending)
    (same : moved.recipient = recipient) (empty : moved.held = [])
    (within : daemon.Within name order) : ((daemon.putQueue recipient back).putWorker thread moved).Within name order := by
  by_cases here : recipient = name
  · subst here
    refine within.handOver sound at_ rfl rfl rfl empty (append_left ?_ _)
    simp only [waiting, putWorker, putQueue, getElem?_insert, if_true, held, Option.elim_some]
    split
    · exact nil_sublist _
    · rw [pending, map_cons]
      exact refl _
  · exact within.kept rfl (waiting_apart rfl rfl (.inl (Ne.symm here))) (held_putWorker at_ same (.inl empty))

theorem dispatch_within (sound : daemon.Sound) {job : Job}
    {notes : List Note} {attempted : Option Bool} (at_ : daemon.workers[thread]? = some ⟨recipient, .holding job⟩)
    (pass : notes = [] ∨ notes = [.pushed recipient job.id] ∧ attempted = some true)
    (within : daemon.Within name order) :
    ((daemon.note notes).putWorker thread ⟨recipient, .dispatched job true attempted⟩).Within name order := by
  rcases pass with rfl | ⟨rfl, rfl⟩
  · refine within.kept (congrArg _ (append_nil _)) (refl _) ?_
    refine held_putWorker at_ rfl ?_
    rcases attempted with _ | pushed
    · exact .inl rfl
    cases pushed with
    | true => exact .inl rfl
    | false => exact .inr rfl
  · by_cases here : recipient = name
    · subst here
      refine within.handOver sound at_ rfl rfl rfl rfl ?_
      have one : pushes recipient [.pushed recipient job.id] = [job.id] := by simp [pushes]
      have all : pushes recipient ((daemon.note [.pushed recipient job.id]).putWorker thread
          ⟨recipient, .dispatched job true (some true)⟩).history = pushes recipient daemon.history ++ [job.id] := by
        rw [← one]
        exact pushes_append recipient daemon.history _
      rw [all, append_assoc]
      exact refl _
    · refine within.kept (pushes_apart here _) (refl _) ?_
      exact held_putWorker at_ rfl (.inl rfl)

theorem refused_closes {id : MessageId} (closes : (Note.refused recipient id).closes name) :
    recipient = name := by
  obtain ⟨other, same | same⟩ := closes
  · cases same
    rfl
  · cases same

theorem unconfirmed_closes {id : MessageId}
    (closes : (Note.unconfirmed recipient id).closes name) : recipient = name := by
  obtain ⟨other, same | same⟩ := closes
  · cases same
  · cases same
    rfl

theorem move_ordered (sound : daemon.Sound) (ordered : daemon.Ordered) (move : Move daemon next) :
    next.Ordered := by
  have unmoved : ∀ {name : String} (thread : Nat) (worker : Worker), daemon.workers[thread]? = some worker →
      worker.recipient = name → worker.held = [] ∨ ∃ (old : Worker), daemon.workers[thread]? = some old ∧
        old.recipient = name ∧ old.held = worker.held := fun _ worker at_ same => .inr ⟨worker, at_, same, rfl⟩
  cases move with
  | @enqueue recipient queue id now held room =>
    refine ordered.admitted rfl ?_ ?_ ?_ ?_
    · intro order within
      refine within.grown (by simp [note, putQueue, pushes]) (waiting_enqueued rfl rfl ?_) rfl
      rw [held, Option.elim_some, map_append]
      rfl
    · intro name order apart within
      exact within.kept (by simp [note, putQueue, pushes]) (waiting_apart rfl rfl apart) unmoved
    · intro name closed
      exact closed.requeue held rfl (fun full => full) rfl fun fence => fence
    rintro (shut | ⟨found, here, full⟩ | ⟨absent, -⟩)
    · exact shut
    · rw [held] at here
      cases here
      rw [room] at full
      cases full
    · rw [held] at absent
      cases absent
  | @track recipient id now absent unfenced =>
    refine ordered.admitted rfl ?_ ?_ ?_ ?_
    · intro order within
      refine within.grown (by simp [note, putQueue, pushes]) (waiting_enqueued rfl rfl ?_) rfl
      rw [absent]
      rfl
    · intro name order apart within
      exact within.kept (by simp [note, putQueue, pushes]) (waiting_apart rfl rfl apart) unmoved
    · rintro name (shut | ⟨found, here, full⟩ | ⟨none_, fence⟩)
      · exact .inl shut
      · refine .inr (.inl ⟨found, ?_, full⟩)
        have apart : recipient ≠ name := by
          rintro rfl
          rw [absent] at here
          cases here
        exact (getElem?_insert _ _ _ _).trans ((if_neg apart).trans here)
      · refine .inr (.inr ⟨?_, fence⟩)
        have apart : recipient ≠ name := by
          rintro rfl
          rw [unfenced] at fence
          cases fence
        exact (getElem?_insert _ _ _ _).trans ((if_neg apart).trans none_)
    · rintro (shut | ⟨found, here, -⟩ | ⟨-, fence⟩)
      · exact shut
      · rw [absent] at here
        cases here
      · rw [unfenced] at fence
        cases fence
  | @overflow recipient queue id held =>
    refine ordered.quiet [.refused recipient id] rfl (by simp [admissions]) ?_ ?_ ?_
    · intro name order within
      exact within.kept (by simp [note, putQueue, pushes])
        (waiting_requeued held rfl rfl (refl _)) unmoved
    · intro name closed
      exact closed.requeue held rfl (fun _ => rfl) rfl fun fence => fence
    · intro name note member closes
      rw [mem_singleton.mp member] at closes
      obtain rfl := refused_closes closes
      exact .inr (.inl ⟨_, (getElem?_insert _ _ _ _).trans (if_pos rfl), rfl⟩)
  | @refuse recipient id absent fenced =>
    refine ordered.quiet [.refused recipient id] rfl (by simp [admissions]) ?_ ?_ ?_
    · intro name order within
      exact within.kept (by simp [note, pushes]) (waiting_same rfl rfl) unmoved
    · intro name closed
      exact closed
    · intro name note member closes
      rw [mem_singleton.mp member] at closes
      obtain rfl := refused_closes closes
      exact .inr (.inr ⟨absent, fenced⟩)
  | @untracked recipient id absent =>
    refine ordered.quiet [.refused recipient id] (by simp [note]) (by simp [admissions]) ?_ ?_ ?_
    · intro name order within
      refine within.kept (by simp [note, pushes]) (waiting_same ?_ ?_) ?_
      · simp [note]
      · simp [note]
      · simpa [note] using unmoved
    · intro name closed
      refine closed.same ?_ ?_ ?_
      · simp [note]
      · simp [note]
      · exact retainOverflowFence_keeps daemon recipient
    · intro name note member closes
      rw [mem_singleton.mp member] at closes
      obtain rfl := refused_closes closes
      exact .inr (.inr ⟨by simpa [Daemon.note] using absent, retainOverflowFence_fenced daemon recipient⟩)
  | touch held | wait held _ _ _ =>
    refine ordered.requeued held rfl rfl rfl rfl rfl ?_
    intro name order within
    exact within.kept rfl (waiting_requeued held rfl rfl (refl _)) unmoved
  | spawn held _ _ =>
    refine ordered.requeued held rfl rfl rfl rfl rfl ?_
    intro name order within
    refine within.kept rfl (waiting_requeued held rfl rfl (refl _)) ?_
    intro thread worker found same
    rcases insert_cases found with ⟨_, rfl⟩ | ⟨_, found⟩
    · exact .inl rfl
    · exact .inr ⟨worker, found, same, rfl⟩
  | @fail recipient queue held _ =>
    refine ordered.quiet [] (by simp [dropQueue]) (by simp [admissions]) ?_ ?_ (by simp)
    · intro name order within
      refine within.kept (by simp [dropQueue]) (@waiting_dropped daemon _ name recipient ?_ ?_) ?_
      · simp [dropQueue]
      · simp [dropQueue]
      · simpa [dropQueue] using unmoved
    · intro name closed
      refine @Closed.dropped daemon _ name closed recipient ?_ ?_ ?_ ?_
      · simp [dropQueue]
      · simp [dropQueue]
      · exact retainOverflowFence_keeps daemon recipient
      · intro _ _ _ _
        exact retainOverflowFence_fenced daemon recipient
  | take at_ open_ held next =>
    refine ordered.requeued held rfl rfl rfl rfl rfl ?_
    intro name order within
    exact take_within open_ held next within
  | lookup at_ =>
    refine ordered.silent rfl ?_ fun _ closed => closed
    intro name order within
    exact within.kept rfl (waiting_same rfl rfl) (held_putWorker at_ rfl (.inl rfl))
  | @dispatch thread recipient job notes attempted at_ pass =>
    refine ordered.quiet notes rfl ?_ ?_ ?_ ?_
    · intro name
      rcases pass with rfl | ⟨rfl, -⟩ <;> simp [admissions]
    · intro name order within
      exact dispatch_within sound at_ pass within
    · intro name closed
      exact closed
    intro name note member closes
    rcases pass with rfl | ⟨rfl, -⟩
    · cases member
    · obtain ⟨other, is | is⟩ := closes
      · rw [mem_singleton.mp member] at is; cases is
      · rw [mem_singleton.mp member] at is; cases is
  | resolve at_ held =>
    refine ordered.requeued held rfl rfl rfl rfl rfl ?_
    intro name order within
    exact within.kept rfl (waiting_requeued held rfl rfl (refl _)) (held_putWorker at_ rfl (.inl rfl))
  | retry at_ held | park at_ held _ =>
    refine ordered.requeued held rfl rfl rfl rfl rfl ?_
    intro name order within
    refine handedBack_within sound at_ held ?_ ?_ ?_ within
    all_goals rfl
  | @depart thread worker queue at_ _ held ends =>
    refine ordered.silent rfl ?_ ?_
    · intro name order within
      exact within.kept rfl (waiting_dropped rfl rfl) (held_putWorker at_ rfl (.inl rfl))
    intro name closed
    refine closed.dropped rfl rfl (fun fence => fence) ?_
    intro found here full open_
    rw [held] at here
    cases here
    rcases ends with shut | room
    · rw [open_] at shut
      cases shut
    · rw [room] at full
      cases full
  | @expel thread worker queue notes at_ _ _ told =>
    refine ordered.quiet notes (by simp [leave, putWorker, dropQueue, note]) ?_ ?_ ?_ ?_
    · intro name
      rcases told with rfl | ⟨id, rfl⟩ <;> simp [admissions]
    · intro name order within
      refine within.kept ?_ (@waiting_dropped daemon _ name worker.recipient ?_ ?_) ?_
      · rcases told with rfl | ⟨id, rfl⟩ <;> simp [leave, putWorker, dropQueue, note, pushes]
      · simp [leave, putWorker, dropQueue, note]
      · simp [leave, putWorker, dropQueue, note]
      · intro i found here same
        have moved : (daemon.workers.insert thread ⟨worker.recipient, .leaving⟩)[i]? = some found := by
          simpa [leave, putWorker, dropQueue, note] using here
        exact @held_putWorker daemon name thread ⟨worker.recipient, .leaving⟩ worker at_ rfl (.inl rfl) i found moved same
    · intro name closed
      refine @Closed.dropped daemon _ name closed worker.recipient ?_ ?_ ?_ ?_
      · simp [leave, putWorker, dropQueue, note]
      · simp [leave, putWorker, dropQueue, note]
      · exact retainOverflowFence_keeps (daemon.note notes) worker.recipient
      · intro _ _ _ _
        exact retainOverflowFence_fenced (daemon.note notes) worker.recipient
    · intro name note member closes
      have here : worker.recipient = name := by
        rcases told with rfl | ⟨id, rfl⟩
        · cases member
        · rw [mem_singleton.mp member] at closes
          exact unconfirmed_closes closes
      subst here
      refine .inr (.inr ⟨?_, retainOverflowFence_fenced (daemon.note notes) worker.recipient⟩)
      exact (getElem?_erase _ _ _).trans (if_pos rfl)
  | snapshot at_ _ =>
    refine ordered.silent rfl ?_ fun _ closed => closed
    intro name order within
    exact within.kept rfl (waiting_same rfl rfl) (held_putWorker at_ rfl (.inl rfl))
  | requestShutdown =>
    refine ordered.silent rfl ?_ ?_
    · intro name order within
      exact within.kept rfl (nil_sublist _) unmoved
    · intro name _
      exact .inl rfl

theorem moves_ordered (sound : daemon.Sound) (ordered : daemon.Ordered)
    (moves : Moves daemon next) : next.Ordered := by
  induction moves with
  | refl => exact ordered
  | tail past move ih => exact move_ordered (moves_sound sound past) ih move

theorem Daemon.Ordered.dropWorker (ordered : daemon.Ordered) (thread : Nat) :
    (daemon.dropWorker thread).Ordered := by
  refine ordered.silent rfl ?_ ?_
  · intro name order within
    refine within.kept rfl (waiting_same rfl rfl) ?_
    intro i worker found same
    simp only [Daemon.dropWorker, getElem?_erase] at found
    split at found
    · cases found
    · exact .inr ⟨worker, found, same, rfl⟩
  · intro name closed
    exact closed

theorem step_ordered (spawns : Nat → Bool) (sound : daemon.Sound) (ordered : daemon.Ordered)
    {event : Event} (single : event.Single) : (step spawns daemon event).Ordered := by
  rcases step_cases spawns sound single with moves | ⟨thread, -, -, -, same⟩ | ⟨thread, -, candidates, -, same⟩
  · exact moves_ordered sound ordered moves
  · rw [same]
    exact ordered.dropWorker thread
  · rw [same]
    exact (moves_ordered sound ordered (startWaiters_moves spawns daemon candidates)).dropWorker thread

theorem run_kept (spawns : Nat → Bool) {events : List Event} (single : ∀ event ∈ events, event.Single) :
    (run spawns events).Kept ∧ (run spawns events).Ordered := by
  have carried : ∀ (events : List Event) (daemon : Daemon), (∀ event ∈ events, event.Single) →
      daemon.Kept ∧ daemon.Ordered → (events.foldl (step spawns) daemon).Kept ∧ (events.foldl (step spawns) daemon).Ordered := by
    intro events
    induction events with
    | nil => exact fun daemon _ held => held
    | cons event rest ih =>
      intro daemon single held
      have first := single event mem_cons_self
      exact ih (step spawns daemon event) (fun other member => single other (mem_cons_of_mem _ member))
        ⟨step_kept spawns held.1 first, step_ordered spawns held.1.sound held.2 first⟩
  exact carried events .start single ⟨start_kept, start_ordered⟩

/-- In every run in which each message has one receipt per recipient name: no recipient is pushed
to twice at a time; the pushes to it come in the order of their admissions; after a message was
left in its inbox or a push to it was not confirmed, nothing admitted later is pushed; at most the
allowed workers run; and, until a shutdown is requested, whoever waits for a slot waits while all
are taken or for a worker that has still to look. -/
theorem recipient_pushes_ordered (spawns : Nat → Bool) {events : List Event} (single : ∀ event ∈ events, event.Single) :
    (∀ (i j : Nat) (v w : Worker), (run spawns events).workers[i]? = some v → (run spawns events).workers[j]? = some w →
      v.pushing = true → w.pushing = true → v.recipient = w.recipient → i = j) ∧
    (∀ name, (pushes name (run spawns events).history).Sublist (admissions name (run spawns events).history)) ∧
    (∀ name before note after, (run spawns events).history = before ++ note :: after → note.closes name →
      (pushes name (run spawns events).history).Sublist (admissions name before)) ∧
    (run spawns events).running ≤ maxDispatchRecipients ∧
    ((run spawns events).shutdown = false → ∀ (name : String) (queue : RecipientDispatchQueue),
      (run spawns events).queues[name]? = some queue → queue.waitingForCapacity = true →
        (run spawns events).running = maxDispatchRecipients ∨
          ∃ (thread : Nat) (worker : Worker), (run spawns events).workers[thread]? = some worker ∧ worker.wakes name) := by
  obtain ⟨kept, ordered⟩ := run_kept spawns single
  have counted := kept.sound.counted
  have bounded := kept.sound.bounded
  refine ⟨?_, ?_, ?_, ?_, ?_⟩
  · intro i j v w first second one two shared
    exact kept.sound.push_alone first second one two shared
  · intro name
    exact (sublist_append_left _ _).trans (ordered.order name).queued
  · intro name before note after split_ closes
    exact (sublist_append_left _ _).trans (ordered.closed name before note after split_ closes).1.queued
  · omega
  · intro open_ name queue held waiting
    rcases kept.attended open_ name queue held waiting with full | ⟨thread, worker, -, at_, wakes⟩ | none_
    · exact .inl (by omega)
    · exact .inr ⟨thread, worker, at_, wakes⟩
    · cases none_

namespace Sample

def at_ : At := ⟨0, Nat.zero_le _⟩

def id (n : Nat) : MessageId := ⟨⟨"urn:uuid:" ++ toString n⟩⟩

def receipt (n : Nat) (status : DeliveryStatus) : DeliveryReceipt :=
  { messageId := id n, recipientId := ⟨"urn:fl:agent:ferris"⟩, recipientName := "ferris", status, attempts := 0
    updatedAt := at_, ackedAt := none }

/-- Two messages arrive, the first is confirmed, the second is not, and a third arrives too late. -/
def events : List Event :=
  [.schedule (id 1) [receipt 1 .pending] at_, .take 0, .schedule (id 2) [receipt 2 .pending] at_,
    .dispatch 0 true (some [receipt 1 .pending]) (fun _ => true), .finish 0 (.read (some [receipt 1 .acked])), .take 0,
    .dispatch 0 true (some [receipt 2 .pending]) (fun _ => true), .finish 0 (.read (some [receipt 2 .pending])),
    .schedule (id 3) [receipt 3 .pending] at_, .snapshot 0, .wake 0]

end Sample

theorem recipient_pushes_ordered_sample :
    pushes "ferris" (run (fun _ => true) Sample.events).history = [Sample.id 1, Sample.id 2] ∧
      (pushes "ferris" (run (fun _ => true) Sample.events).history).Sublist
        (admissions "ferris" (run (fun _ => true) Sample.events).history) := by
  refine ⟨by decide +kernel, (recipient_pushes_ordered (fun _ => true) ?_).2.1 "ferris"⟩
  intro event member
  simp only [Sample.events, mem_cons, not_mem_nil, or_false] at member
  rcases member with rfl | rfl | rfl | rfl | rfl | rfl | rfl | rfl | rfl | rfl | rfl <;>
    simp [Event.Single, Single]

end FerroLoop.Wire.Dispatch

import FerroLoop.Session.Eviction

namespace FerroLoop.Session

open Std Store Machine List Server Table Value ExtHashMap

structure Server.Inv (server : Server) (clock : Instant) : Prop where
  sound : server.table.Sound clock
  running : ∀ thread key method claimed, server.threads thread = .running key method claimed →
    server.table.entries[key]? = some ⟨claimed, method, none⟩
  alone : ∀ thread other key method method' claimed claimed', server.threads thread = .running key method claimed →
    server.threads other = .running key method' claimed' → thread = other

variable {table : Table} {entry : Entry} {key : Key} {clock : Instant}

theorem Table.finish_entries (held : table.entries[key]? = some entry)
    (reply : Value) (other : Key) : (table.finish key entry.claimed reply).entries[other]? =
      if key = other then some { entry with reply := some reply } else table.entries[other]? := by
  simp only [finish, live_entry held, ExtHashMap.getElem?_insert, beq_iff_eq]

theorem Table.finish_sound (sound : table.Sound clock)
    (held : table.entries[key]? = some entry) (reply : Value) : (table.finish key entry.claimed reply).Sound clock := by
  have order : (table.finish key entry.claimed reply).order = table.order := by
    simp only [finish, live_entry held]
  have counts : (table.finish key entry.claimed reply).held = table.held := by
    simp only [finish, live_entry held]
  have size : (table.finish key entry.claimed reply).entries.size = table.entries.size := by
    have member : key ∈ table.entries := by
      rw [mem_iff_isSome_getElem?, held]
      rfl
    simp only [finish, live_entry held, size_insert, if_pos member]
  refine ⟨?_, ?_, ?_, ?_, ?_, ?_⟩
  · rw [order]
    exact sound.sorted
  · rw [order]
    exact sound.past
  · intro other found there
    rw [order]
    rw [finish_entries held] at there
    split at there
    · rename_i same
      cases there
      subst same
      exact sound.listed key entry held
    · exact sound.listed other found there
  · obtain ⟨keys, distinct, listed, counted⟩ := sound.counted
    refine ⟨keys, distinct, ?_, ?_⟩
    · intro other
      rw [listed, finish_entries held]
      split
      · rename_i same
        rw [← same, held]
        simp
      · rfl
    · intro principal
      rw [heldBy, counts]
      exact counted principal
  · rw [size]
    exact sound.room
  · intro principal applies
    rw [heldBy, counts]
    exact sound.quota principal applies

theorem Table.remove_sound (sound : table.Sound clock)
    (held : table.entries[key]? = some entry) : (table.remove key).Sound clock := by
  have smaller := remove_size held
  have room := sound.room
  refine ⟨?_, ?_, ?_, sound.counted.remove key, by omega, ?_⟩
  · rw [remove_order]
    exact sound.sorted
  · rw [remove_order]
    exact sound.past
  · intro other found there
    rw [remove_order]
    rw [remove_entries] at there
    split at there
    · cases there
    · exact sound.listed other found there
  · intro principal applies
    have most := sound.quota principal applies
    rw [remove_heldBy held]
    split <;> omega

variable {now : Instant}

section Step

variable {server : Server} {clock : Instant} {event : Event}

theorem setThread_same (threads : Nat → Thread) (thread : Nat) (now : Thread) :
    setThread threads thread now thread = now := if_pos rfl

variable {thread : Nat} {claimed : Instant} {method : String}

theorem setThread_other (threads : Nat → Thread) {other : Nat} (now : Thread) (differ : other ≠ thread) :
    setThread threads thread now other = threads other := if_neg differ

variable {key : Key}

/-- A thread that is running after a step of another thread, or of a thread that now idles, was
running before. -/
theorem running_before {threads : Nat → Thread} {other : Nat} {now : Thread}
    (runs : setThread threads thread now other = .running key method claimed)
    (idle : ∀ key method claimed, now ≠ .running key method claimed) :
    other ≠ thread ∧ threads other = .running key method claimed := by
  by_cases same : other = thread
  · subst same
    rw [setThread_same] at runs
    exact absurd runs (idle key method claimed)
  · rw [setThread_other _ _ same] at runs
    exact ⟨same, runs⟩

def Server.asked (server : Server) (event : Event) : Option (Key × String) :=
  match event.action, server.threads event.thread with
  | .claim key method, .idle => some (key, method)
  | .wake, .waiting key method => some (key, method)
  | _, _ => none

theorem step_cases (server : Server) (event : Event) :
    (∃ key method, server.asked event = some (key, method) ∧
      server.step event = server.turn event.thread key method event.time) ∨
    (∃ reply key method claimed, event.action = .finish reply ∧
      server.threads event.thread = .running key method claimed ∧
      (server.step event).1 =
        { table := server.table.finish key claimed reply
          threads := setThread server.threads event.thread .idle
          answered := fun other => if other = key then some event.time else server.answered other }) ∨
    (∃ key method claimed, server.threads event.thread = .running key method claimed ∧
      (server.step event).1 =
        { server with
          table := server.table.release? key claimed
          threads := setThread server.threads event.thread .idle }) ∨
    (server.asked event = none ∧ (server.step event).1 = server) := by
  have nothing : server.asked event = none → server.step event = (server, .skipped) →
      server.asked event = none ∧ (server.step event).1 = server := fun unasked skipped => ⟨unasked, by rw [skipped]⟩
  cases action : event.action with
  | claim key method =>
    cases position : server.threads event.thread with
    | idle => exact .inl ⟨key, method, by simp only [asked, action, position],
        by simp only [step, action, position]⟩
    | waiting _ _ | running _ _ _ => exact .inr (.inr (.inr (nothing (by simp only [asked, action, position])
        (by simp only [step, action, position]))))
  | wake =>
    cases position : server.threads event.thread with
    | waiting key method => exact .inl ⟨key, method, by simp only [asked, action, position],
        by simp only [step, action, position]⟩
    | idle | running _ _ _ => exact .inr (.inr (.inr (nothing (by simp only [asked, action, position])
        (by simp only [step, action, position]))))
  | finish reply =>
    cases position : server.threads event.thread with
    | running key method claimed => exact .inr (.inl ⟨reply, key, method, claimed, rfl, rfl,
        by simp only [step, action, position]⟩)
    | idle | waiting _ _ => exact .inr (.inr (.inr (nothing (by simp only [asked, action])
        (by simp only [step, action, position]))))
  | drop =>
    cases position : server.threads event.thread with
    | running key method claimed => exact .inr (.inr (.inl ⟨key, method, claimed, rfl,
        by simp only [step, action, position]⟩))
    | idle | waiting _ _ => exact .inr (.inr (.inr (nothing (by simp only [asked, action])
        (by simp only [step, action, position]))))

variable {name : String}

theorem turn_thread_running {turn : Turn} {asked : Key}
    (runs : turn.thread asked name now = .running key method claimed) :
    turn = .run ∧ key = asked ∧ method = name ∧ claimed = now := by
  cases turn with
  | run =>
    obtain ⟨rfl, rfl, rfl⟩ := Thread.running.inj runs
    exact ⟨rfl, rfl, rfl, rfl⟩
  | refused _ | replay _ | wait => cases runs

theorem turn_inv (inv : server.Inv clock) {asked : Key}
    (later : clock ≤ now) : (server.turn thread asked name now).1.Inv now := by
  have turned : Turned server.table (claimTurn server.table asked name now).1 asked name now
      (claimTurn server.table asked name now).2 := claimTurn_turned inv.sound later
  have runs : ∀ other key method claimed, (server.turn thread asked name now).1.threads other = .running key method claimed →
      (other = thread ∧ (claimTurn server.table asked name now).2 = .run ∧ key = asked ∧ method = name ∧ claimed = now) ∨
      (other ≠ thread ∧ server.threads other = .running key method claimed) := by
    intro other key method claimed position
    by_cases same : other = thread
    · subst same
      have own : (Turn.thread asked name now (claimTurn server.table asked name now).2) = .running key method claimed := by
        rw [← setThread_same server.threads other (Turn.thread asked name now _)]
        exact position
      exact .inl ⟨rfl, turn_thread_running own⟩
    · have before : setThread server.threads thread _ other = .running key method claimed := position
      rw [setThread_other _ _ same] at before
      exact .inr ⟨same, before⟩
  -- A running entry stays, so its id does not run a second time.
  have stays : ∀ other key method claimed, server.threads other = .running key method claimed →
      server.table.Stays asked now key ⟨claimed, method, none⟩ := by
    intro other key method claimed position answered
    cases answered
  have taken : ∀ other method claimed, server.threads other = .running asked method claimed →
      (claimTurn server.table asked name now).2 ≠ .run := by
    intro other method claimed position run
    exact (turned.running run).2 _ (inv.running _ _ _ _ position) (stays _ _ _ _ position)
  refine ⟨turned.sound, ?_, ?_⟩
  · intro other key method claimed position
    rcases runs other key method claimed position with ⟨-, run, rfl, rfl, rfl⟩ | ⟨-, before⟩
    · exact (turned.running run).1
    · exact turned.kept key _ (inv.running _ _ _ _ before) (stays _ _ _ _ before)
  intro one other key method method' claimed claimed' first second
  rcases runs _ _ _ _ first with ⟨rfl, run, rfl, -, -⟩ | ⟨-, before⟩
  · rcases runs _ _ _ _ second with ⟨rfl, -⟩ | ⟨-, also⟩
    · rfl
    · exact absurd run (taken _ _ _ also)
  · rcases runs _ _ _ _ second with ⟨-, run, rfl, -, -⟩ | ⟨-, also⟩
    · exact absurd run (taken _ _ _ before)
    · exact inv.alone _ _ _ _ _ _ _ before also

variable {table : Table}

theorem ended_inv (inv : server.Inv clock) (later : clock ≤ event.time)
    (position : server.threads event.thread = .running key method claimed) (sound : table.Sound clock)
    (others : ∀ other, key ≠ other → table.entries[other]? = server.table.entries[other]?)
    (answered : Key → Option Instant) :
    Inv ⟨table, setThread server.threads event.thread .idle, answered⟩ event.time := by
  refine ⟨sound.mono later, ?_, ?_⟩
  · intro other key' method' claimed' runs
    obtain ⟨differ, before⟩ := running_before runs (by simp)
    have apart : key ≠ key' := by
      rintro rfl
      exact differ (inv.alone _ _ _ _ _ _ _ before position)
    show table.entries[key']? = _
    rw [others key' apart]
    exact inv.running _ _ _ _ before
  · intro one other key' method' method'' claimed' claimed'' first second
    exact inv.alone _ _ _ _ _ _ _ (running_before first (by simp)).2 (running_before second (by simp)).2

theorem release_running {entry : Entry} (held : table.entries[key]? = some entry) :
    table.release? key entry.claimed = table.remove key := by
  unfold release?
  rw [live_entry held]
  rfl

theorem step_inv (inv : server.Inv clock) (later : clock ≤ event.time) : (server.step event).1.Inv event.time := by
  rcases step_cases server event with ⟨key, method, -, turns⟩ | ⟨reply, key, method, claimed, -, position, ends⟩ |
    ⟨key, method, claimed, position, ends⟩ | ⟨-, same⟩
  · rw [turns]
    exact turn_inv inv later
  · have held := inv.running _ _ _ _ position
    rw [ends]
    refine ended_inv inv later position (finish_sound inv.sound held reply) ?_ _
    intro other apart
    rw [finish_entries held, if_neg apart]
  · have held := inv.running _ _ _ _ position
    rw [ends]
    have sound : (server.table.release? key claimed).Sound clock := by
      rw [release_running held]
      exact remove_sound inv.sound held
    refine ended_inv inv later position sound ?_ _
    intro other apart
    rw [release_running held, remove_entries, if_neg apart]
  · rw [same]
    exact ⟨inv.sound.mono later, inv.running, inv.alone⟩

theorem start_inv : start.Inv 0 := by
  refine ⟨⟨List.Pairwise.nil, ?_, ?_, ?_, ?_, ?_⟩, ?_, ?_⟩
  · intro item member
    cases member
  · intro key entry held
    rw [show start.table.entries = ∅ from rfl, getElem?_empty] at held
    cases held
  · refine ⟨[], nodup_nil, ?_, ?_⟩
    · intro key
      rw [show start.table.entries = ∅ from rfl, getElem?_empty]
      simp
    · intro principal
      simp [heldBy, start, empty]
  · exact Nat.zero_le _
  · intro principal _
    simp [heldBy, start, empty]
  · intro thread key method claimed position
    cases position
  · intro thread other key method method' claimed claimed' position
    cases position

end Step

/-- The clock of a run never goes back. -/
def Forward (events : List Event) : Prop := events.Pairwise fun a b => a.time ≤ b.time

variable {server : Server} {events : List Event}

theorem run_inv (inv : server.Inv clock)
    (forward : Forward events) (later : ∀ event ∈ events, clock ≤ event.time) :
    ∃ clock', (run step server events).Inv clock' ∧
      (clock' = clock ∨ ∃ event ∈ events, clock' = event.time) := by
  induction events generalizing server clock with
  | nil => exact ⟨clock, inv, .inl rfl⟩
  | cons event rest ih =>
    obtain ⟨first, forwardRest⟩ := pairwise_cons.mp forward
    have next := step_inv inv (later event mem_cons_self)
    obtain ⟨clock', inv', reached⟩ := ih next forwardRest first
    refine ⟨clock', inv', ?_⟩
    rcases reached with rfl | ⟨last, member, rfl⟩
    · exact .inr ⟨event, mem_cons_self, rfl⟩
    · exact .inr ⟨last, mem_cons_of_mem _ member, rfl⟩

/-- An answered id that is still promised a replay: its answer is not older than the least age, or
a thread waits for it. -/
def Server.Promised (server : Server) (now : Instant) (key : Key) (entry : Entry) : Prop :=
  (∃ time, server.answered key = some time ∧ now ≤ time + dedupMinAge) ∨
    ∃ thread, server.threads thread = .waiting key entry.method

def Server.Keeps (server : Server) (event : Event) : Prop :=
  ∀ asked method, server.asked event = some (asked, method) → ∀ key entry, server.table.entries[key]? = some entry →
    entry.reply.isSome → server.Promised event.time key entry → ¬ server.table.Forgets asked event.time key entry

structure Server.Holds (server : Server) (key : Key) (entry : Entry) (reply : Value) (time : Instant) : Prop where
  held : server.table.entries[key]? = some entry
  reply : entry.reply = some reply
  answered : server.answered key = some time

variable {method : String}

section Promise

variable {server : Server} {clock time : Instant} {event : Event} {key : Key} {entry : Entry} {reply : Value}

variable {thread : Nat} {claimed : Instant}

theorem Server.Holds.not_running (holds : server.Holds key entry reply time) (inv : server.Inv clock)
    {other : Key} (position : server.threads thread = .running other method claimed) :
    other ≠ key := by
  rintro rfl
  have running := inv.running _ _ _ _ position
  rw [holds.held] at running
  have answered := holds.reply
  rw [Option.some.inj running] at answered
  cases answered

theorem step_holds (inv : server.Inv clock) (later : clock ≤ event.time) (holds : server.Holds key entry reply time)
    (keeps : server.Keeps event) (promised : server.Promised event.time key entry) :
    (server.step event).1.Holds key entry reply time := by
  rcases step_cases server event with ⟨asked, method, asks, turns⟩ | ⟨given, other, method, claimed, -, position, ends⟩ |
    ⟨other, method, claimed, position, ends⟩ | ⟨-, same⟩
  · have turned : Turned server.table (claimTurn server.table asked method event.time).1 asked method event.time
        (claimTurn server.table asked method event.time).2 := claimTurn_turned inv.sound later
    rw [turns]
    refine ⟨turned.kept key entry holds.held ?_, holds.reply, holds.answered⟩
    intro answered
    exact keeps asked method asks key entry holds.held answered promised
  · have apart := holds.not_running inv position
    have running := inv.running _ _ _ _ position
    rw [ends]
    refine ⟨?_, holds.reply, ?_⟩
    · show (server.table.finish other claimed given).entries[key]? = some entry
      rw [finish_entries running, if_neg apart]
      exact holds.held
    · show (if key = other then _ else _) = _
      rw [if_neg (Ne.symm apart)]
      exact holds.answered
  · have apart := holds.not_running inv position
    have running := inv.running _ _ _ _ position
    rw [ends]
    refine ⟨?_, holds.reply, holds.answered⟩
    show (server.table.release? other claimed).entries[key]? = some entry
    rw [release_running running, remove_entries, if_neg apart]
    exact holds.held
  · rw [same]
    exact holds

theorem step_other_thread (differ : event.thread ≠ thread) :
    (server.step event).1.threads thread = server.threads thread := by
  rcases step_cases server event with ⟨asked, method, -, turns⟩ | ⟨given, other, method, claimed, -, -, ends⟩ |
    ⟨other, method, claimed, -, ends⟩ | ⟨-, same⟩
  · rw [turns]
    exact setThread_other _ _ (Ne.symm differ)
  · rw [ends]
    exact setThread_other _ _ (Ne.symm differ)
  · rw [ends]
    exact setThread_other _ _ (Ne.symm differ)
  · rw [same]

/-- Why the id stays promised during these events: they are all early enough, or a thread waits
for it and none of them is its own. -/
def Server.Protects (server : Server) (key : Key) (entry : Entry) (time : Instant) (events : List Event) : Prop :=
  (∀ event ∈ events, event.time ≤ time + dedupMinAge) ∨
    ∃ thread, server.threads thread = .waiting key entry.method ∧ ∀ event ∈ events, event.thread ≠ thread

theorem run_holds (inv : server.Inv clock) (forward : Forward events)
    (later : ∀ event ∈ events, clock ≤ event.time) (holds : server.Holds key entry reply time)
    (keeps : Machine.Throughout step Keeps server events) (protects : server.Protects key entry time events) :
    (run step server events).Holds key entry reply time := by
  induction events generalizing server clock with
  | nil => exact holds
  | cons event rest ih =>
    obtain ⟨first, forwardRest⟩ := pairwise_cons.mp forward
    have after := later event mem_cons_self
    have promised : server.Promised event.time key entry := by
      rcases protects with early | ⟨thread, waits, -⟩
      · exact .inl ⟨time, holds.answered, early event mem_cons_self⟩
      · exact .inr ⟨thread, waits⟩
    have protectsRest : (server.step event).1.Protects key entry time rest := by
      rcases protects with early | ⟨thread, waits, others⟩
      · exact .inl fun next member => early next (mem_cons_of_mem _ member)
      · refine .inr ⟨thread, ?_, fun next member => others next (mem_cons_of_mem _ member)⟩
        rw [step_other_thread (others event mem_cons_self)]
        exact waits
    exact ih (step_inv inv after) forwardRest first (step_holds inv after holds keeps.1 promised) keeps.2 protectsRest

theorem finish_holds (inv : server.Inv clock)
    (action : event.action = .finish reply) (position : server.threads event.thread = .running key method claimed) :
    (server.step event).1.Holds key ⟨claimed, method, some reply⟩ reply event.time := by
  have running := inv.running _ _ _ _ position
  simp only [step, action, position]
  refine ⟨?_, rfl, if_pos rfl⟩
  show (server.table.finish key claimed reply).entries[key]? = _
  rw [finish_entries running, if_pos rfl]

theorem step_replays (inv : server.Inv clock) (holds : server.Holds key entry reply time) (keeps : server.Keeps event)
    (promised : server.Promised event.time key entry) (asks : server.asked event = some (key, entry.method)) :
    (server.step event).2 = .turn (.replay reply) := by
  rcases step_cases server event with ⟨asked, method, also, turns⟩ | ⟨_, _, _, _, action, -, -⟩ |
    ⟨_, _, _, position, -⟩ | ⟨unasked, -⟩
  · rw [asks] at also
    obtain ⟨rfl, rfl⟩ := Prod.mk.inj (Option.some.inj also)
    rw [turns]
    show Outcome.turn (claimTurn server.table key entry.method event.time).2 = _
    rw [claimTurn_replays inv.sound holds.held rfl holds.reply]
    intro answered
    exact keeps key entry.method asks key entry holds.held answered promised
  · simp only [asked, action] at asks
    cases asks
  · cases action : event.action <;> simp [asked, position, action] at asks
  · rw [asks] at unasked
    cases unasked

end Promise

/-- In every run: an id never runs twice at the same time, and if no step forgets a promised id,
then a request's answer is replayed to every claim for its method up to the least age after the
answer, and to every claim that waited for it. -/
theorem requests_exactly_once (events : List Event) (forward : Forward events) :
    (∀ thread other key method method' claimed claimed',
      (run step start events).threads thread = .running key method claimed →
      (run step start events).threads other = .running key method' claimed' → thread = other) ∧
    (Machine.Throughout step Keeps start events →
      ∀ before answer between last, events = before ++ answer :: (between ++ [last]) →
      ∀ key method claimed reply, answer.action = .finish reply →
      (run step start before).threads answer.thread = .running key method claimed →
      (last.action = .claim key method →
        (run step start (before ++ answer :: between)).threads last.thread = .idle →
        last.time ≤ answer.time + dedupMinAge →
        ((run step start (before ++ answer :: between)).step last).2 = .turn (.replay reply)) ∧
      (last.action = .wake → (∀ event ∈ between, event.thread ≠ last.thread) →
        (run step start before).threads last.thread = .waiting key method →
        ((run step start (before ++ answer :: between)).step last).2 = .turn (.replay reply))) := by
  constructor
  · obtain ⟨clock, inv, -⟩ := run_inv start_inv forward fun event _ => Nat.zero_le _
    exact inv.alone
  · intro keeps before answer between last split key method claimed reply action position
    subst split
    obtain ⟨forwardBefore, forwardRest, ordered⟩ := pairwise_append.mp forward
    obtain ⟨afterAnswer, forwardBack⟩ := pairwise_cons.mp forwardRest
    obtain ⟨forwardBetween, -, toLast⟩ := pairwise_append.mp forwardBack
    obtain ⟨-, keepsRest⟩ := Machine.Throughout.append.mp keeps
    obtain ⟨keepsBetween, keepsLast⟩ := Machine.Throughout.append.mp keepsRest.2
    obtain ⟨clock, inv, reached⟩ := run_inv start_inv forwardBefore fun event _ => Nat.zero_le _
    have onTime : clock ≤ answer.time := by
      rcases reached with rfl | ⟨event, member, rfl⟩
      · exact Nat.zero_le _
      · exact ordered event member answer mem_cons_self
    have invAnswer := step_inv inv onTime
    have afterwards : ∀ event ∈ between, answer.time ≤ event.time :=
      fun event member => afterAnswer event (mem_append_left _ member)
    have holds := finish_holds inv action position
    obtain ⟨clock', invLast, -⟩ := run_inv invAnswer forwardBetween afterwards
    have reach : run step start (before ++ answer :: between) =
        run step ((run step start before).step answer).1 between := by
      rw [run_append]
      rfl
    rw [reach]
    constructor
    · intro claims idle early
      have holdsLast := run_holds invAnswer forwardBetween afterwards holds keepsBetween
        (.inl fun event member => Nat.le_trans (toLast event member last (mem_singleton.mpr rfl)) early)
      refine step_replays invLast holdsLast keepsLast.1 (.inl ⟨_, holdsLast.answered, early⟩) ?_
      simp only [asked, claims, idle]
    · intro wakes others waits
      have apart : answer.thread ≠ last.thread := by
        intro same
        rw [same, waits] at position
        cases position
      have stillWaits : ∀ (server : Server) (rest : List Event), (∀ event ∈ rest, event.thread ≠ last.thread) →
          server.threads last.thread = .waiting key method →
          (run step server rest).threads last.thread = .waiting key method := by
        intro server rest
        induction rest generalizing server with
        | nil => exact fun _ position => position
        | cons event rest ih =>
          intro differ position
          refine ih _ (fun next member => differ next (mem_cons_of_mem _ member)) ?_
          rw [step_other_thread (differ event mem_cons_self)]
          exact position
      have waitsAnswered : ((run step start before).step answer).1.threads last.thread =
          .waiting key method := by
        rw [step_other_thread apart]
        exact waits
      have waitsLast := stillWaits _ between others waitsAnswered
      have holdsLast := run_holds invAnswer forwardBetween afterwards holds keepsBetween
        (.inr ⟨last.thread, waitsAnswered, others⟩)
      refine step_replays invLast holdsLast keepsLast.1 (.inr ⟨last.thread, waitsLast⟩) ?_
      simp only [asked, wakes, waitsLast]

def sampleKey : Key := ⟨"token:a", 7⟩

theorem keeps_early {event : Event} (early : event.time ≤ dedupMinAge) : server.Keeps event := by
  intro asked method _ key entry _ _ _ forgets
  have young : event.time - entry.claimed ≤ dedupMinAge := Nat.le_trans (Nat.sub_le _ _) early
  rcases forgets with (old | ⟨old, -⟩) | ⟨-, -, -, -, old, -⟩
  · exact Nat.not_lt.mpr (Nat.le_trans young (by decide)) old
  · exact Nat.not_lt.mpr young old
  · exact Nat.not_lt.mpr young old

theorem first_claim : (Server.start.step ⟨0, 0, .claim sampleKey "put"⟩).1 =
    ⟨empty.insert sampleKey ⟨0, "put", none⟩, setThread (fun _ => .idle) 0 (.running sampleKey "put" 0),
      fun _ => none⟩ := by
  have turn : claimTurn empty sampleKey "put" 0 = (empty.insert sampleKey ⟨0, "put", none⟩, .run) := by
    simp [claimTurn, evict, evictLoop, empty, claimNew, heldBy, dedupPerPrincipal, dedupEntries]
  simp only [Server.step, Server.start, Server.turn, turn, Turn.thread]

theorem requests_exactly_once_sample :
    ((run step start
      [⟨0, 0, .claim sampleKey "put"⟩, ⟨0, secs 1, .finish null⟩]).step
        ⟨1, secs 2, .claim sampleKey "put"⟩).2 = .turn (.replay null) := by
  have forward : Forward [⟨0, 0, .claim sampleKey "put"⟩, ⟨0, secs 1, .finish null⟩,
      ⟨1, secs 2, .claim sampleKey "put"⟩] := by
    simp [Forward, secs]
  have keeps : Machine.Throughout step Keeps start
      [⟨0, 0, .claim sampleKey "put"⟩, ⟨0, secs 1, .finish null⟩, ⟨1, secs 2, .claim sampleKey "put"⟩] :=
    ⟨keeps_early (by decide), keeps_early (by decide), keeps_early (by decide), trivial⟩
  have all := (requests_exactly_once _ forward).2 keeps [⟨0, 0, .claim sampleKey "put"⟩] ⟨0, secs 1, .finish null⟩
    [] ⟨1, secs 2, .claim sampleKey "put"⟩ rfl sampleKey "put" 0 null rfl
  refine (all ?_).1 rfl ?_ (by decide)
  · rw [run_cons, first_claim]
    rfl
  · simp only [run_cons, run_nil, cons_append, nil_append]
    rw [step_other_thread (by decide), first_claim]
    rfl

theorem claimTurn_expired {reply : Value}
    (held : table.entries[key]? = some entry) (answered : entry.reply = some reply)
    (order : table.order = [(entry.claimed, key)]) (size : table.entries.size = 1)
    (count : table.heldBy key.principal = 1) (old : dedupTtl < now - entry.claimed) :
    (claimTurn table key method now).2 = .run := by
  have late : ¬ (now - entry.claimed ≤ dedupTtl ∧
      ¬ (dedupEntries ≤ table.entries.size ∧ dedupMinAge < now - entry.claimed)) := by
    rintro ⟨young, -⟩
    exact Nat.not_lt.mpr young old
  have evicted : table.evict now = { table.remove key with order := [] } := by
    rw [evict, order]
    simp only [evictLoop, live_entry held, answered, if_neg late]
  have gone : (table.evict now).entries[key]? = none := by
    rw [evicted]
    show (table.remove key).entries[key]? = none
    rw [remove_entries, if_pos rfl]
  have empty : (table.evict now).entries.size = 0 := by
    rw [evicted]
    show (table.remove key).entries.size = 0
    have smaller := remove_size held
    omega
  have released : (table.evict now).heldBy key.principal = 0 := by
    rw [evicted]
    show (table.remove key).heldBy key.principal = 0
    rw [remove_heldBy held, if_pos rfl, count]
  have room : ¬ dedupEntries ≤ 0 := by decide
  have quota : ¬ (quotaApplies key.principal = true ∧ dedupPerPrincipal ≤ 0) := by
    rintro ⟨-, full⟩
    exact absurd full (by decide)
  simp only [claimTurn, gone, claimNew, released, if_neg quota, empty, if_neg room]

/-- A request that was claimed 601 seconds ago and is answered now is forgotten by the very next
claim of its id, which runs it again. -/
theorem answered_request_runs_again :
    ((run step start
      [⟨0, 0, .claim sampleKey "put"⟩, ⟨0, secs 601, .finish null⟩]).step
        ⟨1, secs 601, .claim sampleKey "put"⟩).2 = .turn .run := by
  have running : (empty.insert sampleKey ⟨0, "put", none⟩).entries[sampleKey]? = some ⟨0, "put", none⟩ := by
    simp [Table.insert]
  have finished : (empty.insert sampleKey ⟨0, "put", none⟩).finish sampleKey 0 null =
      { empty.insert sampleKey ⟨0, "put", none⟩ with
        entries := (empty.insert sampleKey ⟨0, "put", none⟩).entries.insert sampleKey
          ⟨0, "put", some null⟩ } := by
    simp only [finish, live_entry running]
  have again : (claimTurn ((empty.insert sampleKey ⟨0, "put", none⟩).finish sampleKey 0 null) sampleKey "put"
      (secs 601)).2 = .run := by
    rw [finished]
    have held : (mk ((empty.insert sampleKey ⟨0, "put", none⟩).entries.insert sampleKey
        ⟨0, "put", some null⟩) (empty.insert sampleKey ⟨0, "put", none⟩).order
        (empty.insert sampleKey ⟨0, "put", none⟩).held).entries[sampleKey]? =
        some ⟨0, "put", some null⟩ := by simp
    refine claimTurn_expired held rfl rfl ?_ ?_ (by decide)
    · simp [Table.insert, Table.empty, size_insert]
    · simp [Table.heldBy, Table.insert, Table.empty]
  rw [run_cons, first_claim]
  exact congrArg Outcome.turn again

/-- However requests come in, the table holds no more ids than its bound and no more of one principal than the quota,
and the id of a request that runs is held, unanswered. -/
theorem table_bounded (events : List Event) (forward : Forward events) :
    (run step start events).table.entries.size ≤ dedupEntries ∧
      (∃ keys : List Key, keys.Nodup ∧
        (∀ key, key ∈ keys ↔ ((run step start events).table.entries[key]?).isSome) ∧
        ∀ principal, quotaApplies principal → (keys.countP fun key => key.principal = principal) ≤ dedupPerPrincipal) ∧
      ∀ thread key method claimed, (run step start events).threads thread = .running key method claimed →
        (run step start events).table.entries[key]? = some ⟨claimed, method, none⟩ := by
  obtain ⟨clock, inv, -⟩ := run_inv start_inv forward fun _ _ => Nat.zero_le _
  obtain ⟨keys, distinct, listed, counts⟩ := inv.sound.counted
  refine ⟨inv.sound.room, ⟨keys, distinct, listed, ?_⟩, inv.running⟩
  intro principal capped
  rw [← counts]
  exact inv.sound.quota principal capped

theorem table_bounded_sample :
    (run step start [⟨0, 0, .claim sampleKey "put"⟩]).threads 0 = .running sampleKey "put" 0 ∧
      (run step start [⟨0, 0, .claim sampleKey "put"⟩]).table.entries[sampleKey]? = some ⟨0, "put", none⟩ := by
  have running : (run step start [⟨0, 0, .claim sampleKey "put"⟩]).threads 0 = .running sampleKey "put" 0 := by
    rw [run_cons, first_claim]
    rfl
  exact ⟨running, (table_bounded _ (pairwise_singleton _ _)).2.2 0 sampleKey "put" 0 running⟩

end FerroLoop.Session

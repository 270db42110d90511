import FerroLoop.Failover.Approval
import FerroLoop.Lib.Machine

namespace FerroLoop.Failover

open Machine List

inductive AttemptState where
  | dispatching
  | noExecutionProven
  | executed
  | unknownAfterSend
  deriving DecidableEq

inductive AttemptOutcome where
  | noExecutionProven
  | executed
  | unknownAfterSend
  deriving DecidableEq

def AttemptState.ofOutcome : AttemptOutcome → AttemptState
  | .noExecutionProven => .noExecutionProven
  | .executed => .executed
  | .unknownAfterSend => .unknownAfterSend

structure AttemptJournalEntry where
  logicalOperationId : String
  attemptIndex : UInt32
  endpoint : String
  state : AttemptState
  atMs : UInt64
  deriving DecidableEq

structure Attempt where
  logicalOperationId : String
  attemptIndex : UInt32
  deriving DecidableEq

def AttemptJournalEntry.attempt (e : AttemptJournalEntry) : Attempt := ⟨e.logicalOperationId, e.attemptIndex⟩

def AttemptJournalEntry.finished (e : AttemptJournalEntry) : Bool := e.state != .dispatching

abbrev Entries := List AttemptJournalEntry

def failoverJournalCap : Nat := 200

def evict : Nat → Entries → Entries × Bool
  | 0, entries => (entries, true)
  | n + 1, entries =>
    if entries.any AttemptJournalEntry.finished then evict n (entries.eraseP AttemptJournalEntry.finished)
    else (entries, false)

def capped (entries : Entries) : Entries × Bool := evict (entries.length - failoverJournalCap) entries

def hasUncertain (entries : Entries) (logicalOperationId : String) : Bool :=
  entries.any fun e => e.logicalOperationId == logicalOperationId && e.state == .dispatching

/-- What `begin` makes of the copy before it saves it, or why it does not. -/
def beginCopy (entries : Entries) (entry : AttemptJournalEntry) : Entries × Except FailoverError Unit :=
  if entries.any fun e => e.attempt == entry.attempt then
    (entries, .error (.duplicateBegin entry.logicalOperationId entry.attemptIndex))
  else
    let fitted := capped (entries ++ [entry])
    if fitted.2 then (fitted.1, .ok ()) else (fitted.1.dropLast, .error .journalUnavailable)

def setState (attempt : Attempt) (state : AttemptState) : Entries → Entries
  | [] => []
  | e :: rest => if e.attempt = attempt then { e with state } :: rest else e :: setState attempt state rest

def finishCopy (entries : Entries) (attempt : Attempt) (outcome : AttemptOutcome) : Entries × Except FailoverError Unit :=
  match entries.find? fun e => e.attempt == attempt with
  | none => (entries, .error (.finishBeforeBegin attempt.logicalOperationId attempt.attemptIndex))
  | some e =>
    if e.state ≠ .dispatching then
      (entries, .error (.attemptAlreadyFinished attempt.logicalOperationId attempt.attemptIndex))
    else (setState attempt (.ofOutcome outcome) entries, .ok ())

inductive Backend where
  | memory
  | disk
  deriving DecidableEq

/-- How a write of the list ends: in the store, nowhere, or in the store with its answer lost. -/
inductive Write where
  | done
  | failed
  | unanswered
  deriving DecidableEq

section

variable (backend : Backend)

/-- What the store is asked to keep. -/
def Backend.accepts (entries : Entries) : Option Entries :=
  match backend with
  | .memory => some entries
  | .disk => if (capped entries).2 then some (capped entries).1 else none

def Backend.save (write : Write) (stored entries : Entries) : Entries × Except FailoverError Unit :=
  match backend.accepts entries, write with
  | none, _ => (stored, .error .journalUnavailable)
  | some _, .failed => (stored, .error .journalUnavailable)
  | some kept, .unanswered => (kept, .error .journalUnavailable)
  | some kept, .done => (kept, .ok ())

/-- The stored list and the copies of the open journals. `unfinished` are the attempts whose `begin`
returned and that no `finish` has reached. -/
structure Failovers where
  stored : Entries
  journals : List Entries
  unfinished : List Attempt
  deriving DecidableEq

inductive Event where
  | opens
  | begins (journal : Nat) (attempt : Attempt) (endpoint : String) (atMs : UInt64) (write : Write)
  | finishes (journal : Nat) (attempt : Attempt) (outcome : AttemptOutcome) (write : Write)
  | crashes
  deriving DecidableEq

def dispatchingEntry (attempt : Attempt) (endpoint : String) (atMs : UInt64) : AttemptJournalEntry :=
  ⟨attempt.logicalOperationId, attempt.attemptIndex, endpoint, .dispatching, atMs⟩

/-- Saves the copy unless it was refused. -/
def persist (write : Write) (stored : Entries) (made : Entries × Except FailoverError Unit) :
    Entries × Except FailoverError Unit :=
  match made.2 with
  | .error e => (stored, .error e)
  | .ok () => backend.save write stored made.1

def Failovers.step (s : Failovers) : Event → Failovers × Except FailoverError Unit
  | .opens => ({ s with journals := s.journals ++ [s.stored] }, .ok ())
  | .crashes => ({ s with journals := [] }, .ok ())
  | .begins journal attempt endpoint atMs write =>
    match s.journals[journal]? with
    | none => (s, .ok ())
    | some copy =>
      let made := beginCopy copy (dispatchingEntry attempt endpoint atMs)
      let saved := persist backend write s.stored made
      ({ stored := saved.1
         journals := s.journals.set journal made.1
         unfinished := if saved.2.isOk then attempt :: s.unfinished else s.unfinished }, saved.2)
  | .finishes journal attempt outcome write =>
    match s.journals[journal]? with
    | none => (s, .ok ())
    | some copy =>
      let made := finishCopy copy attempt outcome
      let saved := persist backend write s.stored made
      ({ stored := saved.1
         journals := s.journals.set journal made.1
         unfinished := if made.2.isOk then s.unfinished.filter (· ≠ attempt) else s.unfinished }, saved.2)

def Dispatching (entries : Entries) (attempt : Attempt) : Prop :=
  ∃ e ∈ entries, e.attempt = attempt ∧ e.state = .dispatching

def Failovers.Kept (s : Failovers) : Prop :=
  ∀ a ∈ s.unfinished, Dispatching s.stored a ∧ hasUncertain s.stored a.logicalOperationId = true

def lands (write : Write) (made : Entries × Except FailoverError Unit) : Bool :=
  made.2.isOk && (backend.accepts made.1).isSome && write != .failed

def Failovers.Current (s : Failovers) : Event → Prop
  | .opens | .crashes => True
  | .begins journal attempt endpoint atMs write => ∀ copy : Entries, s.journals[journal]? = some copy →
      lands backend write (beginCopy copy (dispatchingEntry attempt endpoint atMs)) = true →
      ∀ a ∈ s.unfinished, a ≠ attempt → Dispatching copy a
  | .finishes journal attempt outcome write => ∀ copy : Entries, s.journals[journal]? = some copy →
      lands backend write (finishCopy copy attempt outcome) = true →
      ∀ a ∈ s.unfinished, a ≠ attempt → Dispatching copy a

end

variable {entries copy : Entries} {a : Attempt} {s : Failovers} {backend : Backend}

theorem hasUncertain_of_dispatching (shown : Dispatching entries a) :
    hasUncertain entries a.logicalOperationId = true := by
  obtain ⟨e, member, same, state⟩ := shown
  refine any_eq_true.mpr ⟨e, member, ?_⟩
  rw [state, ← same]
  exact Bool.and_eq_true_iff.mpr ⟨beq_self_eq_true _, rfl⟩

theorem Failovers.kept_iff : s.Kept ↔ ∀ a ∈ s.unfinished, Dispatching s.stored a :=
  ⟨fun kept a member => (kept a member).1,
    fun shown a member => ⟨shown a member, hasUncertain_of_dispatching (shown a member)⟩⟩

theorem eraseP_dispatching :
    Dispatching (entries.eraseP AttemptJournalEntry.finished) a ↔ Dispatching entries a := by
  have kept : ∀ e : AttemptJournalEntry, e.state = .dispatching →
      (e ∈ entries.eraseP AttemptJournalEntry.finished ↔ e ∈ entries) := by
    intro e state
    apply mem_eraseP_of_neg
    unfold AttemptJournalEntry.finished
    rw [state]
    decide
  constructor
  · rintro ⟨e, member, same, state⟩
    exact ⟨e, (kept e state).mp member, same, state⟩
  · rintro ⟨e, member, same, state⟩
    exact ⟨e, (kept e state).mpr member, same, state⟩

theorem evict_dispatching (n : Nat) (entries : Entries) (a : Attempt) :
    Dispatching (evict n entries).1 a ↔ Dispatching entries a := by
  induction n generalizing entries with
  | zero => exact Iff.rfl
  | succ n ih =>
    unfold evict
    split
    · exact (ih _).trans eraseP_dispatching
    · exact Iff.rfl

theorem capped_dispatching (entries : Entries) (a : Attempt) :
    Dispatching (capped entries).1 a ↔ Dispatching entries a := by
  unfold capped
  exact evict_dispatching _ entries a

theorem accepts_dispatching {kept : Entries} (accepted : backend.accepts entries = some kept)
    (a : Attempt) : Dispatching kept a ↔ Dispatching entries a := by
  unfold Backend.accepts at accepted
  cases backend with
  | memory =>
    cases accepted
    exact Iff.rfl
  | disk =>
    dsimp only at accepted
    split at accepted
    · rw [← Option.some.inj accepted]
      exact capped_dispatching entries a
    · cases accepted

variable {write : Write} {stored : Entries} {made : Entries × Except FailoverError Unit}

theorem persist_landed
    (landed : lands backend write made = true) (a : Attempt) :
    Dispatching (persist backend write stored made).1 a ↔ Dispatching made.1 a := by
  obtain ⟨copy, ready⟩ := made
  unfold lands at landed
  simp only [Bool.and_eq_true, bne_iff_ne, ne_eq] at landed
  obtain ⟨⟨passed, accepted⟩, written⟩ := landed
  rcases ready with e | u
  · cases passed
  obtain ⟨kept, found⟩ := Option.isSome_iff_exists.mp accepted
  unfold persist Backend.save
  dsimp only
  rw [found]
  cases write with
  | failed => exact absurd rfl written
  | done | unanswered => exact accepts_dispatching found a

theorem persist_missed
    (missed : lands backend write made = false) :
    (persist backend write stored made).1 = stored ∧ (persist backend write stored made).2.isOk = false := by
  obtain ⟨copy, ready⟩ := made
  unfold lands at missed
  rcases ready with e | u
  · exact ⟨rfl, rfl⟩
  unfold persist Backend.save
  dsimp only at missed ⊢
  rcases found : backend.accepts copy with _ | kept
  · exact ⟨rfl, rfl⟩
  rw [found] at missed
  cases write with
  | failed => exact ⟨rfl, rfl⟩
  | done | unanswered => cases missed

variable {entry : AttemptJournalEntry}

theorem beginCopy_dispatching (ready : (beginCopy copy entry).2.isOk = true)
    (a : Attempt) : Dispatching (beginCopy copy entry).1 a ↔ Dispatching (copy ++ [entry]) a := by
  unfold beginCopy at ready ⊢
  split
  · rename_i known
    rw [if_pos known] at ready
    cases ready
  rename_i fresh
  rw [if_neg fresh] at ready
  have fits := capped_dispatching (copy ++ [entry]) a
  generalize capped (copy ++ [entry]) = fitted at ready fits
  dsimp only at ready ⊢
  by_cases room : fitted.2 = true
  · rw [if_pos room]
    exact fits
  · rw [if_neg room] at ready
    cases ready

theorem dispatching_append (state : entry.state = .dispatching) :
    Dispatching (copy ++ [entry]) a ↔ Dispatching copy a ∨ a = entry.attempt := by
  constructor
  · rintro ⟨e, member, same, here⟩
    rcases mem_append.mp member with before | last
    · exact .inl ⟨e, before, same, here⟩
    · rw [mem_singleton.mp last] at same
      exact .inr same.symm
  · rintro (⟨e, member, same, here⟩ | same)
    · exact ⟨e, mem_append_left _ member, same, here⟩
    · exact ⟨entry, mem_append_right _ mem_cons_self, same.symm, state⟩

variable {attempt : Attempt}

theorem setState_dispatching {state : AttemptState} (other : a ≠ attempt) (entries : Entries) :
    Dispatching (setState attempt state entries) a ↔ Dispatching entries a := by
  have cons : ∀ (e : AttemptJournalEntry) (rest : Entries),
      Dispatching (e :: rest) a ↔ (e.attempt = a ∧ e.state = .dispatching) ∨ Dispatching rest a := by
    intro e rest
    unfold Dispatching
    simp only [mem_cons, exists_eq_or_imp]
  induction entries with
  | nil => exact Iff.rfl
  | cons e rest ih =>
    unfold setState
    split
    · rename_i same
      have first : e.attempt ≠ a := fun here => other (here.symm.trans same)
      have changed : ({ e with state } : AttemptJournalEntry).attempt ≠ a := first
      rw [cons, cons]
      simp only [changed, first, false_and, false_or]
    · exact (cons _ _).trans ((or_congr_right ih).trans (cons _ _).symm)

theorem finishCopy_dispatching {outcome : AttemptOutcome} (other : a ≠ attempt) :
    Dispatching (finishCopy copy attempt outcome).1 a ↔ Dispatching copy a := by
  unfold finishCopy
  split
  · exact Iff.rfl
  · split
    · exact Iff.rfl
    · exact setState_dispatching other copy

/-! ### One step keeps the attempts just when its copy is current -/

variable {journal : Nat}

theorem begins_exactly (opened : s.journals[journal]? = some copy)
    (attempt : Attempt) (endpoint : String) (atMs : UInt64) (write : Write) (kept : s.Kept) :
    (s.step backend (.begins journal attempt endpoint atMs write)).1.Kept ↔
      s.Current backend (.begins journal attempt endpoint atMs write) := by
  have before := Failovers.kept_iff.mp kept
  rw [Failovers.kept_iff]
  unfold Failovers.step Failovers.Current
  dsimp only
  rw [opened]
  dsimp only
  generalize made : beginCopy copy (dispatchingEntry attempt endpoint atMs) = next
  cases landed : lands backend write next with
  | false =>
    obtain ⟨same, refused⟩ := @persist_missed backend write s.stored next landed
    rw [same, refused]
    refine ⟨fun _ other found reached => ?_, fun _ => before⟩
    cases found
    rw [made, landed] at reached
    cases reached
  | true =>
    have ready : next.2.isOk = true := by
      unfold lands at landed
      simp only [Bool.and_eq_true] at landed
      exact landed.1.1
    have shown : ∀ a, Dispatching (persist backend write s.stored next).1 a ↔ Dispatching copy a ∨ a = attempt := by
      intro a
      rw [persist_landed landed, ← made]
      rw [← made] at ready
      exact (beginCopy_dispatching ready a).trans (dispatching_append rfl)
    constructor
    · intro after other found _ a member differs
      cases found
      have listed : a ∈ if (persist backend write s.stored next).2.isOk then attempt :: s.unfinished else s.unfinished := by
        split
        · exact mem_cons_of_mem _ member
        · exact member
      exact ((shown a).mp (after a listed)).resolve_right differs
    · intro current a member
      have earlier : a = attempt ∨ a ∈ s.unfinished := by
        split at member
        · exact mem_cons.mp member
        · exact .inr member
      apply (shown a).mpr
      by_cases same : a = attempt
      · exact .inr same
      · exact .inl (current copy rfl (by rw [made, landed]) a (earlier.resolve_left same) same)

theorem finishes_exactly
    (opened : s.journals[journal]? = some copy) (attempt : Attempt) (outcome : AttemptOutcome) (write : Write) (kept : s.Kept) :
    (s.step backend (.finishes journal attempt outcome write)).1.Kept ↔
      s.Current backend (.finishes journal attempt outcome write) := by
  have before := Failovers.kept_iff.mp kept
  rw [Failovers.kept_iff]
  unfold Failovers.step Failovers.Current
  dsimp only
  rw [opened]
  dsimp only
  have others : ∀ a ≠ attempt, Dispatching (finishCopy copy attempt outcome).1 a ↔ Dispatching copy a :=
    fun a other => finishCopy_dispatching other
  generalize made : finishCopy copy attempt outcome = next at others
  cases landed : lands backend write next with
  | false =>
    obtain ⟨same, -⟩ := @persist_missed backend write s.stored next landed
    rw [same]
    constructor
    · intro _ other found reached
      cases found
      rw [made, landed] at reached
      cases reached
    · intro _ a member
      split at member
      · exact before a (mem_filter.mp member).1
      · exact before a member
  | true =>
    have ready : next.2.isOk = true := by
      unfold lands at landed
      simp only [Bool.and_eq_true] at landed
      exact landed.1.1
    rw [ready, if_pos rfl]
    have shown : ∀ a ≠ attempt, Dispatching (persist backend write s.stored next).1 a ↔ Dispatching copy a :=
      fun a other => (persist_landed landed a).trans (others a other)
    constructor
    · intro after other found _ a member differs
      cases found
      exact (shown a differs).mp (after a (mem_filter.mpr ⟨member, decide_eq_true differs⟩))
    · intro current a member
      obtain ⟨listed, differs⟩ := mem_filter.mp member
      have other : a ≠ attempt := of_decide_eq_true differs
      exact (shown a other).mpr (current copy rfl (by rw [made, landed]) a listed other)

theorem step_exactly (backend : Backend) (s : Failovers) (event : Event) (kept : s.Kept) :
    (s.step backend event).1.Kept ↔ s.Current backend event := by
  cases event with
  | opens | crashes => exact ⟨fun _ => trivial, fun _ => kept⟩
  | begins journal attempt endpoint atMs write =>
    cases opened : s.journals[journal]? with
    | some copy => exact begins_exactly opened attempt endpoint atMs write kept
    | none =>
      have idle : (s.step backend (.begins journal attempt endpoint atMs write)).1 = s := by
        unfold Failovers.step
        dsimp only
        rw [opened]
      rw [idle]
      refine ⟨fun _ copy found => ?_, fun _ => kept⟩
      rw [opened] at found
      cases found
  | finishes journal attempt outcome write =>
    cases opened : s.journals[journal]? with
    | some copy => exact finishes_exactly opened attempt outcome write kept
    | none =>
      have idle : (s.step backend (.finishes journal attempt outcome write)).1 = s := by
        unfold Failovers.step
        dsimp only
        rw [opened]
      rw [idle]
      refine ⟨fun _ copy found => ?_, fun _ => kept⟩
      rw [opened] at found
      cases found

/-- Whatever the runs on one store interleave: no unfinished attempt is ever missing from the stored list
exactly when each write replaces it by a copy that shows every other unfinished attempt. -/
theorem uncertain_attempts_kept (backend : Backend) (stored : Entries) (events : List Event) :
    (∀ past, past <+: events → (run (Failovers.step backend) ⟨stored, [], []⟩ past).Kept) ↔
      Throughout (Failovers.step backend) (Failovers.Current backend) ⟨stored, [], []⟩ events := by
  have start : (⟨stored, [], []⟩ : Failovers).Kept := fun a member => by cases member
  have nothing : ∀ (s : Failovers) (event : Event), True → True := fun _ _ => id
  exact prefixes_iff nothing (fun s event _ kept => step_exactly backend s event kept) trivial start events

/-- Two runs open the empty journal; the second to begin writes the first one's attempt away. -/
theorem begun_attempt_lost :
    let s := run (Failovers.step .disk) ⟨[], [], []⟩
      [.opens, .opens, .begins 0 ⟨"op-a", 0⟩ "https://a.example" 5 .done, .begins 1 ⟨"op-b", 0⟩ "https://b.example" 6 .done]
    s.unfinished = [⟨"op-b", 0⟩, ⟨"op-a", 0⟩] ∧ s.stored = [dispatchingEntry ⟨"op-b", 0⟩ "https://b.example" 6] ∧
      hasUncertain s.stored "op-a" = false := by
  decide +kernel

end FerroLoop.Failover

/-!
Finite runs of a deterministic machine with outputs. A run is a list of events; its trace is
the list of events with the output each of them got.
-/

namespace FerroLoop.Machine

open List

variable {σ ε ο : Type} (step : σ → ε → σ × ο)

/-- The state after every event of the list. -/
def run : σ → List ε → σ
  | s, [] => s
  | s, e :: rest => run (step s e).1 rest

/-- Every event with its output, in order. -/
def trace : σ → List ε → List (ε × ο)
  | _, [] => []
  | s, e :: rest => (e, (step s e).2) :: trace (step s e).1 rest

@[simp] theorem run_nil (s : σ) : run step s [] = s := rfl

@[simp] theorem run_cons (s : σ) (e : ε) (rest : List ε) :
    run step s (e :: rest) = run step (step s e).1 rest := rfl

theorem run_append (s : σ) (first second : List ε) :
    run step s (first ++ second) = run step (run step s first) second := by
  induction first generalizing s with
  | nil => rfl
  | cons e rest ih => exact ih (step s e).1

theorem trace_append (s : σ) (first second : List ε) :
    trace step s (first ++ second) = trace step s first ++ trace step (run step s first) second := by
  induction first generalizing s with
  | nil => rfl
  | cons e rest ih => exact congrArg (List.cons _) (ih (step s e).1)

/-- Every event of the run meets a condition on the state it happens in. -/
def Throughout (holds : σ → ε → Prop) : σ → List ε → Prop
  | _, [] => True
  | s, e :: rest => holds s e ∧ Throughout holds (step s e).1 rest

variable {step}

variable {s : σ}

theorem Throughout.append {holds : σ → ε → Prop} {first second : List ε} :
    Throughout step holds s (first ++ second) ↔
      Throughout step holds s first ∧ Throughout step holds (run step s first) second := by
  induction first generalizing s with
  | nil => exact ⟨fun all => ⟨trivial, all⟩, fun both => both.2⟩
  | cons e rest ih =>
    simp only [cons_append, Throughout, run_cons, ih, and_assoc]

theorem run_invariant {inv : σ → Prop} (preserved : ∀ s e, inv s → inv (step s e).1)
    {s : σ} (initial : inv s) (events : List ε) : inv (run step s events) := by
  induction events generalizing s with
  | nil => exact initial
  | cons e rest ih => exact ih (preserved s e initial)

/-- A run whose every event meets a condition keeps what such events keep, and every event of it
has what they have in a state that keeps it. -/
theorem Throughout.mono {inv : σ → Prop} {holds shown : σ → ε → Prop}
    (preserved : ∀ s e, inv s → holds s e → inv (step s e).1) (follows : ∀ s e, inv s → holds s e → shown s e) {s : σ}
    (initial : inv s) {events : List ε} (all : Throughout step holds s events) : Throughout step shown s events := by
  induction events generalizing s with
  | nil => trivial
  | cons e rest ih => exact ⟨follows s e initial all.1, ih (preserved s e initial all.1) all.2⟩

theorem Throughout.both {first second : σ → ε → Prop} {events : List ε} (one : Throughout step first s events)
    (other : Throughout step second s events) : Throughout step (fun s e => first s e ∧ second s e) s events := by
  induction events generalizing s with
  | nil => trivial
  | cons e rest ih => exact ⟨⟨one.1, other.1⟩, ih one.2 other.2⟩

/-- A property that no event of a run takes away holds after the run where it held before. -/
theorem Throughout.keeps {good : σ → Prop} {events : List ε}
    (all : Throughout step (fun s e => good s → good (step s e).1) s events) (start : good s) : good (run step s events) := by
  induction events generalizing s with
  | nil => exact start
  | cons e rest ih => exact ih all.2 (all.1 start)

/-- No event of a run takes any of some properties away exactly where each stays from each moment of the run to each
later one. -/
theorem stays_iff {ι : Type} {good : ι → σ → Prop} {s : σ} {events : List ε} :
    (∀ i first second, first ++ second <+: events → good i (run step s first) → good i (run step s (first ++ second))) ↔
      Throughout step (fun s e => ∀ i, good i s → good i (step s e).1) s events := by
  constructor
  · intro stays
    induction events generalizing s with
    | nil => trivial
    | cons e rest ih =>
      refine ⟨fun i => stays i [] [e] ⟨rest, rfl⟩, ih ?_⟩
      intro i first second front
      exact stays i (e :: first) second (cons_prefix_cons.mpr ⟨rfl, front⟩)
  · rintro all i first second ⟨more, rfl⟩ held
    rw [run_append]
    rw [append_assoc, Throughout.append, Throughout.append] at all
    have kept : Throughout step (fun s e => good i s → good i (step s e).1) (run step s first) second :=
      @Throughout.mono _ _ _ step (fun _ => True) _ _ (fun _ _ _ _ => trivial) (fun _ _ _ each => each i) _ trivial _ all.2.1
    exact kept.keeps held

/-- What every step from a good state answers holds of the whole trace. -/
theorem trace_forall (inv : σ → Prop) {answer : ε × ο → Prop} (preserved : ∀ s e, inv s → inv (step s e).1)
    (answered : ∀ s e, inv s → answer (e, (step s e).2)) (initial : inv s) (events : List ε) :
    ∀ x ∈ trace step s events, answer x := by
  induction events generalizing s with
  | nil =>
    intro x member
    cases member
  | cons e rest ih =>
    intro x member
    rcases mem_cons.mp member with same | later
    · rw [same]
      exact answered s e initial
    · exact ih (preserved s e initial) x later

/-- A property of the state and of everything that happened so far, kept by each step, holds
after a whole run of the run's own trace. -/
theorem history_invariant {inv : List (ε × ο) → σ → Prop}
    (preserved : ∀ past s e, inv past s → inv (past ++ [(e, (step s e).2)]) (step s e).1)
    (initial : inv [] s) (events : List ε) :
    inv (trace step s events) (run step s events) := by
  -- The induction carries an arbitrary past in front of the trace.
  have carried : ∀ (events : List ε) (past : List (ε × ο)) (s : σ), inv past s →
      inv (past ++ trace step s events) (run step s events) := by
    intro events
    induction events with
    | nil => intro past s held; simpa [trace] using held
    | cons e rest ih =>
      intro past s held
      have next := ih _ _ (preserved past s e held)
      simpa [trace, append_assoc] using next
  simpa using carried events [] s initial

/-- The same for runs whose every event meets a condition. -/
theorem history_throughout {inv : List (ε × ο) → σ → Prop} {holds : σ → ε → Prop}
    (preserved : ∀ past s e, inv past s → holds s e → inv (past ++ [(e, (step s e).2)]) (step s e).1)
    {s : σ} (initial : inv [] s) {events : List ε} (all : Throughout step holds s events) :
    inv (trace step s events) (run step s events) := by
  have carried : ∀ (events : List ε) (past : List (ε × ο)) (s : σ), inv past s → Throughout step holds s events →
      inv (past ++ trace step s events) (run step s events) := by
    intro events
    induction events with
    | nil => intro past s held _; simpa [trace] using held
    | cons e rest ih =>
      intro past s held all
      have next := ih _ _ (preserved past s e held all.1) all.2
      simpa [trace, append_assoc] using next
  simpa using carried events [] s initial all

/-- Where one step keeps a property exactly when the event meets a condition, every state of a
run has the property exactly when every event of the run meets the condition. -/
theorem prefixes_iff {inv good : σ → Prop} {holds : σ → ε → Prop} (preserved : ∀ s e, inv s → inv (step s e).1)
    (exactly : ∀ s e, inv s → good s → (good (step s e).1 ↔ holds s e)) (initial : inv s) (start : good s)
    (events : List ε) :
    (∀ past, past <+: events → good (run step s past)) ↔ Throughout step holds s events := by
  induction events generalizing s with
  | nil =>
    refine ⟨fun _ => trivial, fun _ past early => ?_⟩
    rw [prefix_nil.mp early]
    exact start
  | cons e rest ih =>
    have one := exactly s e initial start
    constructor
    · intro all
      have next : good (step s e).1 := all [e] ⟨rest, rfl⟩
      refine ⟨one.mp next, (ih (preserved s e initial) next).mp ?_⟩
      intro past early
      exact all (e :: past) (cons_prefix_cons.mpr ⟨rfl, early⟩)
    · intro each past early
      have next := one.mpr each.1
      rcases past with _ | ⟨first, others⟩
      · exact start
      obtain ⟨same, within⟩ := cons_prefix_cons.mp early
      subst same
      exact (ih (preserved s first initial) next).mpr each.2 others within

end FerroLoop.Machine

import FerroLoop.Lib.Machine
import Mathlib.Data.List.Basic

/-!
Calls that run concurrently on one state behind a lock. A call is a tree of sections it runs under
the lock and of questions it puts to the outside without it; a run interleaves the calls section by
section and answer by answer, in any order.

What every interleaving keeps is proved call by call. A call may change the state by a move only,
and it may rely on what no other call's move takes away. Some moves belong to a token, which one
call at a time holds.
-/

namespace FerroLoop.Threads

open Machine
open List hiding getElem?_eq_some_iff

/-- The rest of a call. -/
inductive Prog (σ Q : Type) (A : Q → Type) (α : Type) where
  | done (value : α)
  | locked (act : σ → σ) (next : σ → Prog σ Q A α)
  | ask (q : Q) (next : A q → Prog σ Q A α)

variable {σ Q : Type} {A : Q → Type} {α β γ : Type}

namespace Prog

def bind : Prog σ Q A α → (α → Prog σ Q A β) → Prog σ Q A β
  | done value, f => f value
  | locked act next, f => locked act fun s => (next s).bind f
  | ask q next, f => ask q fun a => (next a).bind f

instance : Monad (Prog σ Q A) where
  pure := done
  bind := bind

/-- One section under the lock: what it returns and the state it leaves. -/
def lock (body : σ → α × σ) : Prog σ Q A α := locked (fun s => (body s).2) fun s => done (body s).1

/-- One question to the outside. -/
def query (q : Q) : Prog σ Q A (A q) := ask q done

def value? : Prog σ Q A α → Option α
  | done value => some value
  | _ => none

/-- A call that has returned went through its first part. -/
theorem of_mem_value?_bind {p : Prog σ Q A α} {f : α → Prog σ Q A β} {returned : β}
    (member : returned ∈ (p.bind f).value?) : ∃ value, p = done value ∧ returned ∈ (f value).value? := by
  cases p with
  | done value => exact ⟨value, rfl, member⟩
  | locked act next | ask q next => cases member

/-- What one turn of the call does, with the answers the outside gives at that time. -/
def turn (s : σ) (host : ∀ q, A q) : Prog σ Q A α → σ × Prog σ Q A α
  | done value => (s, done value)
  | locked act next => (act s, next s)
  | ask q next => (s, next (host q))

end Prog

structure System (σ Q : Type) (A : Q → Type) (α : Type) where
  shared : σ
  threads : List (Prog σ Q A α)

/-- Whose turn it is, and what the outside answers at that time. -/
structure Event (Q : Type) (A : Q → Type) where
  thread : Nat
  host : ∀ q, A q

/-- One turn; the output is the value of a call that returned in it. -/
def System.step (y : System σ Q A α) (e : Event Q A) : System σ Q A α × Option α :=
  match y.threads[e.thread]? with
  | none => (y, none)
  | some p =>
    let (shared, rest) := p.turn y.shared e.host
    (⟨shared, y.threads.set e.thread rest⟩, if p.value?.isSome then none else rest.value?)

/-- What the calls may do to the state, and what holds between their sections. -/
structure Rules (σ Q : Type) (A : Q → Type) (τ : Type) where
  inv : σ → Prop
  /-- A move of everyone, or one of the holder of a token. -/
  move : Option τ → σ → σ → Prop
  issued : τ → σ → Prop
  /-- The answers the outside may give. -/
  said : ∀ q, A q → Prop
  inv_move : ∀ {t s s'}, inv s → move t s s' → inv s'
  issued_move : ∀ {t u s s'}, inv s → issued u s → move t s s' → issued u s'

variable {τ : Type}

/-- What a call holds and relies on. The moves of the other calls keep it. -/
structure Claim (R : Rules σ Q A τ) where
  held : Option τ
  knows : σ → Prop
  kept : ∀ {t s s'}, t = none ∨ t ≠ held → R.inv s → knows s → R.move t s s' → knows s'
  issued : ∀ {s t}, R.inv s → knows s → held = some t → R.issued t s

/-- The claim of a call that has not begun. -/
def Claim.nothing {R : Rules σ Q A τ} : Claim R where
  held := none
  knows _ := True
  kept _ _ _ _ := trivial
  issued _ _ none := by cases none

/-- A section may pass on the token it has, drop it, or take one that nobody was given before. -/
def Claim.Passes {R : Rules σ Q A τ} (C C' : Claim R) (s : σ) : Prop :=
  C'.held = C.held ∨ ∀ t, C'.held = some t → ¬R.issued t s

section Safe

variable (R : Rules σ Q A τ)

/-- Every section of the call makes a move, whatever the other calls do between its sections, and
the call returns only as `final` says, in terms of the state before and after its last turn. -/
def Safe (final : σ → σ → α → Prop) : Prog σ Q A α → Claim R → Prop
  | .done _, _ => True
  | .locked act next, C => ∀ s, R.inv s → C.knows s →
      (∃ t, (t = none ∨ t = C.held) ∧ R.move t s (act s)) ∧
      (∀ value ∈ (next s).value?, final s (act s) value) ∧
      ∃ C' : Claim R, C.Passes C' s ∧ C'.knows (act s) ∧ Safe final (next s) C'
  | .ask q next, C => ∀ a, R.said q a →
      (∀ s, R.inv s → C.knows s → ∀ value ∈ (next a).value?, final s s value) ∧ Safe final (next a) C

/-- Every section of the call makes a move of everyone, as long as the claim holds. -/
def Guarded (C : Claim R) : Prog σ Q A α → Prop
  | .done _ => True
  | .locked act next => ∀ s, R.inv s → C.knows s → R.move none s (act s) ∧ Guarded C (next s)
  | .ask q next => ∀ a, R.said q a → Guarded C (next a)

end Safe

variable {R : Rules σ Q A τ} {C : Claim R} {final : σ → σ → α → Prop}

variable {body : σ → α × σ} {p : Prog σ Q A α} {finals : Nat → σ → σ → α → Prop} {y : System σ Q A α}

theorem guarded_lock (moves : ∀ s, R.inv s → C.knows s → R.move none s (body s).2) :
    Guarded R C (Prog.lock body) :=
  fun s good known => ⟨moves s good known, trivial⟩

theorem Guarded.bind {f : α → Prog σ Q A β} (first : Guarded R C p)
    (rest : ∀ value, Guarded R C (f value)) : Guarded R C (p >>= f) := by
  induction p with
  | done value => exact rest value
  | locked act next ih =>
    intro s good known
    obtain ⟨moved, after⟩ := first s good known
    exact ⟨moved, ih s after⟩
  | ask q next ih =>
    intro a said
    exact ih a (first a said)

/-- A question, and then what its answer allows. -/
theorem Guarded.query_bind {q : Q} {f : A q → Prog σ Q A α} (rest : ∀ a, R.said q a → Guarded R C (f a)) :
    Guarded R C (Prog.query q >>= f) := rest

/-- A section, and then what its result allows. -/
theorem Guarded.lock_bind {f : α → Prog σ Q A β}
    (each : ∀ s, R.inv s → C.knows s → R.move none s (body s).2 ∧ Guarded R C (f (body s).1)) :
    Guarded R C (Prog.lock body >>= f) := each

/-- After sections that keep the claim the call goes on with it. -/
theorem Safe.after {p : Prog σ Q A β} {f : β → Prog σ Q A α} (first : Guarded R C p)
    (ends : ∀ value s s', R.inv s' → C.knows s' → ∀ returned ∈ (f value).value?, final s s' returned)
    (rest : ∀ value, Safe R final (f value) C) : Safe R final (p >>= f) C := by
  induction p with
  | done value => exact rest value
  | locked act next ih =>
    intro s good known
    obtain ⟨moved, after⟩ := first s good known
    have known' := C.kept (.inl rfl) good known moved
    refine ⟨⟨none, .inl rfl, moved⟩, ?_, C, .inl rfl, known', ih s after⟩
    intro returned member
    obtain ⟨value, -, last⟩ := Prog.of_mem_value?_bind member
    exact ends value s _ (R.inv_move good moved) known' returned last
  | ask q next ih =>
    intro a said
    refine ⟨?_, ih a (first a said)⟩
    intro s good known returned member
    obtain ⟨value, -, last⟩ := Prog.of_mem_value?_bind member
    exact ends value s s good known returned last

/-- The call is safe from here, also where it returns at once. -/
def Sound (R : Rules σ Q A τ) (final : σ → σ → α → Prop) (p : Prog σ Q A α) (C : Claim R) : Prop :=
  (∀ s, R.inv s → C.knows s → ∀ value ∈ p.value?, final s s value) ∧ Safe R final p C

theorem Sound.pure {value : α} (ends : ∀ s, R.inv s → C.knows s → final s s value) :
    Sound R final (Pure.pure value) C := by
  refine ⟨?_, trivial⟩
  intro s good known returned member
  cases member
  exact ends s good known

theorem Sound.query_bind {q : Q} {f : A q → Prog σ Q A α} (rest : ∀ a, R.said q a → Sound R final (f a) C) :
    Sound R final (Prog.query q >>= f) C :=
  ⟨fun _ _ _ _ member => (by cases member), rest⟩

theorem Sound.lock
    (each : ∀ s, R.inv s → C.knows s →
      (∃ t, (t = none ∨ t = C.held) ∧ R.move t s (body s).2) ∧ final s (body s).2 (body s).1) :
    Sound R final (Prog.lock body) C := by
  refine ⟨fun _ _ _ _ member => (by cases member), ?_⟩
  intro s good known
  obtain ⟨moved, ends⟩ := each s good known
  refine ⟨moved, ?_, Claim.nothing, .inr fun _ absent => (by cases absent), trivial, trivial⟩
  intro returned member
  cases member
  exact ends

theorem Sound.lock_bind {body : σ → β × σ} {f : β → Prog σ Q A α}
    (each : ∀ s, R.inv s → C.knows s →
      (∃ t, (t = none ∨ t = C.held) ∧ R.move t s (body s).2) ∧
      (∀ value ∈ (f (body s).1).value?, final s (body s).2 value) ∧
      ∃ C' : Claim R, C.Passes C' s ∧ C'.knows (body s).2 ∧ Safe R final (f (body s).1) C') :
    Sound R final (Prog.lock body >>= f) C :=
  ⟨fun _ _ _ _ member => (by cases member), each⟩

/-- A section that only looks. -/
theorem Sound.read_bind {look : σ → β} {f : β → Prog σ Q A α} (stays : ∀ s, R.move none s s)
    (rest : ∀ value, Sound R final (f value) C) : Sound R final (Prog.lock (fun s => (look s, s)) >>= f) C :=
  Sound.lock_bind fun s good known =>
    ⟨⟨none, .inl rfl, stays s⟩, (rest (look s)).1 s good known, C, .inl rfl, known, (rest (look s)).2⟩

/-- A call whose returned value says nothing is safe where its sections are. -/
theorem Safe.of_guarded (first : Guarded R C p) (ends : ∀ s s' value, final s s' value) :
    Safe R final p C := by
  induction p with
  | done value => trivial
  | locked act next ih =>
    intro s good known
    obtain ⟨moved, after⟩ := first s good known
    exact ⟨⟨none, .inl rfl, moved⟩, fun value _ => ends _ _ value, C, .inl rfl, C.kept (.inl rfl) good known moved,
      ih s after⟩
  | ask q next ih =>
    intro a said
    exact ⟨fun s _ _ value _ => ends s s value, ih a (first a said)⟩

/-- A call may wrap what it returns. -/
theorem Safe.bind_pure {p : Prog σ Q A β} {wrap : β → α}
    (safe : Safe R (fun s s' value => final s s' (wrap value)) p C) : Safe R final (p >>= fun value => pure (wrap value)) C := by
  induction p generalizing C with
  | done value => trivial
  | locked act next ih =>
    intro s good known
    obtain ⟨moved, ends, C', passes, known', safe'⟩ := safe s good known
    refine ⟨moved, ?_, C', passes, known', ih s safe'⟩
    intro returned member
    obtain ⟨value, same, last⟩ := Prog.of_mem_value?_bind member
    cases last
    exact ends value (by rw [same]; rfl)
  | ask q next ih =>
    intro a said
    obtain ⟨ends, safe'⟩ := safe a said
    refine ⟨?_, ih a safe'⟩
    intro s good known returned member
    obtain ⟨value, same, last⟩ := Prog.of_mem_value?_bind member
    cases last
    exact ends s good known value (by rw [same]; rfl)

/-- The state is good, every call is safe from where it stands, and no token has two holders. -/
def Running (R : Rules σ Q A τ) (final : Nat → σ → σ → α → Prop) (y : System σ Q A α) : Prop :=
  R.inv y.shared ∧ ∃ claims : Nat → Claim R, (∀ i, (claims i).knows y.shared) ∧
    (∀ i p, y.threads[i]? = some p → Safe R (final i) p (claims i)) ∧
    ∀ i j t, (claims i).held = some t → (claims j).held = some t → i = j

theorem running_start {final : Nat → σ → σ → α → Prop} {s : σ} {threads : List (Prog σ Q A α)} (good : R.inv s)
    (safe : ∀ i p, threads[i]? = some p → Safe R (final i) p Claim.nothing) : Running R final ⟨s, threads⟩ := by
  refine ⟨good, fun _ => Claim.nothing, fun _ => trivial, safe, ?_⟩
  intro i j t held
  cases held

/-- What a turn did: it left the state, or made a move. -/
def Moved (R : Rules σ Q A τ) (s s' : σ) : Prop := s' = s ∨ ∃ t, R.move t s s'

variable {claims : Nat → Claim R}

theorem Claim.kept_others {i j : Nat} (apart : i ≠ j) {s s' : σ} {t : Option τ}
    (single : ∀ i j t, (claims i).held = some t → (claims j).held = some t → i = j) (good : R.inv s)
    (own : t = none ∨ t = (claims i).held) (moved : R.move t s s') (known : (claims j).knows s) :
    (claims j).knows s' := by
  refine (claims j).kept ?_ good known moved
  rcases t with _ | u
  · exact .inl rfl
  refine .inr ?_
  intro same
  rcases own with absent | holder
  · cases absent
  · exact apart (single i j u holder.symm same.symm)

/-- The calls keep running safely when the one whose turn it was goes on with a new claim. -/
theorem Running.replace {i : Nat} {p' : Prog σ Q A α}
    {C' : Claim R} {s' : σ} {t : Option τ} (good : R.inv y.shared)
    (knows : ∀ i, (claims i).knows y.shared)
    (safe : ∀ i p, y.threads[i]? = some p → Safe R (finals i) p (claims i))
    (single : ∀ i j t, (claims i).held = some t → (claims j).held = some t → i = j)
    (current : y.threads[i]? = some p) (own : t = none ∨ t = (claims i).held) (moved : R.move t y.shared s')
    (passes : (claims i).Passes C' y.shared) (known' : C'.knows s') (safe' : Safe R (finals i) p' C') :
    Running R finals ⟨s', y.threads.set i p'⟩ := by
  have others : ∀ j, i ≠ j → (claims j).knows s' :=
    fun j apart => Claim.kept_others apart single good own moved (knows j)
  -- A token that the new claim took was held by nobody: every held token had been issued.
  have fresh : ∀ j t, i ≠ j → C'.held = some t → (claims j).held ≠ some t := by
    intro j t apart held other
    rcases passes with same | unissued
    · exact apart (single i j t (same ▸ held) other)
    · exact unissued t held ((claims j).issued good (knows j) other)
  refine ⟨R.inv_move good moved, fun j => if i = j then C' else claims j, ?_, ?_, ?_⟩
  · intro j
    by_cases same : i = j
    · simpa [same] using known'
    · simpa [same] using others j same
  · intro j q found
    by_cases same : i = j
    · subst same
      obtain ⟨inside, -⟩ := List.getElem?_eq_some_iff.mp current
      rw [getElem?_set_self inside] at found
      cases found
      simpa using safe'
    · rw [getElem?_set_ne same] at found
      simpa [same] using safe j q found
  · intro j k t first second
    dsimp only at first second
    by_cases one : i = j <;> by_cases two : i = k
    · exact one.symm.trans two
    · rw [if_pos one] at first
      rw [if_neg two] at second
      exact absurd second (fresh k t two first)
    · rw [if_neg one] at first
      rw [if_pos two] at second
      exact absurd first (fresh j t one second)
    · rw [if_neg one] at first
      rw [if_neg two] at second
      exact single j k t first second

/-- One turn: what it does to the state, and what a call that returns in it returns. -/
theorem Running.step (running : Running R finals y) {e : Event Q A}
    (said : ∀ q, R.said q (e.host q)) :
    Running R finals (y.step e).1 ∧ Moved R y.shared (y.step e).1.shared ∧
      ∀ value ∈ (y.step e).2, finals e.thread y.shared (y.step e).1.shared value := by
  obtain ⟨good, claims, knows, safe, single⟩ := running
  unfold System.step
  rcases current : y.threads[e.thread]? with _ | p
  · exact ⟨⟨good, claims, knows, safe, single⟩, .inl rfl, by simp⟩
  have own := safe e.thread p current
  cases p with
  | done value =>
    have same : y.threads.set e.thread (.done value) = y.threads := by
      obtain ⟨inside, here⟩ := List.getElem?_eq_some_iff.mp current
      rw [← here]
      exact set_getElem_self inside
    refine ⟨?_, .inl rfl, by simp [Prog.value?]⟩
    simp only [Prog.turn, same]
    exact ⟨good, claims, knows, safe, single⟩
  | locked act next =>
    obtain ⟨⟨t, mine, moved⟩, ends, C', passes, known', safe'⟩ := own y.shared good (knows e.thread)
    exact ⟨Running.replace good knows safe single current mine moved passes known' safe', .inr ⟨t, moved⟩, ends⟩
  | ask q next =>
    obtain ⟨ends, safe'⟩ := own (e.host q) (said q)
    refine ⟨⟨good, claims, knows, ?_, single⟩, .inl rfl, ends y.shared good (knows e.thread)⟩
    intro j p' found
    by_cases apart : e.thread = j
    · subst apart
      obtain ⟨inside, -⟩ := List.getElem?_eq_some_iff.mp current
      rw [getElem?_set_self inside] at found
      cases found
      exact safe'
    · rw [getElem?_set_ne apart] at found
      exact safe j p' found

variable {events : List (Event Q A)}

theorem Running.run (running : Running R finals y)
    (said : ∀ e ∈ events, ∀ q, R.said q (e.host q)) :
    Running R finals (Machine.run System.step y events) := by
  induction events generalizing y with
  | nil => exact running
  | cons e rest ih =>
    exact ih (running.step (said e mem_cons_self)).1 fun e' member => said e' (mem_cons_of_mem _ member)

/-- What every move keeps, a whole run keeps. -/
theorem Running.run_keeps (running : Running R finals y)
    (said : ∀ e ∈ events, ∀ q, R.said q (e.host q)) {P : σ → Prop}
    (kept : ∀ {t s s'}, R.inv s → P s → R.move t s s' → P s') (start : P y.shared) :
    P (Machine.run System.step y events).shared := by
  induction events generalizing y with
  | nil => exact start
  | cons e rest ih =>
    obtain ⟨running', moved, -⟩ := running.step (said e mem_cons_self)
    refine ih running' (fun e' member => said e' (mem_cons_of_mem _ member)) ?_
    rcases moved with same | ⟨t, move⟩
    · rw [same]
      exact start
    · exact kept running.1 start move

end FerroLoop.Threads

import FerroLoop.Authority.Broker

namespace FerroLoop.Authority

open Std Threads Map State
open ExtTreeMap hiding getElem?_erase getElem?_insert

variable {said : ∀ q, Answer q → Prop}

def Written (said : ∀ q, Answer q → Prop) (scope : Scope) : Prop := ∃ reason, said (.persistFence scope reason) (.ok ())

def Verified (said : ∀ q, Answer q → Prop) (scope : Scope) (generation : Nat) : Prop :=
  Written said scope ∧ said (.verifyPersistedFence scope) (.ok generation)

inductive Change (said : ∀ q, Answer q → Prop) : Option Nat → State → State → Prop where
  | closing (s : State) : Change said none s s.sealed
  | record (s : State) (entry : Scope × String) :
      Change said none s { s with unresolvedRevocations := s.unresolvedRevocations ++ [entry] }
  | publish {s : State} {start generation : Nat} (current : s.generation = some start) (later : start ≤ generation)
      (sound : s.revocationFailed = false) : Change said none s { s with generation := some generation }
  | persist {s : State} {id : Nat} {f : Fence} {generation : Nat} (current : s.generation = some generation)
      (stored : s.fences[id]? = some f) (due : f.phase ≠ .pending) (verified : Verified said f.scope generation) :
      Change said none s { s with fences := s.fences.insert id { f with phase := .persisted } }
  | drop {s : State} {id : Nat} {f : Fence} {generation : Nat} (current : s.generation = some generation)
      (stored : s.fences[id]? = some f) (idle : f.waiting = false) (verified : Verified said f.scope generation) :
      Change said none s { s with fences := s.fences.erase id }
  | settle {s : State} {id : Nat} {f : Fence} {phase : FencePhase} (stored : s.fences[id]? = some f)
      (due : f.phase ≠ .pending) (unsettled : phase = .failed ∨ (phase = .durableUnverified ∧ Written said f.scope)) :
      Change said none s { s with fences := s.fences.insert id { f with phase := phase } }
  | advance (s : State) (chosen : Fence → Bool) (free : ∀ f, chosen f = true → s.blocked f.scope = false) :
      Change said none s
        { s with fences := s.fences.map fun _ f => if chosen f then { f with phase := .persisting } else f }
  | fence (s : State) (scope : Scope) (reason : String) (expanded : Scope) :
      Change said none s (s.withFence scope reason expanded)
  | release (s : State) (id : PermitId) : Change said none s { s with live := s.live.erase id }
  | mark (s : State) (marked : PermitId → LivePermit → Bool) :
      Change said none s { s with live := s.live.map fun id p => { p with cancellationRequested := marked id p } }
  | grant {s : State} {req : AdmitRequest} {verified : VerifiedAdmission} (id : PermitId) (deadline : Nat)
      (answered : said (.verifyAdmission req) (.ok verified)) (current : s.generation = some verified.generation)
      (resolved : s.unresolvedRevocations = [])
      (apart : ∀ (id : Nat) (f : Fence), s.fences[id]? = some f → Disjoint f.scope verified.scope)
      (free : s.live[id]? = none) :
      Change said none s { s with live := s.live.insert id ⟨verified.scope, verified.worker, deadline, false⟩ }
  | reopen {s : State} (generation : Nat) (closed : s.generation = none) (sound : s.revocationFailed = false)
      (bare : s.fences = ∅) : Change said none s { s with generation := some generation, reconciled := true }
  | relinquish (s : State) (id : Nat) : Change said (some id) s (s.relinquish id)

def Move (said : ∀ q, Answer q → Prop) (t : Option Nat) : State → State → Prop :=
  Relation.ReflTransGen (Change said t)

def Reached (generation : Nat) (s : State) : Prop :=
  s.revocationFailed = true ∨ ∃ current, s.generation = some current ∧ generation ≤ current

structure Inv (said : ∀ q, Answer q → Prop) (s : State) : Prop where
  numbered : ∀ (id : Nat) (f : Fence), s.fences[id]? = some f → id < s.nextFenceId
  /-- No live permit meets a fence that is past waiting for permits. -/
  clear : ∀ (id : Nat) (f : Fence), s.fences[id]? = some f → f.phase ≠ .pending →
    ∀ (permit : PermitId) (p : LivePermit), s.live[permit]? = some p → Disjoint p.scope f.scope
  verified : ∀ (id : Nat) (f : Fence), s.fences[id]? = some f → f.phase = .persisted →
    ∃ generation, Verified said f.scope generation ∧ Reached generation s
  written : ∀ (id : Nat) (f : Fence), s.fences[id]? = some f → f.phase = .durableUnverified → Written said f.scope
  closed : s.revocationFailed = true → s.generation = none

variable {scope : Scope}

theorem State.blocked_eq_false {s : State} : s.blocked scope = false ↔
    ∀ (id : PermitId) (p : LivePermit), s.live[id]? = some p → Disjoint p.scope scope := by
  unfold blocked
  rw [List.any_eq_false]
  constructor
  · intro none id p stored
    have apart := none (id, p) (mem_toList_iff_getElem?_eq_some.mpr stored)
    simpa using apart
  · rintro all ⟨id, p⟩ member
    have apart := all id p (mem_toList_iff_getElem?_eq_some.mp member)
    simpa using apart

variable {generation : Nat}

theorem Reached.current {s : State} (now : s.generation = some generation) : Reached generation s :=
  .inr ⟨generation, now, le_rfl⟩

variable {t : Option Nat} {s s' : State}

section

variable (change : Change said t s s')

include change

theorem Change.reached (reached : Reached generation s) : Reached generation s' := by
  cases change with
  | closing => exact .inl rfl
  | publish current later sound =>
    rcases reached with failed | ⟨now, here, before⟩
    · rw [sound] at failed
      cases failed
    · rw [current] at here
      cases here
      exact .inr ⟨_, rfl, before.trans later⟩
  | reopen next closed sound bare =>
    rcases reached with failed | ⟨now, here, before⟩
    · rw [sound] at failed
      cases failed
    · rw [closed] at here
      cases here
  | relinquish =>
    unfold State.relinquish
    split
    · exact reached
    · split <;> exact reached
  | _ => exact reached

theorem Change.failed (failed : s.revocationFailed = true) : s'.revocationFailed = true := by
  cases change with
  | closing => rfl
  | relinquish =>
    unfold State.relinquish
    split
    · exact failed
    · split <;> exact failed
  | _ => exact failed

theorem Change.closed (closed : s.revocationFailed = true → s.generation = none) :
    s'.revocationFailed = true → s'.generation = none := by
  cases change with
  | closing => exact fun _ => rfl
  | publish current later sound | reopen next none sound bare =>
    intro failed
    rw [sound] at failed
    cases failed
  | relinquish =>
    unfold State.relinquish
    split
    · exact closed
    · split <;> exact closed
  | _ => exact closed

theorem Change.numbers : s.nextFenceId ≤ s'.nextFenceId := by
  cases change with
  | fence => exact Nat.le_succ _
  | relinquish =>
    unfold State.relinquish
    split
    · exact le_rfl
    · split <;> exact le_rfl
  | _ => exact le_rfl

end

structure Becomes (said : ∀ q, Answer q → Prop) (t : Option Nat) (s : State) (id : Nat) (f f' : Fence) : Prop where
  scope : f'.scope = f.scope
  waiting : f'.waiting = f.waiting ∨ t = some id
  due : f.phase ≠ .pending → f'.phase ≠ .pending
  free : f'.phase ≠ .pending → f.phase ≠ .pending ∨ s.blocked f.scope = false
  verified : f'.phase = .persisted → f.phase = .persisted ∨ ∃ current, s.generation = some current ∧ Verified said f.scope current
  written : f'.phase = .durableUnverified → f.phase = .durableUnverified ∨ Written said f.scope

variable {id : Nat} {f : Fence}

theorem Becomes.rfl : Becomes said t s id f f :=
  ⟨Eq.refl _, .inl (Eq.refl _), fun due => due, .inl, .inl, .inl⟩

theorem Change.fence_after (inv : Inv said s) (change : Change said t s s')
    (stored : s.fences[id]? = some f) :
    (∃ f', s'.fences[id]? = some f' ∧ Becomes said t s id f f') ∨
      (s'.fences[id]? = none ∧ (f.waiting = false ∨ t = some id) ∧
        ∃ generation, Verified said f.scope generation ∧ Reached generation s') := by
  cases change with
  | @persist _ other old generation current held due verified =>
    left
    by_cases same : other = id
    · subst same
      rw [held] at stored
      cases stored
      refine ⟨{ f with phase := .persisted }, by rw [getElem?_insert, if_pos rfl], rfl, .inl rfl, ?_, ?_, ?_, ?_⟩
      · exact fun _ => by simp
      · exact fun _ => .inl due
      · exact fun _ => .inr ⟨generation, current, verified⟩
      · intro unverified
        cases unverified
    · exact ⟨f, by rw [getElem?_insert, if_neg same]; exact stored, .rfl⟩
  | @drop _ other old generation current held idle verified =>
    by_cases same : other = id
    · subst same
      rw [held] at stored
      cases stored
      exact .inr ⟨by rw [getElem?_erase, if_pos rfl], .inl idle, generation, verified, .current current⟩
    · exact .inl ⟨f, by rw [getElem?_erase, if_neg same]; exact stored, .rfl⟩
  | @settle _ other old phase held due unsettled =>
    left
    by_cases same : other = id
    · subst same
      rw [held] at stored
      cases stored
      refine ⟨{ f with phase := phase }, by rw [getElem?_insert, if_pos rfl], rfl, .inl rfl, ?_, ?_, ?_, ?_⟩
      · rintro -
        rcases unsettled with rfl | ⟨rfl, -⟩ <;> simp
      · exact fun _ => .inl due
      · intro persisted
        rcases unsettled with rfl | ⟨rfl, -⟩ <;> cases persisted
      · intro unverified
        rcases unsettled with rfl | ⟨-, written⟩
        · cases unverified
        · exact .inr written
    · exact ⟨f, by rw [getElem?_insert, if_neg same]; exact stored, .rfl⟩
  | advance _ chosen free =>
    left
    refine ⟨if chosen f then { f with phase := .persisting } else f, ?_, ?_⟩
    · rw [getElem?_map, stored, Option.map_some]
    by_cases taken : chosen f = true
    · rw [if_pos taken]
      exact ⟨rfl, .inl rfl, fun _ => by simp, fun _ => .inr (free f taken),
        fun persisted => (by cases persisted), fun unverified => (by cases unverified)⟩
    · rw [if_neg taken]
      exact .rfl
  | fence _ scope reason expanded =>
    left
    have other : s.nextFenceId ≠ id := (inv.numbered id f stored).ne'
    exact ⟨f, by rw [withFence, getElem?_insert, if_neg other]; exact stored, .rfl⟩
  | reopen next closed sound bare =>
    rw [bare, getElem?_empty] at stored
    cases stored
  | relinquish _ other =>
    unfold State.relinquish
    rcases held : s.fences[other]? with _ | old
    · exact .inl ⟨f, stored, .rfl⟩
    dsimp only
    by_cases same : other = id
    · subst same
      rw [held] at stored
      cases stored
      by_cases persisted : f.phase = .persisted
      · obtain ⟨generation, verified, reached⟩ := inv.verified other f held persisted
        rw [if_pos persisted]
        exact .inr ⟨by rw [getElem?_erase, if_pos rfl], .inr rfl, generation, verified, reached⟩
      · rw [if_neg persisted]
        exact .inl ⟨{ f with waiting := false }, by rw [getElem?_insert, if_pos rfl], rfl, .inr rfl,
          fun due => due, .inl, .inl, .inl⟩
    · left
      refine ⟨f, ?_, .rfl⟩
      split
      · rw [getElem?_erase, if_neg same]
        exact stored
      · rw [getElem?_insert, if_neg same]
        exact stored
  | _ => exact .inl ⟨f, stored, .rfl⟩

theorem Change.fence_new (change : Change said t s s') (absent : s.fences[id]? = none)
    (stored : s'.fences[id]? = some f) : id = s.nextFenceId ∧ id < s'.nextFenceId ∧ f.phase = .pending := by
  cases change with
  | @persist _ other old generation current held due verified =>
    rw [getElem?_insert] at stored
    split at stored
    · rename_i same
      rw [same, absent] at held
      cases held
    · rw [absent] at stored
      cases stored
  | @drop _ other old generation current held idle verified =>
    rw [getElem?_erase, absent, ite_self] at stored
    cases stored
  | @settle _ other old phase held due unsettled =>
    rw [getElem?_insert] at stored
    split at stored
    · rename_i same
      rw [same, absent] at held
      cases held
    · rw [absent] at stored
      cases stored
  | advance _ chosen free =>
    rw [getElem?_map, absent] at stored
    cases stored
  | fence _ scope reason expanded =>
    rw [withFence, getElem?_insert] at stored
    split at stored
    · rename_i same
      cases stored
      subst same
      exact ⟨rfl, Nat.lt_succ_self _, rfl⟩
    · rw [absent] at stored
      cases stored
  | relinquish _ other =>
    unfold State.relinquish at stored
    cases held : s.fences[other]? with
    | none =>
      rw [held] at stored
      dsimp only at stored
      rw [absent] at stored
      cases stored
    | some old =>
      rw [held] at stored
      dsimp only at stored
      have apart : other ≠ id := by
        intro same
        rw [same, absent] at held
        cases held
      split at stored
      · rw [getElem?_erase, if_neg apart, absent] at stored
        cases stored
      · rw [getElem?_insert, if_neg apart, absent] at stored
        cases stored
  | _ =>
    change s.fences[id]? = some f at stored
    rw [absent] at stored
    cases stored

theorem Change.fence_before (inv : Inv said s) (change : Change said t s s') {f' : Fence}
    (stored : s'.fences[id]? = some f') :
    (∃ f, s.fences[id]? = some f ∧ Becomes said t s id f f') ∨ (id < s'.nextFenceId ∧ f'.phase = .pending) := by
  rcases held : s.fences[id]? with _ | f
  · exact .inr (change.fence_new held stored).2
  rcases change.fence_after inv held with ⟨f'', here, becomes⟩ | ⟨gone, -⟩
  · rw [stored] at here
    cases here
    exact .inl ⟨f, rfl, becomes⟩
  · rw [stored] at gone
    cases gone

/-- A permit in the broker was there before, or has just been granted: in an open broker without
unresolved requests, past every fence, on evidence of the broker's own generation. -/
theorem Change.permit_before (change : Change said t s s') {id : PermitId} {p' : LivePermit}
    (stored : s'.live[id]? = some p') :
    (∃ p, s.live[id]? = some p ∧ p'.scope = p.scope) ∨
      (s.live[id]? = none ∧ s.unresolvedRevocations = [] ∧
        (∀ (id : Nat) (f : Fence), s.fences[id]? = some f → Disjoint p'.scope f.scope) ∧
        ∃ req verified, said (.verifyAdmission req) (.ok verified) ∧ p'.scope = verified.scope ∧
          s.generation = some verified.generation) := by
  cases change with
  | release _ other =>
    rw [getElem?_erase] at stored
    split at stored
    · cases stored
    · exact .inl ⟨p', stored, rfl⟩
  | mark _ marked =>
    rw [getElem?_map] at stored
    obtain ⟨p, held, same⟩ := Option.map_eq_some_iff.mp stored
    subst same
    exact .inl ⟨p, held, rfl⟩
  | @grant _ req verified other deadline answered current resolved apart free =>
    rw [getElem?_insert] at stored
    split at stored
    · rename_i same
      subst same
      cases stored
      exact .inr ⟨free, resolved, fun id f held => (apart id f held).symm, req, verified, answered, rfl, current⟩
    · exact .inl ⟨p', stored, rfl⟩
  | relinquish _ other =>
    left
    unfold State.relinquish at stored
    split at stored
    · exact ⟨p', stored, rfl⟩
    · split at stored <;> exact ⟨p', stored, rfl⟩
  | _ => exact .inl ⟨p', stored, rfl⟩

theorem Change.inv (change : Change said t s s') (inv : Inv said s) : Inv said s' where
  numbered := by
    intro id f' stored
    rcases change.fence_before inv stored with ⟨f, held, -⟩ | ⟨below, -⟩
    · exact (inv.numbered id f held).trans_le change.numbers
    · exact below
  clear := by
    intro id f' stored due permit p' live
    rcases change.fence_before inv stored with ⟨f, held, becomes⟩ | ⟨-, pending⟩
    · rcases change.permit_before live with ⟨p, before, same⟩ | ⟨-, -, apart, -⟩
      · rw [same, becomes.scope]
        rcases becomes.free due with already | free
        · exact inv.clear id f held already permit p before
        · exact blocked_eq_false.mp free permit p before
      · rw [becomes.scope]
        exact apart id f held
    · exact absurd pending due
  verified := by
    intro id f' stored persisted
    rcases change.fence_before inv stored with ⟨f, held, becomes⟩ | ⟨-, pending⟩
    · rw [becomes.scope]
      rcases becomes.verified persisted with already | ⟨current, now, verified⟩
      · obtain ⟨generation, verified, reached⟩ := inv.verified id f held already
        exact ⟨generation, verified, change.reached reached⟩
      · exact ⟨current, verified, change.reached (.current now)⟩
    · rw [persisted] at pending
      cases pending
  written := by
    intro id f' stored unverified
    rcases change.fence_before inv stored with ⟨f, held, becomes⟩ | ⟨-, pending⟩
    · rw [becomes.scope]
      rcases becomes.written unverified with already | written
      · exact inv.written id f held already
      · exact written
    · rw [unverified] at pending
      cases pending
  closed := change.closed inv.closed

theorem Move.inv (move : Move said t s s') (inv : Inv said s) : Inv said s' := by
  induction move with
  | refl => exact inv
  | tail _ change ih => exact change.inv ih

theorem Move.keeps {P : State → Prop} (kept : ∀ {s s'}, Inv said s → Change said t s s' → P s → P s')
    (move : Move said t s s') (inv : Inv said s) (start : P s) : P s' := by
  induction move with
  | refl => exact start
  | tail before change ih => exact kept (Move.inv before inv) change ih

def rules (said : ∀ q, Answer q → Prop) : Rules State Query Answer Nat where
  inv := Inv said
  move := Move said
  issued id s := id < s.nextFenceId
  said := said
  inv_move inv move := move.inv inv
  issued_move inv below move :=
    move.keeps (P := fun s => _ < s.nextFenceId) (fun _ change here => Nat.lt_of_lt_of_le here change.numbers) inv below

theorem inv_initial : Inv said {} where
  numbered id f stored := by
    cases stored
  clear id f stored := by
    cases stored
  verified id f stored := by
    cases stored
  written id f stored := by
    cases stored
  closed failed := by cases failed

def Due (id : Nat) (scope : Scope) (s : State) : Prop :=
  id < s.nextFenceId ∧ ∀ f : Fence, s.fences[id]? = some f → f.scope = scope ∧ f.phase ≠ .pending

theorem Change.due (inv : Inv said s) (change : Change said t s s') {id : Nat} (due : Due id scope s) :
    Due id scope s' := by
  refine ⟨due.1.trans_le change.numbers, ?_⟩
  intro f' stored
  cases held : s.fences[id]? with
  | none =>
    have fresh := (change.fence_new held stored).1
    have below := due.1
    omega
  | some f =>
    rcases change.fence_after inv held with ⟨f'', here, becomes⟩ | ⟨gone, -⟩
    · rw [stored] at here
      cases here
      exact ⟨becomes.scope.trans (due.2 f held).1, becomes.due (due.2 f held).2⟩
    · rw [stored] at gone
      cases gone

def Waiting (id : Nat) (scope : Scope) (s : State) : Prop :=
  ∃ f : Fence, s.fences[id]? = some f ∧ f.scope = scope ∧ f.waiting = true

theorem Change.waiting (inv : Inv said s) (change : Change said t s s') {id : Nat}
    (foreign : t = none ∨ t ≠ some id) (waiting : Waiting id scope s) : Waiting id scope s' := by
  have other : t ≠ some id := by
    rcases foreign with rfl | apart
    · simp
    · exact apart
  obtain ⟨f, held, same, waits⟩ := waiting
  rcases change.fence_after inv held with ⟨f', here, becomes⟩ | ⟨-, left, -⟩
  · refine ⟨f', here, becomes.scope.trans same, ?_⟩
    rcases becomes.waiting with kept | own
    · rw [kept]
      exact waits
    · exact absurd own other
  · rcases left with idle | own
    · rw [waits] at idle
      cases idle
    · exact absurd own other

/-- The scope is denied: by a fence, by a durable one the broker's generation has reached, or
because the broker refuses everything. -/
def Denied (said : ∀ q, Answer q → Prop) (scope : Scope) (s : State) : Prop :=
  (∃ (id : Nat) (f : Fence), s.fences[id]? = some f ∧ f.scope = scope) ∨
    ∃ generation, Verified said scope generation ∧ Reached generation s

theorem Change.denied (inv : Inv said s) (change : Change said t s s') (denied : Denied said scope s) :
    Denied said scope s' := by
  rcases denied with ⟨id, f, held, same⟩ | ⟨generation, verified, reached⟩
  · rcases change.fence_after inv held with ⟨f', here, becomes⟩ | ⟨-, -, generation, verified, reached⟩
    · exact .inl ⟨id, f', here, becomes.scope.trans same⟩
    · rw [same] at verified
      exact .inr ⟨generation, verified, reached⟩
  · exact .inr ⟨generation, verified, change.reached reached⟩

end FerroLoop.Authority

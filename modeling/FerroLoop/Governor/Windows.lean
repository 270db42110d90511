import FerroLoop.Governor.Accounting

namespace FerroLoop.Governor

open Std Word Machine Inner

inductive Event where
  | reserve (req : AdmissionRequest) (now : UInt64)
  | settle (req : SettleRequest)
  | updatePolicy (policy : GovernorPolicy)

/-- `update_policy` lets its caller change the policy in any way. -/
def stepEvent (g : Inner) : Event → Inner × Option AdmissionOutcome
  | .reserve req now => ((reserve g req now).1, some (reserve g req now).2)
  | .settle req => ((settle g req).1, none)
  | .updatePolicy policy => ({ g with policy }, none)

def Event.time : Event → Option UInt64
  | .reserve _ now => some now
  | _ => none

/-- The clock the calls are made with never goes back. -/
def Forward (events : List Event) : Prop := (events.filterMap Event.time).Pairwise (· ≤ ·)

structure Grant where
  scopes : List String
  now : UInt64
  policy : GovernorPolicy

def workerGrant (g : Inner) : Event → Option Grant
  | .reserve req now =>
    match (reserve g req now).2 with
    | .admitted permit => if permit.governanceLane then none else some ⟨permit.scopes, now, g.policy⟩
    | _ => none
  | _ => none

def grants (g : Inner) : List Event → List Grant
  | [] => []
  | event :: rest => (workerGrant g event).toList ++ grants (stepEvent g event).1 rest

structure RateWindow where
  start : UInt64
  cap : UInt64
  admitted : Nat
  deriving DecidableEq

def admitIn (now windowMs cap : UInt64) : List RateWindow → List RateWindow
  | [] => [⟨now, cap, 1⟩]
  | w :: older =>
    if running w.start now windowMs then { w with admitted := w.admitted + 1 } :: older else ⟨now, cap, 1⟩ :: w :: older

def countIn (scope : String) (windows : List RateWindow) (grant : Grant) : List RateWindow :=
  if scope ∈ grant.scopes then admitIn grant.now grant.policy.rateWindowMs (grant.policy.rateFor scope) windows
  else windows

def rateWindows (scope : String) (granted : List Grant) : List RateWindow := granted.foldl (countIn scope) []

def AdmittedByWindows (g : Inner) (event : Event) : Prop :=
  ∀ grant, workerGrant g event = some grant → ∀ scope ∈ grant.scopes,
    (windowAdmit (g.state scope).window grant.now g.policy.rateWindowMs (g.policy.rateFor scope) 1).2 = true

/-- No scope of a worker request has a window that has run out while the scope's cap is zero, and no
running window has counted as far as its counter goes. -/
def Opens (g : Inner) : Event → Prop
  | .reserve req now => req.isGovernance = false → ∀ scope ∈ req.scopes, ∀ w ∈ (g.state scope).window,
      if running w.windowStartMs now g.policy.rateWindowMs then w.used.toNat + 1 < 2 ^ 64
      else 0 < g.policy.rateFor scope
  | _ => True

variable {now : UInt64} {g : Inner} {req : AdmissionRequest} {windows : String → List RateWindow}

theorem windowAdmit_peeked {scope : String} (peeked : rateExhausted g now scope = none)
    (opens : ∀ w ∈ (g.state scope).window, if running w.windowStartMs now g.policy.rateWindowMs then
      w.used.toNat + 1 < 2 ^ 64 else 0 < g.policy.rateFor scope) :
    (windowAdmit (g.state scope).window now g.policy.rateWindowMs (g.policy.rateFor scope) 1).2 = true := by
  have one : ∀ {cap : UInt64}, 0 < cap → 1 ≤ cap := by
    intro cap positive
    exact UInt64.lt_iff_toNat_lt.mp positive
  unfold rateExhausted at peeked
  cases held : (g.state scope).window with
  | none =>
    rw [held] at peeked
    dsimp only at peeked
    split at peeked
    · cases peeked
    · exact decide_eq_true (one (UInt64.pos_iff_ne_zero.mpr ‹_›))
  | some w =>
    rw [held] at peeked
    have here := opens w (by rw [held]; rfl)
    dsimp only at peeked
    unfold windowAdmit
    dsimp only
    cases going : running w.windowStartMs now g.policy.rateWindowMs with
    | true =>
      rw [going] at peeked
      simp only [true_and] at peeked
      split at peeked
      · cases peeked
      · rw [if_pos rfl, if_pos (UInt64.not_lt.mp ‹_›)]
    | false =>
      rw [going, if_neg Bool.false_ne_true] at here
      exact decide_eq_true (one here)

theorem granted_window (worker : req.isGovernance = false) (now : UInt64)
    (scope : String) :
    ((g.granted req now).state scope).window =
      if scope ∈ req.scopes then
        some (windowAdmit (g.state scope).window now g.policy.rateWindowMs (g.policy.rateFor scope) 1).1
      else (g.state scope).window := by
  rw [granted_state, worker]
  split <;> rfl

theorem granted_window_governance (governance : req.isGovernance = true)
    (now : UInt64) (scope : String) : ((g.granted req now).state scope).window = (g.state scope).window := by
  rw [granted_state, governance]
  split <;> rfl

theorem changeHeld_window {change : ScopeState → ScopeState} (keeps : ∀ st, (change st).window = st.window)
    (names : List String) (scopes : Scopes) (scope : String) :
    (Scopes.state (Scopes.changeHeld change scopes names) scope).window = (Scopes.state scopes scope).window := by
  unfold Scopes.changeHeld
  induction names generalizing scopes with
  | nil => rfl
  | cons first rest ih =>
    rw [List.foldl_cons, ih]
    rcases held : scopes[first]? with _ | st
    · rfl
    rw [Scopes.state_insert]
    split
    · rename_i same
      rw [keeps, ← same, Scopes.state, held]
      rfl
    · rfl

theorem settle_window (g : Inner) (req : SettleRequest) (scope : String) :
    ((settle g req).1.state scope).window = (g.state scope).window := by
  unfold settle
  split
  · rfl
  split
  · rfl
  apply changeHeld_window
  intro st
  unfold release
  split <;> split <;> rfl

/-- The window the store keeps for a scope is the last one the grants made, with as many admissions
used as were granted in it. -/
def Tracks : Option WindowState → List RateWindow → Prop
  | none, [] => True
  | some w, last :: _ => w.windowStartMs = last.start ∧ w.capAtFirstObservation = last.cap ∧ w.used.toNat = last.admitted
  | _, _ => False

structure Follows (g : Inner) (windows : String → List RateWindow) : Prop where
  tracks : ∀ scope, Tracks (g.state scope).window (windows scope)
  within : ∀ scope, ∀ w ∈ windows scope, w.admitted ≤ w.cap.toNat

theorem refusal_ne_admitted (g : Inner) (req : AdmissionRequest) (now : UInt64) (permit : Permit) :
    refusal g req now ≠ some (.admitted permit) := by
  have either : ∀ {a b : Option AdmissionOutcome}, a ≠ some (.admitted permit) → b ≠ some (.admitted permit) →
      a.or b ≠ some (.admitted permit) := by
    intro a b first second
    cases a with
    | none => exact second
    | some outcome => exact first
  have each : ∀ (check : String → Option AdmissionOutcome), (∀ scope, check scope ≠ some (.admitted permit)) →
      req.scopes.findSome? check ≠ some (.admitted permit) := by
    intro check never first
    obtain ⟨scope, -, here⟩ := List.exists_of_findSome?_eq_some first
    exact never scope here
  have stale : staleQuota g req now ≠ some (.admitted permit) := by
    unfold staleQuota
    split
    · split <;> simp
    · simp
  have slots : ∀ scope, concurrencyExhausted g scope ≠ some (.admitted permit) := by
    intro scope
    unfold concurrencyExhausted
    dsimp only
    split <;> simp
  have rates : ∀ scope, rateExhausted g now scope ≠ some (.admitted permit) := by
    intro scope
    unfold rateExhausted
    split <;> split <;> simp
  have budgets : ∀ scope, budgetExhausted g req.requestedUnits scope ≠ some (.admitted permit) := by
    intro scope
    unfold budgetExhausted
    dsimp only
    split <;> simp
  refine either stale (either (each _ slots) ?_)
  split
  · simp
  · exact either (each _ rates) (each _ budgets)

theorem workerGrant_reserve {grant : Grant}
    (found : workerGrant g (.reserve req now) = some grant) :
    refusal g req now = none ∧ req.isGovernance = false ∧ grant = ⟨req.scopes, now, g.policy⟩ := by
  unfold workerGrant reserve at found
  dsimp only at found
  cases judged : refusal g req now with
  | some outcome =>
    rw [judged] at found
    cases outcome with
    | admitted permit => exact absurd judged (refusal_ne_admitted g req now permit)
    | _ => cases found
  | none =>
    rw [judged] at found
    dsimp only [permitFor] at found
    split at found
    · cases found
    · cases found
      exact ⟨rfl, Bool.not_eq_true _ ▸ ‹_›, rfl⟩

theorem workerGrant_of_refused
    (judged : refusal g req now ≠ none ∨ req.isGovernance = true) : workerGrant g (.reserve req now) = none := by
  rcases found : workerGrant g (.reserve req now) with _ | grant
  · rfl
  obtain ⟨granted, worker, -⟩ := workerGrant_reserve found
  rcases judged with refused | governance
  · exact absurd granted refused
  · rw [governance] at worker
    cases worker

theorem workerGrant_of_granted (judged : refusal g req now = none)
    (worker : req.isGovernance = false) : workerGrant g (.reserve req now) = some ⟨req.scopes, now, g.policy⟩ := by
  unfold workerGrant reserve
  dsimp only
  rw [judged]
  dsimp only [permitFor]
  rw [worker]
  rfl

theorem Tracks.admitting {state : Option WindowState} {windows : List RateWindow} (tracks : Tracks state windows)
    (within : ∀ w ∈ windows, w.admitted ≤ w.cap.toNat) {windowMs cap : UInt64}
    (room : ∀ w ∈ state, running w.windowStartMs now windowMs = true → w.used.toNat + 1 < 2 ^ 64)
    (admitted : (windowAdmit state now windowMs cap 1).2 = true) :
    Tracks (some (windowAdmit state now windowMs cap 1).1) (admitIn now windowMs cap windows) ∧
      ∀ w ∈ admitIn now windowMs cap windows, w.admitted ≤ w.cap.toNat := by
  have begun : ∀ {others : List RateWindow}, decide ((1 : UInt64) ≤ cap) = true →
      (∀ w ∈ others, w.admitted ≤ w.cap.toNat) → ∀ w ∈ (⟨now, cap, 1⟩ :: others : List RateWindow),
        w.admitted ≤ w.cap.toNat := by
    intro others fits rest w found
    rcases List.mem_cons.mp found with same | old
    · subst same
      exact UInt64.le_iff_toNat_le.mp (of_decide_eq_true fits)
    · exact rest w old
  unfold windowAdmit at admitted ⊢
  cases state with
  | none =>
    cases windows with
    | cons last older => exact tracks.elim
    | nil =>
      dsimp only [admitIn] at admitted ⊢
      rw [if_pos admitted]
      exact ⟨⟨rfl, rfl, rfl⟩, begun admitted within⟩
  | some w =>
    rcases windows with _ | ⟨last, older⟩
    · exact tracks.elim
    obtain ⟨start, cap', used⟩ := tracks
    have bound := room w rfl
    dsimp only [admitIn] at admitted ⊢
    rw [start] at bound admitted ⊢
    cases going : running last.start now windowMs with
    | false =>
      rw [going, if_neg Bool.false_ne_true] at admitted
      rw [if_neg Bool.false_ne_true, if_neg Bool.false_ne_true, if_pos admitted]
      exact ⟨⟨rfl, rfl, rfl⟩, begun admitted within⟩
    | true =>
      have counted : (w.used + 1).toNat = w.used.toNat + 1 := toNat_add_of_lt (bound going)
      rw [going, if_pos rfl] at admitted
      rw [if_pos rfl, if_pos rfl]
      by_cases fits : satAdd w.used 1 ≤ w.capAtFirstObservation
      · rw [if_pos fits]
        refine ⟨⟨rfl, cap', by rw [counted, used]⟩, ?_⟩
        intro one found
        rcases List.mem_cons.mp found with same | old
        · subst same
          have single : (1 : UInt64).toNat = 1 := rfl
          have word := bound going
          rw [UInt64.le_iff_toNat_le, toNat_satAdd] at fits
          show last.admitted + 1 ≤ last.cap.toNat
          rw [← cap', ← used]
          omega
        · exact within one (List.mem_cons_of_mem _ old)
      · rw [if_neg fits] at admitted
        cases admitted

theorem Follows.granted (follows : Follows g windows)
    (judged : refusal g req now = none) (worker : req.isGovernance = false)
    (opens : Opens g (.reserve req now)) :
    Follows (g.granted req now) fun scope => countIn scope (windows scope) ⟨req.scopes, now, g.policy⟩ := by
  have each : ∀ scope, Tracks ((g.granted req now).state scope).window
        (countIn scope (windows scope) ⟨req.scopes, now, g.policy⟩) ∧
      ∀ w ∈ countIn scope (windows scope) ⟨req.scopes, now, g.policy⟩, w.admitted ≤ w.cap.toNat := by
    intro scope
    rw [granted_window worker, countIn]
    by_cases member : scope ∈ req.scopes
    · rw [if_pos member, if_pos member]
      have here := opens worker scope member
      refine (follows.tracks scope).admitting (follows.within scope) ?_
        (windowAdmit_peeked ((refusal_none judged).2 worker scope member).1 here)
      intro w held going
      have bound := here w held
      rw [going, if_pos rfl] at bound
      exact bound
    · rw [if_neg member, if_neg member]
      exact ⟨follows.tracks scope, follows.within scope⟩
  exact ⟨fun scope => (each scope).1, fun scope => (each scope).2⟩

theorem Follows.same_windows {g' : Inner} (follows : Follows g windows)
    (same : ∀ scope, (g'.state scope).window = (g.state scope).window) : Follows g' windows := by
  refine ⟨?_, follows.within⟩
  intro scope
  rw [same]
  exact follows.tracks scope

variable {event : Event}

theorem Follows.step (follows : Follows g windows)
    (opens : Opens g event) :
    Follows (stepEvent g event).1 fun scope => (workerGrant g event).toList.foldl (countIn scope) (windows scope) := by
  cases event with
  | reserve req now =>
    show Follows (reserve g req now).1 _
    unfold reserve
    cases judged : refusal g req now with
    | some outcome =>
      rw [workerGrant_of_refused (.inl (by rw [judged]; exact Option.some_ne_none _))]
      exact follows
    | none =>
      cases lane : req.isGovernance with
      | true =>
        rw [workerGrant_of_refused (.inr lane)]
        exact follows.same_windows (granted_window_governance lane now)
      | false =>
        rw [workerGrant_of_granted judged lane]
        exact follows.granted judged lane opens
  | settle req => exact follows.same_windows (settle_window g req)
  | updatePolicy policy => exact follows.same_windows fun scope => rfl

theorem admittedByWindows (opens : Opens g event) : AdmittedByWindows g event := by
  intro grant found scope member
  cases event with
  | reserve req now =>
    obtain ⟨judged, worker, same⟩ := workerGrant_reserve found
    subst same
    exact windowAdmit_peeked ((refusal_none judged).2 worker scope member).1 (opens worker scope member)
  | settle req | updatePolicy policy => cases found

theorem Follows.run (follows : Follows g windows) {events : List Event}
    (opens : Throughout stepEvent Opens g events) (scope : String) :
    ∀ w ∈ (grants g events).foldl (countIn scope) (windows scope), w.admitted ≤ w.cap.toNat := by
  induction events generalizing g windows with
  | nil => exact follows.within scope
  | cons event rest ih =>
    unfold grants
    rw [List.foldl_append]
    exact ih (follows.step opens.1) opens.2

theorem new_follows (policy : GovernorPolicy) : Follows (new policy) fun _ => [] := by
  refine ⟨?_, ?_⟩
  · intro scope
    trivial
  · intro scope w found
    cases found

/-- Whatever calls and policy changes arrive, as long as no worker request meets a window that has
run out in a scope whose cap is zero: no window holds more admissions than the cap it began under,
and every worker admission was admitted by all its windows. -/
theorem rate_caps_hold (policy : GovernorPolicy) (events : List Event)
    (opens : Throughout stepEvent Opens (new policy) events) :
    (∀ scope, ∀ w ∈ rateWindows scope (grants (new policy) events), w.admitted ≤ w.cap.toNat) ∧
      Throughout stepEvent AdmittedByWindows (new policy) events := by
  constructor
  · intro scope
    exact (new_follows policy).run opens scope
  · exact @Throughout.mono Inner Event (Option AdmissionOutcome) stepEvent (fun _ => True) Opens AdmittedByWindows
      (fun _ _ _ _ => trivial) (fun _ _ _ here => admittedByWindows here) _ trivial _ opens

instance (g : Inner) (event : Event) : Decidable (Opens g event) := by
  cases event <;> unfold Opens <;> infer_instance

def sampleEvents : List Event :=
  [.reserve sampleRequest 5, .updatePolicy { rateMaxPerWindow := 1 }, .settle ⟨"permit-1", 7, .executed, true⟩,
    .reserve sampleRequest 9, .reserve sampleRequest 70000]

theorem rate_caps_hold_sample :
    (∀ scope, ∀ w ∈ rateWindows scope (grants (new {}) sampleEvents), w.admitted ≤ w.cap.toNat) ∧
      Throughout stepEvent AdmittedByWindows (new {}) sampleEvents := by
  apply rate_caps_hold
  simp only [sampleEvents, Throughout]
  decide +kernel

/-- The cap of every scope is set to zero, and the window of an earlier admission runs out. -/
def closedEvents : List Event :=
  [.reserve sampleRequest 0, .updatePolicy { rateMaxPerWindow := 0 }, .reserve sampleRequest 60000]

/-- The peek passes a window that has run out whatever the cap is now, so a scope whose cap is zero
still admits one worker call a window, which `window_admit` refused. -/
theorem closed_scope_admits :
    Forward closedEvents ∧
      (∃ w ∈ rateWindows "project:p" (grants (new {}) closedEvents), w.cap.toNat < w.admitted) ∧
      ¬ Throughout stepEvent AdmittedByWindows (new {}) closedEvents := by
  refine ⟨by unfold Forward; decide, ⟨⟨60000, 0, 1⟩, by decide +kernel, by decide⟩, ?_⟩
  rintro ⟨-, -, all, -⟩
  have here := all _ (workerGrant_of_granted (by decide +kernel) (by decide)) "project:p" (by decide)
  revert here
  decide +kernel

end FerroLoop.Governor

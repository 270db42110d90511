import FerroLoop.Authority.Sections

namespace FerroLoop.Authority

open List hiding getElem?_insert
open Std Threads Map State Sound Claim Safe Gate Sound

variable {said : ∀ q, Answer q → Prop}

def dueClaim (entries : List (Nat × Scope)) : Claim (rules said) where
  held := none
  knows s := s.AllDue entries
  kept _ inv known move entry member := move.keeps (fun inv change due => change.due inv due) inv (known entry member)
  issued _ _ absent := by cases absent

def waitingClaim (index : Nat) (expanded : Scope) (entries : List (Nat × Scope)) : Claim (rules said) where
  held := some index
  knows s := Waiting index expanded s ∧ s.AllDue entries
  kept foreign inv known move := by
    refine ⟨move.keeps (fun inv change waiting => change.waiting inv foreign waiting) inv known.1, ?_⟩
    intro entry member
    exact move.keeps (fun inv change due => change.due inv due) inv (known.2 entry member)
  issued inv known own := by
    cases own
    obtain ⟨f, stored, -⟩ := known.1
    exact inv.numbered _ f stored

variable {C : Claim (rules said)}

theorem transitionStart_state (s : State) : s.transitionStart.2 = s := by
  unfold transitionStart
  split
  · split <;> rfl
  · rfl

theorem transitionProved_guarded (start generation : Nat) (pending : List Scope) :
    Guarded (rules said) C (transitionProved start generation pending) := by
  unfold transitionProved
  split
  · refine Guarded.query_bind ?_
    intro answer _
    cases answer <;> trivial
  · trivial

theorem guardAhead_guarded (generation : Nat) : Guarded (rules said) C (guardAhead generation) := by
  refine Guarded.query_bind ?_
  intro answer _
  cases answer <;> trivial

variable {scope : Scope}

theorem verifyAndRetire_guarded {id : Nat} (due : ∀ s, C.knows s → Due id scope s)
    (written : Written said scope) (tries : Nat) : Guarded (rules said) C (verifyAndRetire id scope tries) := by
  induction tries with
  | zero => trivial
  | succ tries ih =>
    refine Guarded.query_bind ?_
    intro answer confirmed
    rcases answer with e | generation
    · trivial
    refine Guarded.lock_bind ?_
    intro s inv known
    refine ⟨by rw [transitionStart_state]; exact .stay, ?_⟩
    rcases (s.transitionStart).1 with _ | found
    · trivial
    obtain ⟨start, pending⟩ := found
    dsimp only
    split
    · exact ih
    rename_i notBefore
    refine (transitionProved_guarded start generation pending).bind ?_
    intro proved
    split
    · refine Guarded.query_bind ?_
      intro guard _
      rcases guard with e | current
      · trivial
      dsimp only
      split
      · exact ih
      refine Guarded.lock_bind ?_
      intro s inv known
      refine ⟨retire_move (due s known) ⟨written, confirmed⟩ (by omega), ?_⟩
      cases (s.retire id start generation).1 with
      | again => exact ih
      | _ => trivial
    · refine Guarded.lock_bind ?_
      intro s inv known
      refine ⟨.stay, ?_⟩
      split
      · exact ih
      refine (guardAhead_guarded generation).bind ?_
      intro ahead
      split
      · exact ih
      · trivial

theorem settle_guarded {id : Nat} {phase : FencePhase} (due : ∀ s, C.knows s → Due id scope s)
    (unsettled : phase = .failed ∨ (phase = .durableUnverified ∧ Written said scope)) :
    Guarded (rules said) C (lock (State.settle id phase)) :=
  guarded_lock fun s _ known => settle_move (due s known) unsettled

theorem persistReady_guarded {ready : List Ready} (due : ∀ s, C.knows s → s.AllDue (named ready)) (failed : Bool) :
    Guarded (rules said) C (persistReady ready failed) := by
  induction ready generalizing failed with
  | nil => trivial
  | cons entry rest ih =>
    have first : ∀ s, C.knows s → Due entry.id entry.scope s :=
      fun s known => due s known (entry.id, entry.scope) mem_cons_self
    have others : ∀ s, C.knows s → s.AllDue (named rest) :=
      fun s known named member => due s known named (mem_cons_of_mem _ member)
    have settled : ∀ phase, phase = .failed ∨ (phase = .durableUnverified ∧ Written said entry.scope) →
        Guarded (rules said) C (do
          if ← lock (State.settle entry.id phase) then persistReady rest true
          else pure (refused "revocation fence missing")) := by
      intro phase unsettled
      refine (settle_guarded first unsettled).bind ?_
      intro present
      split
      · exact ih others true
      · trivial
    refine Guarded.query_bind ?_
    intro answer written
    rcases answer with e | _
    · exact settled .failed (.inl rfl)
    have durable : Written said entry.scope := ⟨entry.reason, written⟩
    refine (verifyAndRetire_guarded first durable 8).bind ?_
    intro verified
    match verified with
    | .error e => trivial
    | .ok true => exact ih others failed
    | .ok false => exact settled .durableUnverified (.inr ⟨rfl, durable⟩)

theorem verifyAll_guarded {entries : List (Nat × Scope)} (due : ∀ s, C.knows s → s.AllDue entries)
    (written : ∀ entry ∈ entries, Written said entry.2) (failed : Bool) :
    Guarded (rules said) C (verifyAll entries failed) := by
  induction entries generalizing failed with
  | nil => trivial
  | cons entry rest ih =>
    have first : ∀ s, C.knows s → Due entry.1 entry.2 s := fun s known => due s known entry mem_cons_self
    have others : ∀ s, C.knows s → s.AllDue rest :=
      fun s known named member => due s known named (mem_cons_of_mem _ member)
    have durable : Written said entry.2 := written entry mem_cons_self
    have written' : ∀ other ∈ rest, Written said other.2 := fun other member => written other (mem_cons_of_mem _ member)
    refine (verifyAndRetire_guarded first durable 8).bind ?_
    intro verified
    match verified with
    | .error e => trivial
    | .ok true => exact ih others written' failed
    | .ok false => exact (settle_guarded first (.inr ⟨rfl, durable⟩)).bind fun _ => ih others written' true

variable (expected : Nat)

theorem refreshEnd_state (s : State) : (s.refreshEnd expected).2 = s := by
  unfold refreshEnd
  split
  · rfl
  · split <;> rfl

theorem refreshStart_state (s : State) : (s.refreshStart expected).2 = s := by
  unfold refreshStart
  split
  · rfl
  split
  · rfl
  · split
    · split <;> rfl
    · rfl

theorem refreshBy_guarded {expected start : Nat} (later : start ≤ expected) (witnesses : List (Nat × Scope)) :
    Guarded (rules said) C (refreshBy expected start witnesses) := by
  induction witnesses with
  | nil =>
    refine guarded_lock ?_
    intro s _ _
    rw [refreshEnd_state]
    exact .stay
  | cons witness rest ih =>
    refine Guarded.query_bind ?_
    intro answer _
    rcases answer with e | generation
    · exact ih
    dsimp only
    split
    · trivial
    split
    · exact ih
    refine Guarded.query_bind ?_
    intro guard _
    rcases guard with e | current
    · exact ih
    dsimp only
    split
    · trivial
    refine Guarded.lock_bind ?_
    intro s _ _
    refine ⟨publish_move later, ?_⟩
    cases (s.publish expected start witness.1 witness.2).1 with
    | some result => trivial
    | none => exact ih

theorem refreshDuringPersistence_guarded :
    Guarded (rules said) C (refreshDuringPersistence expected) := by
  refine Guarded.lock_bind ?_
  intro s _ _
  refine ⟨by rw [refreshStart_state]; exact .stay, ?_⟩
  rcases (s.refreshStart expected).1 with result | found
  · trivial
  obtain ⟨start, witnesses⟩ := found
  dsimp only
  split
  · trivial
  rename_i ahead
  have later : start ≤ expected := by
    simp only [Bool.or_eq_true, decide_eq_true_eq, not_or] at ahead
    omega
  refine Guarded.query_bind ?_
  intro proof _
  cases proof with
  | ok _ => exact refreshBy_guarded later witnesses
  | error e =>
    refine (guardAhead_guarded expected).bind ?_
    intro past
    split
    · trivial
    · exact guarded_lock fun _ _ _ => .stay

theorem requestAll_guarded (workers : List (PermitId × WorkerIdentity)) (failed : Bool) :
    Guarded (rules said) C (requestAll workers failed) := by
  induction workers generalizing failed with
  | nil => trivial
  | cons worker rest ih =>
    refine Guarded.query_bind ?_
    intro answer _
    cases answer with
    | ok _ => exact ih failed
    | error e => exact (guarded_lock fun s _ _ => unmarkExpired_move worker.1 worker.2).bind fun _ => ih true

theorem sound_persist {α β : Type} {final : State → State → α → Prop} {body : State → β × State} {f : β → Op α}
    {entries : β → List (Nat × Scope)} (moves : ∀ s, Inv said s → Move said none s (body s).2)
    (due : ∀ s, Inv said s → (body s).2.AllDue (entries (body s).1)) (ends : ∀ s s' value, final s s' value)
    (rest : ∀ s, Inv said s → Guarded (rules said) (dueClaim (entries (body s).1)) (f (body s).1)) :
    Sound (rules said) final (lock body >>= f) nothing := by
  refine lock_bind ?_
  intro s inv _
  exact ⟨⟨none, .inl rfl, moves s inv⟩, fun value _ => ends s _ value, dueClaim (entries (body s).1), .inl rfl,
    due s inv, of_guarded (rest s inv) ends⟩

theorem complete_sound (id : PermitId) : Sound (rules said) (fun _ _ _ => True) (complete id) nothing :=
  sound_persist (fun _ _ => complete_move id) (fun _ inv => complete_due inv id) (fun _ _ _ => trivial)
    fun _ _ => persistReady_guarded (fun _ known => known) false

theorem retryFailed_sound : Sound (rules said) (fun _ _ _ => True) retryFailed nothing := by
  refine @sound_persist said _ _ _ _ _ (fun found => named found.1 ++ found.2) (fun _ inv => reopenFailed_move inv) ?_
    (fun _ _ _ => trivial) ?_
  · intro s inv entry member
    obtain ⟨ready, verify⟩ := reopenFailed_due inv
    rcases mem_append.mp member with first | second
    · exact ready entry first
    · exact verify entry second
  · intro s inv
    have written := reopenFailed_written inv
    generalize s.reopenFailed.1 = found at written ⊢
    obtain ⟨ready, verify⟩ := found
    have first : ∀ s, (dueClaim (named ready ++ verify) : Claim (rules said)).knows s → s.AllDue (named ready) :=
      fun s known entry member => known entry (mem_append_left _ member)
    have second : ∀ s, (dueClaim (named ready ++ verify) : Claim (rules said)).knows s → s.AllDue verify :=
      fun s known entry member => known entry (mem_append_right _ member)
    refine (persistReady_guarded first false).bind ?_
    intro result
    cases result with
    | error e => exact verifyAll_guarded second written true
    | ok _ => exact verifyAll_guarded second written false

theorem confirmTerminated_sound (id : PermitId) :
    Sound (rules said) (fun _ _ _ => True) (confirmTerminated id) nothing := by
  refine read_bind (fun _ => .stay) fun found => ?_
  rcases found with _ | worker
  · exact pure fun _ _ _ => trivial
  refine query_bind fun receipt _ => ?_
  rcases receipt with e | receipt
  · exact pure fun _ _ _ => trivial
  dsimp only
  split
  · exact pure fun _ _ _ => trivial
  refine lock_bind ?_
  intro s inv _
  have move : Move said none s (s.terminate id worker).2 := terminate_move id worker
  rcases taken : (s.terminate id worker).1 with _ | ready
  · exact ⟨⟨none, .inl rfl, move⟩, fun _ _ => trivial, nothing, .inl rfl, trivial, trivial⟩
  refine ⟨⟨none, .inl rfl, move⟩, fun _ _ => trivial, dueClaim (named ready), .inl rfl,
    terminate_due inv taken, of_guarded ?_ fun _ _ _ => trivial⟩
  refine (persistReady_guarded (fun _ known => known) false).bind ?_
  intro result
  cases result <;> trivial

theorem cancelExpired_sound : Sound (rules said) (fun _ _ _ => True) cancelExpired nothing := by
  refine query_bind fun now _ => ?_
  cases now with
  | error e => exact pure fun _ _ _ => trivial
  | ok now =>
    refine ⟨fun _ _ _ _ _ => trivial, of_guarded ?_ fun _ _ _ => trivial⟩
    exact (guarded_lock fun _ _ _ => markExpired_move now).bind fun workers => requestAll_guarded workers false

def ReconcileEnds (s : State) : Except GateError Unit → Prop
  | .ok _ => s.generation = none ∧ s.revocationFailed = false
  | .error _ => True

theorem reconcile_sound : Sound (rules said) (fun s _ => ReconcileEnds s) reconcile nothing := by
  refine query_bind fun answer _ => ?_
  rcases answer with e | generation
  · exact pure fun _ _ _ => trivial
  dsimp only
  split
  · exact pure fun _ _ _ => trivial
  refine query_bind fun guard _ => ?_
  rcases guard with e | current
  · exact pure fun _ _ _ => trivial
  dsimp only
  split
  · exact pure fun _ _ _ => trivial
  refine Sound.lock fun s _ _ => ⟨⟨none, .inl rfl, reopen_move generation⟩, ?_⟩
  cases result : (s.reopen generation).1 with
  | error e => trivial
  | ok done =>
    obtain ⟨closed, sound, -⟩ := reopen_opened result
    exact ⟨closed, sound⟩

def AdmitEnds (s s' : State) : Except GateError Permit → Prop
  | .ok permit =>
    s.generation.isSome ∧ s.unresolvedRevocations = [] ∧ s.live[permit.id]? = none ∧ (s'.live[permit.id]?).isSome
  | .error _ => True

theorem admitPermit_sound (operationNs : Nat) (req : AdmitRequest) :
    Sound (rules said) AdmitEnds (admitPermit operationNs req) nothing := by
  have refuses : ∀ e, Sound (rules said) AdmitEnds (pure (.error e)) nothing :=
    fun e => pure fun _ _ _ => trivial
  unfold admitPermit
  rcases req.requiredScopes with _ | requested
  · exact refuses _
  refine read_bind (fun _ => .stay) fun closed => ?_
  split
  · exact refuses _
  refine query_bind fun answer answered => ?_
  rcases answer with e | verified
  · exact refuses e
  dsimp only
  split
  · exact refuses _
  refine query_bind fun now _ => ?_
  rcases now with e | now
  · exact refuses e
  dsimp only
  split
  · exact refuses _
  refine query_bind fun random _ => ?_
  rcases random with _ | id
  · exact refuses _
  refine query_bind fun guard _ => ?_
  rcases guard with e | current
  · exact refuses e
  dsimp only
  split
  · exact refuses _
  refine Sound.query_bind fun again _ => Sound.lock fun s _ _ => ?_
  obtain ⟨move, granted⟩ := grant_spec (s := s) id (now + operationNs) again answered
  refine ⟨⟨none, .inl rfl, move⟩, ?_⟩
  cases result : (s.grant verified id (now + operationNs) again).1 with
  | error e => trivial
  | ok permit => exact granted permit result

/-- A revocation ends complete by retiring its verified fence. It fails only where it closes the
broker or keeps its request, where its fence stays, or where it found the fence verified. -/
def RevokeEnds (scope : Scope) (s s' : State) : Except GateError RevokeAck → Prop
  | .ok .complete => ∃ (id : Nat) (f : Fence), s.fences[id]? = some f ∧ f.phase = .persisted ∧ scope ⊆ f.scope ∧
      s' = s.relinquish id
  | .ok .pendingUnconfirmed => True
  | .error _ => s'.Kept scope ∨ (∃ (id : Nat) (f : Fence), s'.fences[id]? = some f ∧ scope ⊆ f.scope) ∨
      ∃ (id : Nat) (f : Fence), s.fences[id]? = some f ∧ f.phase = .persisted ∧ scope ⊆ f.scope

section Revoke

variable {scope expanded : Scope} {reason : String} {index : Nat} {result : Except GateError RevokeAck}

theorem relinquish_ends {s : State} (waiting : Waiting index expanded s) (within : scope ⊆ expanded)
    (complete : ∀ f : Fence, s.fences[index]? = some f → result = .ok .complete → f.phase = .persisted) :
    RevokeEnds scope s (s.relinquish index) result := by
  obtain ⟨f, stored, same, -⟩ := waiting
  rw [← same] at within
  match result with
  | .ok .complete => exact ⟨index, f, stored, complete f stored rfl, within, rfl⟩
  | .ok .pendingUnconfirmed => trivial
  | .error e =>
    right
    by_cases persisted : f.phase = .persisted
    · exact .inr ⟨index, f, stored, persisted, within⟩
    · refine .inl ⟨index, { f with waiting := false }, ?_, within⟩
      simp only [State.relinquish, stored, if_neg persisted]
      rw [getElem?_insert, if_pos rfl]

theorem kept_ends {s s' : State} (kept : s'.Kept scope)
    (incomplete : result ≠ .ok .complete) : RevokeEnds scope s s' result := by
  match result with
  | .ok .complete => exact absurd rfl incomplete
  | .ok .pendingUnconfirmed => trivial
  | .error e => exact .inl kept

theorem sealing_sound {C : Claim (rules said)} (e : GateError) : Sound (rules said) (RevokeEnds scope) (sealing e) C :=
  Sound.lock fun _ _ _ => ⟨⟨none, .inl rfl, sealed_move⟩, kept_ends (.inl rfl) (by simp)⟩

theorem record_sound : Sound (rules said) (RevokeEnds scope) (lock (State.recordUnresolvedRevocation scope reason))
    nothing := by
  refine Sound.lock fun s _ _ => ⟨⟨none, .inl rfl, recordUnresolvedRevocation_move scope reason⟩, ?_⟩
  obtain ⟨kept, incomplete⟩ := recordUnresolvedRevocation_kept (s := s) scope reason
  exact kept_ends kept incomplete

variable {entries : List (Nat × Scope)}

theorem awaitFence_sound (within : scope ⊆ expanded) (wakeups : Nat) :
    Sound (rules said) (RevokeEnds scope) (awaitFence index wakeups) (waitingClaim index expanded entries) := by
  have own : ∀ s : State, Move said (some index) s (s.relinquish index) := fun s => .one (.relinquish s index)
  induction wakeups with
  | zero =>
    refine Sound.lock fun s _ known => ?_
    obtain ⟨f, stored, -⟩ := known.1
    obtain ⟨same, complete⟩ := lapse_spec stored
    rw [same]
    refine ⟨⟨some index, .inr rfl, own s⟩, relinquish_ends known.1 within ?_⟩
    intro f' held
    rw [stored] at held
    cases held
    exact complete
  | succ wakeups ih =>
    refine lock_bind ?_
    intro s _ known
    obtain ⟨f, stored, -⟩ := known.1
    rcases observe_spec stored with ⟨waits, same⟩ | ⟨result, ended, same, complete⟩
    · rw [waits, same]
      refine ⟨⟨none, .inl rfl, .stay⟩, ?_, waitingClaim index expanded entries, .inl rfl, known, ih.2⟩
      intro value member
      cases wakeups <;> cases member
    rw [ended, same]
    refine ⟨⟨some index, .inr rfl, own s⟩, ?_, nothing, .inr fun _ absent => (by cases absent), trivial, trivial⟩
    intro value member
    cases member
    refine relinquish_ends known.1 within ?_
    intro f' held
    rw [stored] at held
    cases held
    exact complete

theorem finishRevocation_safe (within : scope ⊆ expanded) (ready : List Ready) :
    Safe (rules said) (RevokeEnds scope) (finishRevocation index ready) (waitingClaim index expanded (named ready)) := by
  have due : ∀ s, (waitingClaim index expanded (named ready) : Claim (rules said)).knows s → s.AllDue (named ready) :=
    fun _ known => known.2
  refine after (persistReady_guarded due false) ?_ ?_
  · intro result s s' _ _ value member
    cases result <;> cases member
  intro result
  cases result with
  | error e =>
    have letsGo : Sound (rules said) (RevokeEnds scope) (lock fun s => (.error e, s.relinquish index))
        (waitingClaim index expanded (named ready)) := by
      refine Sound.lock fun s _ known => ⟨⟨some index, .inr rfl, Move.one (.relinquish s index)⟩, ?_⟩
      exact relinquish_ends known.1 within fun _ _ same => by cases same
    exact letsGo.2
  | ok _ => exact (query_bind fun wakeups _ => awaitFence_sound within wakeups).2

theorem finishRevocation_value? (ready : List Ready) : (finishRevocation index ready).value? = none := by
  cases ready <;> rfl

theorem refresh_sound {expected : Nat} {f : RefreshResult → Op (Except GateError RevokeAck)}
    (rest : ∀ result, Sound (rules said) (RevokeEnds scope) (f result) nothing)
    (unfinished : ∀ result, (f result).value? = none) :
    Sound (rules said) (RevokeEnds scope) (refreshDuringPersistence expected >>= f) nothing := by
  refine ⟨fun _ _ _ _ member => (by cases member), ?_⟩
  refine after (refreshDuringPersistence_guarded expected) ?_ fun result => (rest result).2
  intro result s s' _ _ value member
  rw [unfinished] at member
  cases member

theorem revokeAttempt_sound {left : Nat} {again : Op (Except GateError RevokeAck)}
    (next : Sound (rules said) (RevokeEnds scope) again nothing) (unfinished : again.value? = none) :
    Sound (rules said) (RevokeEnds scope) (revokeAttempt scope reason left again) nothing := by
  refine query_bind fun answer _ => ?_
  rcases answer with e | found
  · exact sealing_sound e
  obtain ⟨generation, expanded⟩ := found
  dsimp only
  split
  · exact sealing_sound _
  rename_i valid
  have within : scope ⊆ expanded := by
    simp only [validAliases, Bool.not_eq_true, Bool.not_eq_false', Bool.and_eq_true, decide_eq_true_eq] at valid
    exact valid.1.2
  refine query_bind fun guard _ => ?_
  rcases guard with e | current
  · exact sealing_sound _
  dsimp only
  split
  · refine lock_bind ?_
    intro s inv _
    obtain ⟨move, result⟩ := insertFence_spec inv scope reason generation expanded (left ≠ 0)
    cases ended : (s.insertFence scope reason generation expanded (left ≠ 0)).1 with
    | returned value =>
      rw [ended] at result
      refine ⟨⟨none, .inl rfl, move⟩, ?_, nothing, .inl rfl, trivial, trivial⟩
      intro returned member
      cases member
      exact kept_ends result.1 result.2
    | refresh =>
      refine ⟨⟨none, .inl rfl, move⟩, fun _ member => (by cases member), nothing, .inl rfl, trivial,
        (refresh_sound ?_ ?_).2⟩
      · intro refreshed
        cases refreshed with
        | unverified => exact sealing_sound _
        | _ => exact next
      · intro refreshed
        cases refreshed with
        | unverified => rfl
        | _ => exact unfinished
    | inserted number ready =>
      rw [ended] at result
      obtain ⟨fresh, waiting, due⟩ := result
      refine ⟨⟨none, .inl rfl, move⟩, ?_, waitingClaim number expanded (named ready), .inr ?_, ⟨waiting, due⟩,
        finishRevocation_safe within ready⟩
      · intro value member
        rw [finishRevocation_value?] at member
        cases member
      · intro token own issued
        cases own
        rw [fresh] at issued
        exact Nat.lt_irrefl _ issued
  split
  · exact sealing_sound _
  split
  · exact record_sound
  refine refresh_sound ?_ ?_
  · intro refreshed
    cases refreshed with
    | unverified =>
      dsimp only
      split
      · exact record_sound
      · exact sealing_sound _
    | _ => exact next
  · intro refreshed
    cases refreshed with
    | unverified =>
      dsimp only
      split <;> rfl
    | _ => exact unfinished

theorem revokeLoop_sound (left : Nat) :
    Sound (rules said) (RevokeEnds scope) (revokeLoop scope reason left) nothing := by
  induction left with
  | zero => exact revokeAttempt_sound (sealing_sound _) rfl
  | succ left ih =>
    refine revokeAttempt_sound ih ?_
    cases left <;> rfl

theorem revoke_safe (waitNs : Nat) : Safe (rules said) (RevokeEnds scope) (revoke scope reason waitNs) nothing := by
  unfold revoke
  split
  · trivial
  split
  · trivial
  refine (lock_bind ?_).2
  intro s _ _
  refine ⟨⟨none, .inl rfl, .stay⟩, ?_, nothing, .inl rfl, trivial, ?_⟩
  · intro value member
    split at member
    · rename_i other
      cases member
      exact kept_ends (differs_kept other) (by simp [refused])
    · cases member
  · split
    · trivial
    · exact (revokeLoop_sound 8).2

end Revoke

def Call.Ends (s s' : State) : Call → Outcome → Prop
  | .admission _, .admission result => AdmitEnds s s' result
  | .revoke scope _ _, .revocation result => RevokeEnds scope s s' result
  | .reconcile, .reconciled result => ReconcileEnds s result
  | .complete _, .finished _ => True
  | .retryFailed, .finished _ => True
  | .cancelExpired, .finished _ => True
  | .confirmTerminated _, .confirmation _ => True
  | _, _ => False

attribute [local irreducible] Safe in
theorem perform_safe (operationNs : Nat) (call : Call) :
    Safe (rules said) (fun s s' => call.Ends s s') (call.perform operationNs) nothing := by
  cases call with
  | admission req => exact bind_pure (admitPermit_sound operationNs req).2
  | complete id => exact bind_pure (complete_sound id).2
  | revoke scope reason waitNs => exact bind_pure (revoke_safe waitNs)
  | retryFailed => exact bind_pure retryFailed_sound.2
  | confirmTerminated id => exact bind_pure (confirmTerminated_sound id).2
  | cancelExpired => exact bind_pure cancelExpired_sound.2
  | reconcile => exact bind_pure reconcile_sound.2

end FerroLoop.Authority

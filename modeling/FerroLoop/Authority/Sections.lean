import FerroLoop.Authority.Moves

namespace FerroLoop.Authority

open Std Threads Map Gate
open ExtTreeMap hiding getElem?_insert

variable {said : ∀ q, Answer q → Prop} {s : State} {t : Option Nat}

theorem Move.stay : Move said t s s := .refl

theorem Move.one {s' : State} (change : Change said t s s') : Move said t s s' := .single change

namespace State

theorem sealed_move : Move said none s s.sealed := .one (.closing s)

theorem recordUnresolvedRevocation_move (scope : Scope) (reason : String) :
    Move said none s (s.recordUnresolvedRevocation scope reason).2 := by
  unfold recordUnresolvedRevocation
  split
  · exact sealed_move
  · split
    · exact .one (.record s (scope, reason))
    · exact .stay

def AllDue (entries : List (Nat × Scope)) (s : State) : Prop := ∀ entry ∈ entries, Due entry.1 entry.2 s

def named (ready : List Ready) : List (Nat × Scope) := ready.map fun entry => (entry.id, entry.scope)

theorem readyToPersist_move : Move said none s s.readyToPersist.2 := by
  refine .one (.advance s s.isReady ?_)
  intro f taken
  have both : f.phase = .pending ∧ s.blocked f.scope = false := by simpa [isReady] using taken
  exact both.2

theorem readyToPersist_due (numbered : ∀ (id : Nat) (f : Fence), s.fences[id]? = some f → id < s.nextFenceId) :
    s.readyToPersist.2.AllDue (named s.readyToPersist.1) := by
  intro entry member
  obtain ⟨ready, listed, rfl⟩ := List.mem_map.mp member
  obtain ⟨⟨id, f⟩, inside, taken⟩ := List.mem_filterMap.mp listed
  have stored := mem_toList_iff_getElem?_eq_some.mp inside
  split at taken
  · rename_i isReady
    cases taken
    refine ⟨numbered id f stored, ?_⟩
    intro f' held
    rw [readyToPersist, getElem?_map, stored, Option.map_some, if_pos isReady] at held
    cases held
    exact ⟨rfl, by simp⟩
  · cases taken

variable (id : PermitId) {scope : Scope} {generation : Nat}

theorem retire_move {id start : Nat} (due : Due id scope s)
    (verified : Verified said scope generation) (later : start ≤ generation) :
    Move said none s (s.retire id start generation).2 := by
  unfold retire
  by_cases closed : (s.revocationFailed || s.generation.isNone) = true
  · rw [if_pos closed]
    exact .stay
  rw [if_neg closed]
  by_cases other : s.generation ≠ some start
  · rw [if_pos other]
    exact .stay
  rw [if_neg other]
  have sound : s.revocationFailed = false := by
    cases failed : s.revocationFailed with
    | false => rfl
    | true => simp [failed] at closed
  have published : Move said none s { s with generation := some generation } :=
    .one (.publish (not_not.mp other) later sound)
  rcases held : s.fences[id]? with _ | f
  · exact published
  obtain ⟨same, past⟩ := due.2 f held
  rw [← same] at verified
  dsimp only
  by_cases waits : f.waiting = true
  · rw [if_pos waits]
    exact published.tail (.persist rfl held past verified)
  · rw [if_neg waits]
    exact published.tail (.drop rfl held (by simpa using waits) verified)

theorem settle_move {id : Nat} {phase : FencePhase} (due : Due id scope s)
    (unsettled : phase = .failed ∨ (phase = .durableUnverified ∧ Written said scope)) :
    Move said none s (s.settle id phase).2 := by
  unfold settle
  rcases held : s.fences[id]? with _ | f
  · exact .stay
  obtain ⟨same, past⟩ := due.2 f held
  rw [← same] at unsettled
  exact .one (.settle held past unsettled)

theorem publish_move {expected start id : Nat} (later : start ≤ expected) :
    Move said none s (s.publish expected start id scope).2 := by
  unfold publish
  by_cases closed : (s.revocationFailed || s.generation.isNone) = true
  · rw [if_pos closed]
    exact .stay
  rw [if_neg closed]
  split
  · exact .stay
  split
  · exact .stay
  rename_i same
  split
  · refine .one (.publish (not_not.mp same) later ?_)
    cases failed : s.revocationFailed with
    | false => rfl
    | true => simp [failed] at closed
  · exact .stay

theorem markExpired_move (now : Nat) : Move said none s (s.markExpired now).2 := by
  have same : (s.markExpired now).2 =
      { s with live := s.live.map fun _ p => { p with cancellationRequested := expired now p || p.cancellationRequested } } := by
    unfold markExpired
    dsimp only
    congr 2
    funext id p
    split
    · rename_i due
      rw [due, Bool.true_or]
    · rename_i due
      rw [Bool.not_eq_true] at due
      rw [due, Bool.false_or]
  rw [same]
  exact .one (.mark s fun _ p => expired now p || p.cancellationRequested)

theorem unmarkExpired_move (worker : WorkerIdentity) : Move said none s (s.unmarkExpired id worker) := by
  unfold unmarkExpired
  rcases held : s.live[id]? with _ | p
  · exact .stay
  dsimp only
  split
  · have same : s.live.insert id { p with cancellationRequested := false } =
        s.live.map fun other q => { q with cancellationRequested := if id = other then false else q.cancellationRequested } := by
      apply ext_getElem?
      intro other
      rw [getElem?_insert, getElem?_map]
      split
      · rename_i here
        subst here
        rw [held]
        rfl
      · cases s.live[other]? <;> rfl
    rw [same]
    exact .one (.mark s fun other q => if id = other then false else q.cancellationRequested)
  · exact .stay

theorem reopenFailed_move (inv : Inv said s) : Move said none s s.reopenFailed.2 := by
  let chosen (f : Fence) : Bool :=
    (f.phase = .failed || f.phase = .durableUnverified || f.phase = .pending) && !s.blocked f.scope
  have same : s.reopenFailed.2 =
      { s with fences := s.fences.map fun _ f => if chosen f then { f with phase := .persisting } else f } := by
    unfold reopenFailed readyToPersist
    dsimp only
    congr 1
    apply ext_getElem?
    intro id
    rw [getElem?_map, getElem?_map, getElem?_map, Option.map_map]
    rcases held : s.fences[id]? with _ | f
    · rfl
    -- Whether a fence is ready depends on the live permits only.
    change some (if s.isReady (retryFence f) then { retryFence f with phase := .persisting } else retryFence f) = _
    have clear : f.phase ≠ .pending → s.blocked f.scope = false :=
      fun due => blocked_eq_false.mpr (inv.clear id f held due)
    obtain ⟨scope, reason, phase, waiting⟩ := f
    rcases met : s.blocked scope with _ | _
    · cases phase <;> simp [chosen, isReady, retryFence, retryPhase, met]
    cases phase with
    | pending => simp [chosen, isReady, retryFence, retryPhase, met]
    | _ =>
      rw [clear (by simp)] at met
      cases met
  rw [same]
  refine .one (.advance s chosen ?_)
  intro f taken
  have both := Bool.and_eq_true_iff.mp taken
  simpa using both.2

theorem reopenFailed_due (inv : Inv said s) :
    s.reopenFailed.2.AllDue (named s.reopenFailed.1.1) ∧ s.reopenFailed.2.AllDue s.reopenFailed.1.2 := by
  constructor
  · refine readyToPersist_due ?_
    intro id f stored
    rw [getElem?_map] at stored
    obtain ⟨old, held, -⟩ := Option.map_eq_some_iff.mp stored
    exact inv.numbered id old held
  · intro entry member
    obtain ⟨⟨id, f⟩, inside, taken⟩ := List.mem_filterMap.mp member
    have stored := mem_toList_iff_getElem?_eq_some.mp inside
    split at taken
    · rename_i durable
      cases taken
      refine (reopenFailed_move inv).keeps (fun inv change due => change.due inv due) inv ⟨inv.numbered id f stored, ?_⟩
      intro f' held
      rw [stored] at held
      cases held
      refine ⟨rfl, ?_⟩
      rw [durable]
      simp
    · cases taken

theorem reopenFailed_written (inv : Inv said s) : ∀ entry ∈ s.reopenFailed.1.2, Written said entry.2 := by
  intro entry member
  obtain ⟨⟨id, f⟩, inside, taken⟩ := List.mem_filterMap.mp member
  split at taken
  · rename_i unverified
    cases taken
    exact inv.written id f (mem_toList_iff_getElem?_eq_some.mp inside) unverified
  · cases taken

theorem complete_move : Move said none s (s.complete id).2 :=
  (Move.one (.release s id)).trans readyToPersist_move

theorem complete_due (inv : Inv said s) (id : PermitId) : (s.complete id).2.AllDue (named (s.complete id).1) :=
  readyToPersist_due inv.numbered

theorem terminate_move (worker : WorkerIdentity) : Move said none s (s.terminate id worker).2 := by
  unfold terminate
  split
  · exact complete_move id
  · exact .stay

theorem terminate_due (inv : Inv said s) {id : PermitId} {worker : WorkerIdentity} {ready : List Ready}
    (taken : (s.terminate id worker).1 = some ready) : (s.terminate id worker).2.AllDue (named ready) := by
  unfold terminate at taken ⊢
  split at taken
  · rename_i matched
    rw [if_pos matched]
    cases taken
    exact complete_due inv id
  · cases taken

theorem grant_spec {req : AdmitRequest} {verified : VerifiedAdmission} (deadline : Nat)
    (now : Except GateError Nat) (answered : said (.verifyAdmission req) (.ok verified)) :
    Move said none s (s.grant verified id deadline now).2 ∧
      ∀ permit, (s.grant verified id deadline now).1 = .ok permit →
        s.generation.isSome ∧ s.unresolvedRevocations = [] ∧ s.live[permit.id]? = none ∧
          ((s.grant verified id deadline now).2.live[permit.id]?).isSome := by
  unfold grant
  split
  · exact ⟨.stay, fun permit granted => by cases granted⟩
  rename_i opened
  split
  · exact ⟨.stay, fun permit granted => by cases granted⟩
  rename_i unfenced
  split
  · exact ⟨.stay, fun permit granted => by cases granted⟩
  split
  · exact ⟨.stay, fun permit granted => by cases granted⟩
  rename_i fresh
  have parts : s.generation = some verified.generation ∧ s.unresolvedRevocations = [] := by simpa using opened
  have free : s.live[id]? = none := by
    rw [Bool.not_eq_true] at fresh
    exact getElem?_eq_none_of_contains_eq_false fresh
  have apart : ∀ (id : Nat) (f : Fence), s.fences[id]? = some f → Disjoint f.scope verified.scope := by
    intro id f stored
    rw [Bool.not_eq_true, List.any_eq_false] at unfenced
    simpa using unfenced (id, f) (mem_toList_iff_getElem?_eq_some.mpr stored)
  rcases now with e | now
  · exact ⟨.stay, fun permit granted => by cases granted⟩
  dsimp only
  split
  · exact ⟨.stay, fun permit granted => by cases granted⟩
  refine ⟨.one (.grant id deadline answered parts.1 parts.2 apart free), ?_⟩
  intro permit granted
  cases granted
  refine ⟨by rw [parts.1]; rfl, parts.2, free, ?_⟩
  rw [getElem?_insert, if_pos rfl]
  rfl

def Kept (scope : Scope) (s : State) : Prop :=
  s.revocationFailed = true ∨ (s.unresolvedRevocations.lookup scope).isSome

variable {reason : String}

theorem lookup_append_new {entries : List (Scope × String)}
    (absent : entries.lookup scope = none) : (entries ++ [(scope, reason)]).lookup scope = some reason := by
  rw [List.lookup_append, absent]
  simp

theorem recordUnresolvedRevocation_kept (scope : Scope) (reason : String) :
    (s.recordUnresolvedRevocation scope reason).2.Kept scope ∧
      (s.recordUnresolvedRevocation scope reason).1 ≠ .ok .complete := by
  unfold recordUnresolvedRevocation
  split
  · exact ⟨.inl rfl, by simp [refused]⟩
  split
  · rename_i absent
    refine ⟨.inr ?_, by simp⟩
    rw [lookup_append_new (by simpa using absent)]
    rfl
  · rename_i present
    exact ⟨.inr (by simpa using present), by simp⟩

theorem differs_kept (other : s.differs scope reason = true) : s.Kept scope := by
  unfold differs at other
  right
  cases stored : s.unresolvedRevocations.lookup scope with
  | none =>
    rw [stored] at other
    cases other
  | some kept => rfl

theorem withFence_stored (scope : Scope) (reason : String) (expanded : Scope) :
    (s.withFence scope reason expanded).fences[s.nextFenceId]? = some ⟨expanded, reason, .pending, true⟩ := by
  rw [withFence, getElem?_insert, if_pos rfl]

/-- The section that is to insert a fence: it inserts one of the next number, or keeps the request
or closes the broker where it does not, or asks for a refresh. -/
theorem insertFence_spec (inv : Inv said s) (scope : Scope) (reason : String) (generation : Nat) (expanded : Scope)
    (attemptsLeft : Bool) :
    Move said none s (s.insertFence scope reason generation expanded attemptsLeft).2 ∧
      match (s.insertFence scope reason generation expanded attemptsLeft).1 with
      | .returned result =>
        (s.insertFence scope reason generation expanded attemptsLeft).2.Kept scope ∧ result ≠ .ok .complete
      | .refresh => True
      | .inserted index ready =>
        index = s.nextFenceId ∧ Waiting index expanded (s.insertFence scope reason generation expanded attemptsLeft).2 ∧
          (s.insertFence scope reason generation expanded attemptsLeft).2.AllDue (named ready) := by
  unfold insertFence
  by_cases other : s.differs scope reason = true
  · rw [if_pos other]
    exact ⟨.stay, differs_kept other, by simp [refused]⟩
  rw [if_neg other]
  have closes : ∀ text : String, Move said none s s.sealed ∧ s.sealed.Kept scope ∧
      (refused text : Except GateError RevokeAck) ≠ .ok .complete :=
    fun text => ⟨sealed_move, .inl rfl, by simp [refused]⟩
  by_cases stale : s.generation ≠ some generation
  · rw [if_pos stale]
    split
    · exact ⟨recordUnresolvedRevocation_move scope reason, recordUnresolvedRevocation_kept scope reason⟩
    · split
      · exact ⟨.stay, trivial⟩
      · exact closes _
  rw [if_neg stale]
  split
  · exact closes _
  split
  · exact closes _
  have first : Move said none s (s.withFence scope reason expanded) := .one (.fence s scope reason expanded)
  have inv' := first.inv inv
  refine ⟨first.trans readyToPersist_move, rfl, ?_, readyToPersist_due inv'.numbered⟩
  exact readyToPersist_move.keeps (fun inv change waiting => change.waiting inv (.inl rfl) waiting) inv'
    ⟨_, withFence_stored scope reason expanded, rfl, rfl⟩

theorem observe_spec {index : Nat} {f : Fence} (stored : s.fences[index]? = some f) :
    ((s.observe index).1 = none ∧ (s.observe index).2 = s) ∨
      (∃ result, (s.observe index).1 = some result ∧ (s.observe index).2 = s.relinquish index ∧
        (result = .ok .complete → f.phase = .persisted)) := by
  unfold observe
  rw [stored]
  dsimp only
  cases at_ : f.phase with
  | pending | persisting => exact .inl ⟨rfl, rfl⟩
  | durableUnverified => exact .inr ⟨_, rfl, rfl, fun same => by cases same⟩
  | persisted => exact .inr ⟨_, rfl, rfl, fun _ => rfl⟩
  | failed => exact .inr ⟨_, rfl, rfl, fun same => by cases same⟩

theorem lapse_spec {index : Nat} {f : Fence} (stored : s.fences[index]? = some f) :
    (s.lapse index).2 = s.relinquish index ∧ ((s.lapse index).1 = .ok .complete → f.phase = .persisted) := by
  unfold lapse
  rcases observe_spec stored with ⟨waits, same⟩ | ⟨result, ends, same, complete⟩
  · rw [← Prod.mk.eta (p := s.observe index), waits, same]
    exact ⟨rfl, fun same => by cases same⟩
  · rw [← Prod.mk.eta (p := s.observe index), ends, same]
    exact ⟨rfl, complete⟩

theorem reopen_opened (opened : (s.reopen generation).1 = .ok ()) :
    s.generation = none ∧ s.revocationFailed = false ∧ s.fences = ∅ := by
  unfold reopen at opened
  split at opened
  · cases opened
  · rename_i allowed
    simp only [Bool.or_eq_true, not_or, Bool.not_eq_true] at allowed
    exact ⟨by simpa using allowed.2, allowed.1.1.1.1.2, by simpa using allowed.1.1.2⟩

theorem reopen_move (generation : Nat) : Move said none s (s.reopen generation).2 := by
  unfold reopen
  split
  · exact .stay
  rename_i allowed
  have opened : (s.reopen generation).1 = .ok () := by rw [reopen, if_neg allowed]
  obtain ⟨closed, sound, bare⟩ := reopen_opened opened
  exact .one (.reopen generation closed sound bare)

end State

end FerroLoop.Authority

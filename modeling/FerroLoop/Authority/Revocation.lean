import FerroLoop.Authority.Operations

namespace FerroLoop.Authority

open Std Threads Machine List System Gate

abbrev after (operationNs : Nat) (calls : List Call) (run : List Turn) : Broker :=
  Machine.run step (brokerState operationNs calls) run

def Answered (run : List Turn) (q : Query) (a : Answer q) : Prop := ∃ turn ∈ run, turn.host q = a

def KeepsContract (run : List Turn) : Prop :=
  ∀ req verified scope generation, Answered run (.verifyAdmission req) (.ok verified) →
    Answered run (.verifyPersistedFence scope) (.ok generation) → generation ≤ verified.generation →
    Disjoint verified.scope scope

variable {operationNs : Nat} {calls : List Call} {run : List Turn}

def finals (calls : List Call) (thread : Nat) (s s' : State) (o : Outcome) : Prop :=
  match calls[thread]? with
  | some call => call.Ends s s' o
  | none => False

variable {said : ∀ q, Answer q → Prop} {past : List Turn}

theorem running_initial :
    Running (rules said) (finals calls) (brokerState operationNs calls) := by
  refine running_start inv_initial ?_
  intro i p here
  rw [getElem?_map] at here
  obtain ⟨call, named, rfl⟩ := Option.map_eq_some_iff.mp here
  unfold finals
  rw [named]
  exact perform_safe operationNs call

theorem running_after (answered : ∀ turn ∈ run, ∀ q, said q (turn.host q)) :
    Running (rules said) (finals calls) (after operationNs calls run) :=
  running_initial.run answered

theorem answered_self : ∀ turn ∈ run, ∀ q, Answered run q (turn.host q) :=
  fun turn member _ => ⟨turn, member, rfl⟩

theorem answered_early (early : past <+: run) : ∀ turn ∈ past, ∀ q, Answered run q (turn.host q) :=
  fun turn member _ => ⟨turn, early.subset member, rfl⟩

theorem after_append (past later : List Turn) :
    after operationNs calls (past ++ later) = Machine.run step (after operationNs calls past) later :=
  run_append _ _ _ _

theorem after_keeps {P : State → Prop} {later : List Turn}
    (answered : ∀ turn ∈ past ++ later, ∀ q, said q (turn.host q))
    (kept : ∀ {t s s'}, Inv said s → Change said t s s' → P s → P s')
    (start : P (after operationNs calls past).shared) : P (after operationNs calls (past ++ later)).shared := by
  rw [after_append]
  have running : Running (rules said) (finals calls) (after operationNs calls past) :=
    running_after fun turn member => answered turn (mem_append_left _ member)
  exact running.run_keeps (fun turn member => answered turn (mem_append_right _ member))
    (fun inv here move => move.keeps kept inv here) start

section

variable (operationNs : Nat) (calls : List Call)

theorem after_turn (past : List Turn) (turn : Turn) :
    Moved (rules (Answered (past ++ [turn]))) (after operationNs calls past).shared
        (after operationNs calls (past ++ [turn])).shared ∧
      ∀ o ∈ (step (after operationNs calls past) turn).2, finals calls turn.thread (after operationNs calls past).shared
          (after operationNs calls (past ++ [turn])).shared o := by
  have running : Running (rules (Answered (past ++ [turn]))) (finals calls) (after operationNs calls past) :=
    running_after (answered_early (prefix_append past [turn]))
  rw [after_append]
  exact (running.step (answered_self turn (mem_append_right _ mem_cons_self))).2

/-- A permit that a move adds was granted in it, past every fence and by evidence that a denied
scope is disjoint from. -/
theorem Move.grants_apart {t : Option Nat} {s s' : State} (move : Move said t s s')
    (inv : Inv said s) {scope : Scope} (denied : Denied said scope s)
    (contract : ∀ req verified generation, said (.verifyAdmission req) (.ok verified) →
      said (.verifyPersistedFence scope) (.ok generation) → generation ≤ verified.generation →
      Disjoint verified.scope scope)
    {permit : PermitId} {p : LivePermit} (absent : s.live[permit]? = none) (stored : s'.live[permit]? = some p) :
    Disjoint p.scope scope := by
  -- Along the move, the permit is absent or has a scope apart from the denied one.
  have kept : ∀ q : LivePermit, s'.live[permit]? = some q → Disjoint q.scope scope := by
    refine (move.keeps (P := fun s => Denied said scope s ∧
      ∀ q : LivePermit, s.live[permit]? = some q → Disjoint q.scope scope) ?_ inv ⟨denied, ?_⟩).2
    · intro s s' inv change here
      refine ⟨change.denied inv here.1, ?_⟩
      intro q live
      rcases change.permit_before live with ⟨old, before, same⟩ | ⟨-, -, apart, req, verified, answered, same, current⟩
      · rw [same]
        exact here.2 old before
      rcases here.1 with ⟨id, f, held, fenced⟩ | ⟨generation, durable, reached⟩
      · rw [← fenced]
        exact apart id f held
      rw [same]
      refine contract req verified generation answered durable.2 ?_
      rcases reached with failed | ⟨now, opened, later⟩
      · rw [inv.closed failed] at current
        cases current
      · rw [opened] at current
        cases current
        exact later
    · intro q live
      rw [absent] at live
      cases live
  exact kept p stored

def GrantsApart (run : List Turn) : Prop :=
  ∀ earlier later turn, earlier ++ later ++ [turn] <+: run →
    ∀ (id : Nat) (f : Fence), (after operationNs calls earlier).shared.fences[id]? = some f →
      ∀ (permit : PermitId) (p : LivePermit), (after operationNs calls (earlier ++ later)).shared.live[permit]? = none →
        (after operationNs calls (earlier ++ later ++ [turn])).shared.live[permit]? = some p → Disjoint p.scope f.scope

/-- A revocation that returns complete leaves a broker without live permits of the fenced scope, and
its fence is written and confirmed. -/
def CompletesDurably (run : List Turn) : Prop :=
  ∀ past turn, past ++ [turn] <+: run → ∀ scope reason waitNs, calls[turn.thread]? = some (.revoke scope reason waitNs) →
    (step (after operationNs calls past) turn).2 = some (.revocation (.ok .complete)) →
      ∃ (id : Nat) (f : Fence), (after operationNs calls past).shared.fences[id]? = some f ∧ scope ⊆ f.scope ∧
        (∃ generation, Verified (Answered past) f.scope generation) ∧
        ∀ (permit : PermitId) (p : LivePermit),
          (after operationNs calls (past ++ [turn])).shared.live[permit]? = some p → Disjoint p.scope f.scope

theorem relinquish_live (id : Nat) (s : State) : (s.relinquish id).live = s.live := by
  unfold State.relinquish
  split
  · rfl
  · split <;> rfl

theorem completes_durably (run : List Turn) : CompletesDurably operationNs calls run := by
  intro past turn _ scope reason waitNs called returned
  have ends := (after_turn operationNs calls past turn).2 _ returned
  unfold finals at ends
  rw [called] at ends
  obtain ⟨id, f, stored, persisted, within, left⟩ := ends
  have inv : Inv (Answered past) (after operationNs calls past).shared := (running_after answered_self).1
  obtain ⟨generation, verified, -⟩ := inv.verified id f stored persisted
  refine ⟨id, f, stored, within, ⟨generation, verified⟩, ?_⟩
  intro permit p live
  rw [left, relinquish_live] at live
  refine inv.clear id f stored ?_ permit p live
  rw [persisted]
  simp

end

variable {run : List Turn}

theorem grants_apart (contract : KeepsContract run) : GrantsApart operationNs calls run := by
  intro earlier later turn early id f stored permit p absent live
  -- The contract is needed of the answers up to this turn only.
  have sound : KeepsContract (earlier ++ later ++ [turn]) := by
    intro req verified scope generation admitted confirmed
    obtain ⟨first, member, one⟩ := admitted
    obtain ⟨second, member', two⟩ := confirmed
    exact contract req verified scope generation ⟨first, early.subset member, one⟩ ⟨second, early.subset member', two⟩
  have running : Running (rules (Answered (earlier ++ later ++ [turn]))) (finals calls)
      (after operationNs calls (earlier ++ later)) :=
    running_after (answered_early (prefix_append _ _))
  have denied : Denied (Answered (earlier ++ later ++ [turn])) f.scope (after operationNs calls (earlier ++ later)).shared := by
    refine after_keeps (answered_early (prefix_append _ _)) (fun inv change kept => change.denied inv kept) ?_
    exact .inl ⟨id, f, stored, rfl⟩
  rcases (after_turn operationNs calls (earlier ++ later) turn).1 with same | ⟨t, move⟩
  · rw [same, absent] at live
    cases live
  · exact Move.grants_apart move running.1 denied (fun req verified generation => sound req verified f.scope generation)
      absent live

theorem revocation_never_overtaken (operationNs : Nat) (calls : List Call) (run : List Turn)
    (contract : KeepsContract run) :
    GrantsApart operationNs calls run ∧ CompletesDurably operationNs calls run :=
  ⟨grants_apart contract, completes_durably operationNs calls run⟩

/-- A source at a generation: it knows one permit, for the secret `b`, and confirms the fence of the
secret `a` once it writes. -/
def sampleSource (generation : Nat) (writes : Bool) : ∀ q, Answer q
  | .reconcile => .ok generation
  | .verifyAdmission _ =>
    .ok ⟨generation, {.secret "b"}, "0123456789abcdef0123456789abcdef0123456789abcdef0123456789abcdef", [], ⟨1, 1⟩⟩
  | .guardAdmission _ => .ok generation
  | .resolveRevocation scope => .ok (generation, scope)
  | .persistFence _ _ => if writes then .ok () else .error (.io "write" "disk full")
  | .verifyPersistedFence scope =>
    if scope = {.secret "a"} ∧ writes then .ok generation else .error (.dispatchAuthority "fence absent")
  | .verifyRevocationTransition _ _ _ => .ok ()
  | .workerTerminated _ => .ok none
  | .requestCancellation _ _ => .ok ()
  | .nowNs => .ok 0
  | .randomId => some 7
  | .wakeups => (0 : Nat)

def sampleTurns (thread count generation : Nat) (writes : Bool) : List Turn :=
  List.replicate count ⟨thread, sampleSource generation writes⟩

def sampleCalls : List Call :=
  [.reconcile, .revoke {.secret "a"} "leak" 0, .retryFailed, .admission ⟨"b", none, none⟩]

def fencing : List Turn := sampleTurns 0 3 1 false ++ sampleTurns 1 4 1 false ++ sampleTurns 1 7 2 true

theorem sampleSource_contract
    (sampled : ∀ turn ∈ run, ∃ generation writes, turn.host = sampleSource generation writes) : KeepsContract run := by
  rintro req verified scope generation ⟨first, member, admitted⟩ ⟨second, member', confirmed⟩ -
  obtain ⟨g, w, same⟩ := sampled first member
  obtain ⟨g', w', same'⟩ := sampled second member'
  rw [same] at admitted
  rw [same'] at confirmed
  cases admitted
  have answer : (if scope = {.secret "a"} ∧ w' = true then (.ok g' : Except GateError Nat)
      else .error (.dispatchAuthority "fence absent")) = .ok generation := confirmed
  split at answer
  · rename_i fenced
    rw [fenced.1]
    change Disjoint ({.secret "b"} : Scope) {.secret "a"}
    decide
  · cases answer

theorem sampleTurns_host {thread count generation : Nat} {writes : Bool} :
    ∀ turn ∈ sampleTurns thread count generation writes, ∃ generation writes, turn.host = sampleSource generation writes := by
  intro turn member
  rw [eq_of_mem_replicate member]
  exact ⟨generation, writes, rfl⟩

theorem fencing_contract : KeepsContract (fencing ++ sampleTurns 1 1 2 true ++ sampleTurns 3 7 2 true) := by
  apply sampleSource_contract
  intro turn member
  simp only [fencing, mem_append] at member
  rcases member with (((first | second) | third) | fourth) | fifth
  · exact sampleTurns_host turn first
  · exact sampleTurns_host turn second
  · exact sampleTurns_host turn third
  · exact sampleTurns_host turn fourth
  · exact sampleTurns_host turn fifth

theorem revocation_overtaken_sample :
    KeepsContract (fencing ++ sampleTurns 1 1 2 true ++ sampleTurns 3 7 2 true) ∧
      (System.step (after 1 sampleCalls fencing) ⟨1, sampleSource 2 true⟩).2 = some (.revocation (.ok .complete)) ∧
      GrantsApart 1 sampleCalls (fencing ++ sampleTurns 1 1 2 true ++ sampleTurns 3 7 2 true) ∧
      CompletesDurably 1 sampleCalls (fencing ++ sampleTurns 1 1 2 true ++ sampleTurns 3 7 2 true) :=
  ⟨fencing_contract, by decide +kernel, revocation_never_overtaken 1 sampleCalls _ fencing_contract⟩

section

variable (operationNs : Nat) (calls : List Call)

/-- A failed revocation closes the broker for good, unless it leaves a fence or an unresolved
request for its scope or had found its fence verified: from then on the broker has no generation,
and no admission and no reconciliation succeeds. -/
def FailuresSeal : Prop :=
  ∀ past turn scope reason waitNs e, calls[turn.thread]? = some (.revoke scope reason waitNs) →
    (step (after operationNs calls past) turn).2 = some (.revocation (.error e)) →
    (∀ (id : Nat) (f : Fence), (after operationNs calls (past ++ [turn])).shared.fences[id]? = some f → ¬scope ⊆ f.scope) →
    (after operationNs calls (past ++ [turn])).shared.unresolvedRevocations.lookup scope = none →
    (∀ (id : Nat) (f : Fence), (after operationNs calls past).shared.fences[id]? = some f → f.phase = .persisted →
      ¬scope ⊆ f.scope) →
    ∀ later next, (after operationNs calls (past ++ [turn] ++ later)).shared.generation = none ∧
      (∀ permit, (step (after operationNs calls (past ++ [turn] ++ later)) next).2 ≠ some (.admission (.ok permit))) ∧
      (step (after operationNs calls (past ++ [turn] ++ later)) next).2 ≠ some (.reconciled (.ok ()))

def UnresolvedBlocks : Prop :=
  ∀ past turn, (after operationNs calls past).shared.unresolvedRevocations ≠ [] →
    ∀ permit, (step (after operationNs calls past) turn).2 ≠ some (.admission (.ok permit))

/-- The generation never goes back while the broker is open. -/
def GenerationGrows : Prop :=
  ∀ past later generation generation', (after operationNs calls past).shared.generation = some generation →
    (after operationNs calls (past ++ later)).shared.generation = some generation' → generation ≤ generation'

end

theorem admission_ends {turn : Turn} {permit : Permit}
    (returned : (step (after operationNs calls past) turn).2 = some (.admission (.ok permit))) :
    (after operationNs calls past).shared.generation.isSome ∧
      (after operationNs calls past).shared.unresolvedRevocations = [] := by
  have ends := (after_turn operationNs calls past turn).2 _ returned
  unfold finals at ends
  rcases called : calls[turn.thread]? with _ | call
  · rw [called] at ends
    cases ends
  rw [called] at ends
  cases call with
  | admission req => exact ⟨ends.1, ends.2.1⟩
  | _ => cases ends

theorem reconcile_ends {turn : Turn}
    (returned : (step (after operationNs calls past) turn).2 = some (.reconciled (.ok ()))) :
    (after operationNs calls past).shared.revocationFailed = false := by
  have ends := (after_turn operationNs calls past turn).2 _ returned
  unfold finals at ends
  rcases called : calls[turn.thread]? with _ | call
  · rw [called] at ends
    cases ends
  rw [called] at ends
  cases call with
  | reconcile => exact ends.2
  | _ => cases ends

section

variable (operationNs : Nat) (calls : List Call)

theorem failures_seal : FailuresSeal operationNs calls := by
  intro past turn scope reason waitNs e called returned unfenced unrecorded unverified later next
  have ends := (after_turn operationNs calls past turn).2 _ returned
  unfold finals at ends
  rw [called] at ends
  have failed : (after operationNs calls (past ++ [turn])).shared.revocationFailed = true := by
    rcases ends with (failed | kept) | ⟨id, f, stored, within⟩ | ⟨id, f, stored, persisted, within⟩
    · exact failed
    · rw [unrecorded] at kept
      cases kept
    · exact absurd within (unfenced id f stored)
    · exact absurd within (unverified id f stored persisted)
  have failed' : (after operationNs calls (past ++ [turn] ++ later)).shared.revocationFailed = true :=
    after_keeps answered_self (fun _ change here => change.failed here) failed
  have inv : Inv (Answered (past ++ [turn] ++ later)) (after operationNs calls (past ++ [turn] ++ later)).shared :=
    (running_after answered_self).1
  have closed := inv.closed failed'
  refine ⟨closed, ?_, ?_⟩
  · intro permit granted
    have opened := (admission_ends granted).1
    rw [closed] at opened
    cases opened
  · intro reopened
    rw [reconcile_ends reopened] at failed'
    cases failed'

theorem unresolved_blocks : UnresolvedBlocks operationNs calls :=
  fun _ _ recorded _ granted => recorded (admission_ends granted).2

theorem generation_grows : GenerationGrows operationNs calls := by
  intro past later generation generation' before now
  have reached : Reached generation (after operationNs calls (past ++ later)).shared :=
    after_keeps answered_self (fun _ change here => change.reached here) (.current before)
  have inv : Inv (Answered (past ++ later)) (after operationNs calls (past ++ later)).shared :=
    (running_after answered_self).1
  rcases reached with failed | ⟨current, here, later⟩
  · rw [inv.closed failed] at now
    cases now
  · rw [now] at here
    cases here
    exact later

end

/-- A revocation whose write failed lets go of its fence after a retry has written and confirmed it. -/
def retried : List Turn := sampleTurns 0 3 1 false ++ sampleTurns 1 6 1 false ++ sampleTurns 2 7 2 true

/-- A failed revocation that leaves neither a fence nor an unresolved request may leave the broker
open: an admission succeeds after it. -/
theorem verified_failure_leaves_open :
    ¬∀ past turn scope reason waitNs e, sampleCalls[turn.thread]? = some (.revoke scope reason waitNs) →
      (System.step (after 1 sampleCalls past) turn).2 = some (.revocation (.error e)) →
      (∀ (id : Nat) (f : Fence), (after 1 sampleCalls (past ++ [turn])).shared.fences[id]? = some f → ¬scope ⊆ f.scope) →
      (after 1 sampleCalls (past ++ [turn])).shared.unresolvedRevocations.lookup scope = none →
      ∀ later next permit,
        (System.step (after 1 sampleCalls (past ++ [turn] ++ later)) next).2 ≠ some (.admission (.ok permit)) := by
  intro seals
  have bare : (after 1 sampleCalls (retried ++ [⟨1, sampleSource 2 true⟩])).shared.fences = ∅ :=
    ExtTreeMap.isEmpty_iff.mp (by decide +kernel)
  refine seals retried ⟨1, sampleSource 2 true⟩ {.secret "a"} "leak" 0
    (.dispatchAuthority "revocation persistence failed") rfl (by decide +kernel) ?_ (by decide +kernel)
    (sampleTurns 3 6 2 true) ⟨3, sampleSource 2 true⟩
    ⟨7, 1, "0123456789abcdef0123456789abcdef0123456789abcdef0123456789abcdef", []⟩ (by decide +kernel)
  intro id f stored
  rw [bare, ExtTreeMap.getElem?_empty] at stored
  cases stored

theorem failed_revocation_seals (operationNs : Nat) (calls : List Call) :
    FailuresSeal operationNs calls ∧ UnresolvedBlocks operationNs calls ∧ GenerationGrows operationNs calls :=
  ⟨failures_seal operationNs calls, unresolved_blocks operationNs calls, generation_grows operationNs calls⟩

/-- However the calls interleave and whatever the source answers: a fence that is past waiting meets no live permit,
a fence that counts as persisted was written and read back under a generation that the broker has reached, and a
broker that a failed revocation closed has no generation. -/
theorem fences_hold (operationNs : Nat) (calls : List Call) (run : List Turn) :
    (∀ (id : Nat) (f : Fence), (after operationNs calls run).shared.fences[id]? = some f → f.phase ≠ .pending →
      ∀ (permit : PermitId) (p : LivePermit), (after operationNs calls run).shared.live[permit]? = some p →
        Disjoint p.scope f.scope) ∧
    (∀ (id : Nat) (f : Fence), (after operationNs calls run).shared.fences[id]? = some f → f.phase = .persisted →
      ∃ generation, Verified (Answered run) f.scope generation ∧ Reached generation (after operationNs calls run).shared) ∧
    ((after operationNs calls run).shared.revocationFailed = true → (after operationNs calls run).shared.generation = none) := by
  have inv : Inv (Answered run) (after operationNs calls run).shared := (running_after answered_self).1
  exact ⟨inv.clear, inv.verified, inv.closed⟩

end FerroLoop.Authority

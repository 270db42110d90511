import FerroLoop.Store.Outbound

namespace FerroLoop.Store

open Machine List Outbound Activity

def Activity.sends : Activity → Option (SyncBatch × Bool)
  | .deliver (.owned batch) => some (batch, true)
  | .call batch owned => some (batch, owned)
  | _ => none

def Activity.drainsTo : Activity → Option Nat
  | .deliver (.queued seq) => some seq
  | .drain seq => some seq
  | _ => none

namespace Outbound

def sending (slot : Outbound) (thread : Nat) : List (SyncBatch × Bool) :=
  (slot.running thread).filterMap sends

inductive Flight (slot : Outbound) : List SyncBatch → Prop
  | free (clear : slot.inFlight = none) (nobody : ∀ thread, slot.sending thread = []) : Flight slot []
  | owned {thread : Nat} {batch : SyncBatch} (flag : slot.inFlight = some thread)
    (own : slot.sending thread = [(batch, true)]) (others : ∀ other, other ≠ thread → slot.sending other = []) :
    Flight slot [batch]
  | front {thread : Nat} {batch : SyncBatch} {rest : List SyncBatch} (flag : slot.inFlight = some thread)
    (own : slot.sending thread = [(batch, false)]) (others : ∀ other, other ≠ thread → slot.sending other = [])
    (queue : slot.pending = batch :: rest) : Flight slot []

/-- The parts of the invariant that do not speak of the running. -/
structure Ledger (slot : Outbound) (flying : List SyncBatch) : Prop where
  account : slot.registered = slot.delivered ++ (flying ++ slot.pending)
  ordered : slot.registered.Pairwise fun a b => a.seq < b.seq
  bounded : ∀ batch ∈ slot.registered, batch.seq ≤ slot.lastSeq
  ahead : ∀ batch ∈ flying ++ slot.pending, slot.synced < batch.seq
  behind : slot.synced ≤ slot.lastSeq

structure Stacked (slot : Outbound) (stack : List Activity) : Prop where
  drains : ∀ frame ∈ stack, ∀ seq, frame.drainsTo = some seq → ∃ batch ∈ slot.registered, batch.seq = seq
  below : ∀ frame ∈ stack.tail, ∀ registered, frame ≠ .deliver registered

structure Inv (slot : Outbound) : Prop where
  flight : ∃ flying, slot.Flight flying ∧ slot.Ledger flying
  stacked : ∀ thread, slot.Stacked (slot.running thread)

theorem start_inv {lastSeq synced : Nat} (behind : synced ≤ lastSeq) : (start lastSeq synced).Inv := by
  refine ⟨⟨[], .free rfl fun _ => rfl, rfl, List.Pairwise.nil, ?_, ?_, behind⟩, ?_⟩
  · intro batch member
    cases member
  · intro batch member
    cases member
  intro thread
  refine ⟨?_, ?_⟩
  · intro frame member
    cases member
  · intro frame member
    cases member

variable {flying : List SyncBatch}

section Stacks

variable {slot : Outbound} {thread : Nat} {stack : List Activity}

@[simp] theorem setStack_same (slot : Outbound) (thread : Nat) (stack : List Activity) :
    (slot.setStack thread stack).running thread = stack := if_pos rfl

theorem setStack_other (slot : Outbound) {thread other : Nat} (stack : List Activity) (differ : other ≠ thread) :
    (slot.setStack thread stack).running other = slot.running other := if_neg differ

theorem sending_same (slot : Outbound) (thread : Nat) (stack : List Activity) :
    (slot.setStack thread stack).sending thread = stack.filterMap sends := by
  rw [sending, setStack_same]

theorem sending_other (slot : Outbound) {thread other : Nat} (stack : List Activity) (differ : other ≠ thread) :
    (slot.setStack thread stack).sending other = slot.sending other := by
  rw [sending, setStack_other slot stack differ, sending]

theorem setStack_stacked (every : ∀ other, slot.Stacked (slot.running other)) (own : slot.Stacked stack) (other : Nat) :
    (slot.setStack thread stack).Stacked ((slot.setStack thread stack).running other) := by
  by_cases same : other = thread
  · subst same
    rw [setStack_same]
    exact ⟨own.drains, own.below⟩
  · rw [setStack_other slot stack same]
    exact ⟨(every other).drains, (every other).below⟩

theorem Flight.restack (flight : slot.Flight flying)
    (same : stack.filterMap sends = slot.sending thread) : (slot.setStack thread stack).Flight flying := by
  have kept : ∀ other, (slot.setStack thread stack).sending other = slot.sending other := by
    intro other
    by_cases own : other = thread
    · subst own
      rw [sending_same, same]
    · exact sending_other slot stack own
  cases flight with
  | free clear nobody => exact .free clear fun other => by rw [kept, nobody]
  | owned flag own others =>
    exact .owned flag (by rw [kept]; exact own) fun other differ => by rw [kept, others other differ]
  | front flag own others queue =>
    exact .front flag (by rw [kept]; exact own) (fun other differ => by rw [kept, others other differ]) queue

theorem Inv.restack (inv : slot.Inv) (same : stack.filterMap sends = slot.sending thread)
    (own : slot.Stacked stack) : (slot.setStack thread stack).Inv := by
  obtain ⟨flying, flight, ledger⟩ := inv.flight
  exact ⟨⟨flying, flight.restack same, ⟨ledger.account, ledger.ordered, ledger.bounded, ledger.ahead, ledger.behind⟩⟩,
    setStack_stacked inv.stacked own⟩

variable {frame : Activity}

theorem Stacked.tail (stacked : slot.Stacked (frame :: stack)) : slot.Stacked stack where
  drains other member := stacked.drains other (mem_cons_of_mem _ member)
  below other member := stacked.below other (mem_of_mem_tail member)

theorem Stacked.suffix {shorter : List Activity} (stacked : slot.Stacked stack) (suffix : shorter <:+ stack) :
    slot.Stacked shorter := by
  obtain ⟨front, rfl⟩ := suffix
  induction front with
  | nil => exact stacked
  | cons frame rest ih => exact ih stacked.tail

theorem Stacked.push (stacked : slot.Stacked stack) (plain : ∀ other ∈ stack, ∀ r, other ≠ .deliver r)
    (drains : ∀ seq, frame.drainsTo = some seq → ∃ batch ∈ slot.registered, batch.seq = seq) :
    slot.Stacked (frame :: stack) := by
  refine ⟨?_, plain⟩
  intro other member seq to_
  rcases mem_cons.mp member with rfl | later
  · exact drains seq to_
  · exact stacked.drains other later seq to_

theorem Stacked.outside_plain (stacked : slot.Stacked stack) (calls : outside stack = true) :
    ∀ frame ∈ stack, ∀ registered, frame ≠ .deliver registered := by
  intro frame member registered same
  rcases stack with _ | ⟨top, rest⟩
  · cases member
  rcases mem_cons.mp member with rfl | later
  · rw [same] at calls
    cases calls
  · exact stacked.below frame later registered same

end Stacks

variable {stack : List Activity} {seq : Nat}

section Register

variable {slot : Outbound} {flying : List SyncBatch} {batch : SyncBatch} {seq : Nat}

theorem Ledger.advance (ledger : slot.Ledger flying) (later : slot.lastSeq ≤ seq) :
    Ledger { slot with lastSeq := seq } flying :=
  ⟨ledger.account, ledger.ordered, fun batch member => Nat.le_trans (ledger.bounded batch member) later, ledger.ahead,
    Nat.le_trans ledger.behind later⟩

section

variable (ledger : slot.Ledger flying) (newer : slot.lastSeq < batch.seq)

include ledger newer

theorem ordered_snoc : (slot.registered ++ [batch]).Pairwise fun a b => a.seq < b.seq := by
  refine pairwise_append.mpr ⟨ledger.ordered, pairwise_singleton _ _, ?_⟩
  intro earlier member last only
  rw [mem_singleton.mp only]
  exact Nat.lt_of_le_of_lt (ledger.bounded earlier member) newer

theorem bounded_snoc : ∀ other ∈ slot.registered ++ [batch], other.seq ≤ batch.seq := by
  intro other member
  rcases mem_append.mp member with before | last
  · exact Nat.le_of_lt (Nat.lt_of_le_of_lt (ledger.bounded other before) newer)
  · exact Nat.le_of_eq (congrArg SyncBatch.seq (mem_singleton.mp last))

theorem Ledger.queue : Ledger (enqueue { slot with lastSeq := batch.seq } batch) flying := by
  have further := Nat.lt_of_le_of_lt ledger.behind newer
  have ordered := ordered_snoc ledger newer
  have bounded := bounded_snoc ledger newer
  refine ⟨?_, ordered, bounded, ?_, Nat.le_of_lt further⟩
  · show slot.registered ++ [batch] = slot.delivered ++ (flying ++ (slot.pending ++ [batch]))
    rw [ledger.account]
    simp only [append_assoc]
  intro other member
  have split : other ∈ flying ++ (slot.pending ++ [batch]) := member
  rw [← append_assoc] at split
  rcases mem_append.mp split with before | last
  · exact ledger.ahead other before
  · rw [mem_singleton.mp last]
    exact further

end

theorem Ledger.own (ledger : slot.Ledger []) (empty : slot.pending = []) (newer : slot.lastSeq < batch.seq) (owner : Nat) :
    Ledger (take { slot with lastSeq := batch.seq } batch owner) [batch] := by
  have further := Nat.lt_of_le_of_lt ledger.behind newer
  have ordered := ordered_snoc ledger newer
  have bounded := bounded_snoc ledger newer
  refine ⟨?_, ordered, bounded, ?_, Nat.le_of_lt further⟩
  · show slot.registered ++ [batch] = slot.delivered ++ ([batch] ++ slot.pending)
    rw [ledger.account, empty]
    simp
  · intro other member
    have only : other ∈ [batch] ++ slot.pending := member
    rw [empty, append_nil] at only
    rw [mem_singleton.mp only]
    exact further

theorem Flight.queue (flight : slot.Flight flying) :
    Flight (enqueue { slot with lastSeq := seq } batch) flying := by
  cases flight with
  | free clear nobody => exact .free clear nobody
  | owned flag own others => exact .owned flag own others
  | front flag own others queue => exact .front flag own others (congrArg (· ++ [batch]) queue)

theorem isIdle_iff (slot : Outbound) : slot.isIdle = true ↔ slot.pending = [] ∧ slot.inFlight = none := by
  simp [SyncSlot.isIdle]

theorem Flight.of_idle (flight : slot.Flight flying) (idle : slot.isIdle = true) :
    flying = [] ∧ slot.pending = [] ∧ ∀ thread, slot.sending thread = [] := by
  obtain ⟨empty, clear⟩ := (isIdle_iff slot).mp idle
  cases flight with
  | free _ nobody => exact ⟨rfl, empty, nobody⟩
  | owned flag | front flag => rw [clear] at flag; cases flag

theorem Ledger.silent (ledger : slot.Ledger []) (empty : slot.pending = []) (later : slot.lastSeq ≤ seq) :
    Ledger (bump { slot with lastSeq := seq } seq) [] := by
  unfold bump
  split
  · refine ⟨ledger.account, ledger.ordered, fun batch member => Nat.le_trans (ledger.bounded batch member) later, ?_,
      Nat.le_refl _⟩
    intro batch member
    have none : batch ∈ [] ++ slot.pending := member
    rw [empty] at none
    cases none
  · exact ledger.advance later

theorem Stacked.grow {larger : Outbound} (stacked : slot.Stacked stack)
    (more : ∀ batch ∈ slot.registered, batch ∈ larger.registered) : larger.Stacked stack := by
  refine ⟨?_, stacked.below⟩
  intro frame member seq to_
  obtain ⟨batch, held, same⟩ := stacked.drains frame member seq to_
  exact ⟨batch, more batch held, same⟩

theorem register_inv (mode : SyncMode) (inv : slot.Inv) {thread : Nat} {ops : List Op} {silent : Bool}
    (calls : outside (slot.running thread) = true) (later : slot.lastSeq ≤ seq)
    (newer : ops.isEmpty = false → slot.lastSeq < seq) :
    ((register mode { slot with lastSeq := seq } ⟨seq, ops⟩ silent thread).1.setStack thread
      (.deliver (register mode { slot with lastSeq := seq } ⟨seq, ops⟩ silent thread).2 :: slot.running thread)).Inv := by
  obtain ⟨flying, flight, ledger⟩ := inv.flight
  have plain := (inv.stacked thread).outside_plain calls
  -- Nothing is registered: the stack grows by a frame that sends nothing.
  have nothing : ∀ next : Outbound, next.Inv → next.running thread = slot.running thread →
      (next.setStack thread (.deliver .nothing :: slot.running thread)).Inv := by
    intro next nextInv same
    refine nextInv.restack ?_ ?_
    · rw [sending, same]
      rfl
    · have own := nextInv.stacked thread
      rw [same] at own
      exact own.push plain (by intro seq to_; cases to_)
  -- The batch is queued, with or without a sequence to drain to.
  have queued : ops.isEmpty = false → ∀ left : Registered, (deliver left).sends = none →
      (∀ to_, (deliver left).drainsTo = some to_ → to_ = seq) →
      ((enqueue { slot with lastSeq := seq } ⟨seq, ops⟩).setStack thread (.deliver left :: slot.running thread)).Inv := by
    intro filled left quiet drains
    have fresh : slot.lastSeq < (⟨seq, ops⟩ : SyncBatch).seq := newer filled
    have grown : Inv (enqueue { slot with lastSeq := seq } ⟨seq, ops⟩) :=
      ⟨⟨flying, flight.queue, ledger.queue fresh⟩, fun other => (inv.stacked other).grow fun batch held =>
        mem_append_left _ held⟩
    refine grown.restack ?_ ((grown.stacked thread).push plain ?_)
    · rw [filterMap_cons, quiet]
      rfl
    · intro to_ same
      exact ⟨⟨seq, ops⟩, mem_append_right _ (mem_singleton.mpr rfl), (drains to_ same).symm⟩
  have advanced : Inv { slot with lastSeq := seq } := by
    refine ⟨⟨flying, ?_, ledger.advance later⟩, fun other => (inv.stacked other).grow fun batch held => held⟩
    cases flight with
    | free clear nobody => exact .free clear nobody
    | owned flag own others => exact .owned flag own others
    | front flag own others queue => exact .front flag own others queue
  unfold register
  by_cases none : ops.isEmpty = true
  · rw [if_pos none]
    exact nothing _ advanced rfl
  rw [if_neg none]
  have filled : ops.isEmpty = false := by simpa using none
  by_cases quiet : silent = true
  · rw [if_pos quiet]
    by_cases idle : slot.isIdle = true
    · obtain ⟨rfl, empty, nobody⟩ := flight.of_idle idle
      simp only [if_pos idle]
      refine nothing _ ?_ ?_
      · have clear := ((isIdle_iff _).mp idle).2
        refine ⟨⟨[], ?_, ledger.silent empty later⟩, ?_⟩
        · refine .free ?_ ?_
          · unfold bump
            split <;> exact clear
          · intro other
            unfold bump
            split <;> exact nobody other
        · intro other
          unfold bump
          split
          · exact (inv.stacked other).grow fun batch held => held
          · exact (inv.stacked other).grow fun batch held => held
      · unfold bump
        split <;> rfl
    · simp only [if_neg idle]
      exact nothing _ advanced rfl
  · rw [if_neg quiet]
    cases mode with
    | writeThrough =>
      by_cases busy : ¬ slot.isIdle = true
      · simp only [if_pos busy]
        exact queued filled (.queued seq) rfl (by intro to_ same; exact (Option.some.inj same).symm)
      simp only [if_neg busy]
      have idle : slot.isIdle = true := Classical.not_not.mp busy
      obtain ⟨rfl, empty, nobody⟩ := flight.of_idle idle
      have fresh : slot.lastSeq < (⟨seq, ops⟩ : SyncBatch).seq := newer filled
      refine ⟨⟨[⟨seq, ops⟩], ?_, ?_⟩, ?_⟩
      · refine .owned rfl ?_ ?_
        · rw [sending_same, filterMap_cons]
          have rest : (slot.running thread).filterMap sends = [] := nobody thread
          simp only [sends, rest]
        · intro other differ
          rw [sending_other _ _ differ]
          exact nobody other
      · have owned := ledger.own empty fresh thread
        exact ⟨owned.account, owned.ordered, owned.bounded, owned.ahead, owned.behind⟩
      · refine setStack_stacked (fun other => (inv.stacked other).grow fun batch held =>
          mem_append_left _ held) ?_
        have grown : Stacked (take { slot with lastSeq := seq } ⟨seq, ops⟩ thread) (slot.running thread) :=
          (inv.stacked thread).grow fun batch held => mem_append_left _ held
        exact grown.push plain (by intro to_ same; cases same)
    | writeBehind | localCache | cloudPreCache => exact queued filled .nothing rfl (by intro to_ same; cases same)

end Register

variable {next : Outbound}

section Send

variable {slot : Outbound} {thread : Nat} {rest : List Activity}

theorem Flight.of_call {batch : SyncBatch} {owned : Bool} (flight : slot.Flight flying)
    (stack : slot.running thread = .call batch owned :: rest) :
    rest.filterMap sends = [] ∧ (∀ other, other ≠ thread → slot.sending other = []) ∧
      ((owned = true ∧ flying = [batch]) ∨ (owned = false ∧ flying = [] ∧ ∃ back, slot.pending = batch :: back)) := by
  have own : slot.sending thread = (batch, owned) :: rest.filterMap sends := by
    rw [sending, stack, filterMap_cons]
    rfl
  cases flight with
  | free _ nobody =>
    rw [nobody] at own
    cases own
  | @owned holder held flag sends others =>
    have mine : holder = thread := by
      apply Classical.byContradiction
      intro differ
      rw [others thread (Ne.symm differ)] at own
      cases own
    subst mine
    rw [sends] at own
    obtain ⟨same, none⟩ := List.cons.inj own
    obtain ⟨rfl, rfl⟩ := Prod.mk.inj same
    exact ⟨none.symm, others, .inl ⟨rfl, rfl⟩⟩
  | @front holder held back flag sends others queue =>
    have mine : holder = thread := by
      apply Classical.byContradiction
      intro differ
      rw [others thread (Ne.symm differ)] at own
      cases own
    subst mine
    rw [sends] at own
    obtain ⟨same, none⟩ := List.cons.inj own
    obtain ⟨rfl, rfl⟩ := Prod.mk.inj same
    exact ⟨none.symm, others, .inr ⟨rfl, rfl, back, queue⟩⟩

/-- The parts of a slot that recording the end of a call leaves alone. -/
def SameFrame (slot next : Outbound) : Prop :=
  next.inFlight = slot.inFlight ∧ next.running = slot.running ∧ next.registered = slot.registered

theorem bump_frame (slot : Outbound) (seq : Nat) : SameFrame slot (slot.bump seq) := by
  unfold bump
  split <;> exact ⟨rfl, rfl, rfl⟩

theorem putBack_frame (slot : Outbound) (batch : SyncBatch) : SameFrame slot (slot.putBack batch) := by
  unfold putBack
  split <;> exact ⟨rfl, rfl, rfl⟩

theorem sentFront_frame (slot : Outbound) (batch : SyncBatch) : SameFrame slot (slot.sentFront batch) := by
  unfold sentFront
  split
  · exact ⟨rfl, rfl, rfl⟩
  · split
    · exact bump_frame _ _
    · exact ⟨rfl, rfl, rfl⟩

theorem Inv.landed (inv : slot.Inv)
    (others : ∀ other, other ≠ thread → slot.sending other = [])
    (silent : rest.filterMap sends = []) (stacked : slot.Stacked rest) (suffix : stack <:+ rest)
    (frame : SameFrame { slot with inFlight := none } next) (ledger : next.Ledger []) :
    (next.setStack thread stack).Inv := by
  obtain ⟨clear, running, registered⟩ := frame
  have grow : ∀ frames, slot.Stacked frames → next.Stacked frames := by
    intro frames held
    exact held.grow fun batch member => by rw [registered]; exact member
  refine ⟨⟨[], .free clear ?_, ledger.account, ledger.ordered, ledger.bounded, ledger.ahead, ledger.behind⟩, ?_⟩
  · intro other
    by_cases same : other = thread
    · subst same
      rw [sending_same]
      obtain ⟨front, rfl⟩ := suffix
      rw [filterMap_append] at silent
      exact (append_eq_nil_iff.mp silent).2
    · rw [sending_other _ _ same, sending, running]
      exact others other same
  · refine setStack_stacked ?_ ((grow rest stacked).suffix suffix)
    intro other
    rw [running]
    exact grow _ (inv.stacked other)

theorem unwound_suffix (stack : List Activity) : unwound stack <:+ stack := dropWhile_suffix _

theorem flushFails_suffix (stack : List Activity) : (flushFails stack).1 <:+ stack := by
  unfold flushFails
  split
  · exact ⟨[_, _], rfl⟩
  · exact ⟨[_], rfl⟩
  · exact suffix_refl _

theorem Ledger.clear (ledger : slot.Ledger flying) : Ledger { slot with inFlight := none } flying :=
  ⟨ledger.account, ledger.ordered, ledger.bounded, ledger.ahead, ledger.behind⟩

theorem Ledger.took {batch : SyncBatch} (ledger : slot.Ledger [batch]) :
    Ledger { slot.bump batch.seq with delivered := slot.delivered ++ [batch] } [] := by
  have account := ledger.account
  have ordered := ledger.ordered
  rw [account] at ordered
  have after := (pairwise_cons.mp (pairwise_append.mp ordered).2.1).1
  have member : batch ∈ slot.registered := by
    rw [account]
    simp
  have below := ledger.ahead batch (by simp)
  have bumped : slot.bump batch.seq = { slot with synced := batch.seq } := if_pos below
  rw [bumped]
  refine ⟨?_, ledger.ordered, ledger.bounded, after, ledger.bounded batch member⟩
  show slot.registered = slot.delivered ++ [batch] ++ ([] ++ slot.pending)
  rw [account]
  simp

variable {back : List SyncBatch}

theorem Ledger.tookFront {batch : SyncBatch} (ledger : slot.Ledger [])
    (queue : slot.pending = batch :: back) :
    Ledger { slot.sentFront batch with delivered := slot.delivered ++ [batch] } [] := by
  have account := ledger.account
  rw [queue] at account
  have ordered := ledger.ordered
  rw [account] at ordered
  have after := (pairwise_cons.mp (pairwise_append.mp ordered).2.1).1
  have member : batch ∈ slot.registered := by
    rw [account]
    simp
  have below := ledger.ahead batch (by rw [queue]; simp)
  have sent : slot.sentFront batch = { slot with pending := back, synced := batch.seq } := by
    simp only [sentFront, queue, ↓reduceIte]
    exact if_pos below
  rw [sent]
  refine ⟨?_, ledger.ordered, ledger.bounded, after, ledger.bounded batch member⟩
  show slot.registered = slot.delivered ++ [batch] ++ ([] ++ back)
  rw [account]
  simp

theorem Ledger.putBack {batch : SyncBatch} (ledger : slot.Ledger [batch]) : (slot.putBack batch).Ledger [] := by
  have ordered := ledger.ordered
  rw [ledger.account] at ordered
  have after := (pairwise_cons.mp (pairwise_append.mp ordered).2.1).1
  have absent : ¬ slot.pending.any (fun pending => pending.seq == batch.seq) = true := by
    intro found
    obtain ⟨other, member, same⟩ := any_eq_true.mp found
    have less := after other (by simpa using member)
    rw [beq_iff_eq.mp same] at less
    exact Nat.lt_irrefl _ less
  have put : slot.putBack batch = { slot with pending := batch :: slot.pending } := if_neg absent
  rw [put]
  exact ⟨ledger.account, ledger.ordered, ledger.bounded, ledger.ahead, ledger.behind⟩

theorem putBack_front {batch : SyncBatch} (queue : slot.pending = batch :: back) :
    slot.putBack batch = slot := by
  refine if_pos ?_
  rw [queue]
  simp

theorem ends_inv (inv : slot.Inv) (answer : CallEnd) : (slot.ends thread answer (slot.running thread)).1.Inv := by
  obtain ⟨flying, flight, ledger⟩ := inv.flight
  rcases stack : slot.running thread with _ | ⟨top, rest⟩
  · exact inv
  cases top with
  | deliver _ | drain _ | flush => exact inv
  | call batch owned =>
    obtain ⟨silent, others, kind⟩ := flight.of_call stack
    have stacked : slot.Stacked rest := by
      have whole := inv.stacked thread
      rw [stack] at whole
      exact whole.tail
    rcases kind with ⟨rfl, rfl⟩ | ⟨rfl, rfl, back, queue⟩
    · cases answer with
      | ok =>
        exact inv.landed others silent stacked (suffix_refl _) (bump_frame _ _) ledger.clear.took
      | failed =>
        exact inv.landed others silent stacked (suffix_refl _) (putBack_frame _ _) ledger.clear.putBack
      | panicked =>
        exact inv.landed others silent stacked (unwound_suffix rest) (putBack_frame _ _) ledger.clear.putBack
    · have unchanged : SameFrame { slot with inFlight := none } { slot with inFlight := none } := ⟨rfl, rfl, rfl⟩
      cases answer with
      | ok =>
        have took := ledger.clear.tookFront queue
        exact inv.landed others silent stacked (suffix_refl _) (sentFront_frame _ _) took
      | failed =>
        exact inv.landed others silent stacked (flushFails_suffix rest) unchanged ledger.clear
      | panicked =>
        have put : putBack { slot with inFlight := none } batch = { slot with inFlight := none } :=
          putBack_front queue
        have landed : (setStack { slot with inFlight := none } thread (unwound rest)).Inv :=
          inv.landed others silent stacked (unwound_suffix rest) unchanged ledger.clear
        rw [← put] at landed
        exact landed

theorem Inv.takeFront {batch : SyncBatch} (inv : slot.Inv) (flag : slot.inFlight = none)
    (queue : slot.pending = batch :: back) (stack : slot.running thread = .flush :: rest) :
    (setStack { slot with inFlight := some thread } thread (.call batch false :: .flush :: rest)).Inv := by
  obtain ⟨flying, flight, ledger⟩ := inv.flight
  have whole := inv.stacked thread
  rw [stack] at whole
  cases flight with
  | owned taken | front taken =>
    rw [flag] at taken
    cases taken
  | free _ nobody =>
    have none : (flush :: rest).filterMap sends = [] := by
      rw [← stack]
      exact nobody thread
    refine ⟨⟨[], ?_, ledger.account, ledger.ordered, ledger.bounded, ledger.ahead, ledger.behind⟩, ?_⟩
    · refine .front rfl ?_ ?_ queue
      · rw [sending_same, filterMap_cons, none]
        rfl
      · intro other differ
        rw [sending_other _ _ differ]
        exact nobody other
    · have stacked : Stacked { slot with inFlight := some thread } (.flush :: rest) := whole.grow fun _ held => held
      refine setStack_stacked (fun other => (inv.stacked other).grow fun _ held => held) (stacked.push ?_ ?_)
      · intro frame member registered same
        rcases mem_cons.mp member with rfl | later
        · cases same
        · exact whole.below frame later registered same
      · intro to_ same
        cases same

theorem resume_inv (inv : slot.Inv) : (slot.resume thread (slot.running thread)).1.Inv := by
  have whole := inv.stacked thread
  have current : slot.sending thread = (slot.running thread).filterMap sends := rfl
  rcases stack : slot.running thread with _ | ⟨top, rest⟩
  · exact inv
  rw [stack] at whole current
  have popped : top.sends = none → (slot.setStack thread rest).Inv := by
    intro quiet
    refine inv.restack ?_ whole.tail
    rw [current, filterMap_cons, quiet]
  cases top with
  | call _ _ => exact inv
  | deliver registered =>
    cases registered with
    | nothing => exact popped rfl
    | queued seq =>
      refine inv.restack ?_ (whole.tail.push whole.below ?_)
      · rw [current]
        rfl
      · intro to_ same
        exact whole.drains _ mem_cons_self to_ same
    | owned batch =>
      refine inv.restack ?_ (whole.tail.push whole.below ?_)
      · rw [current]
        rfl
      · intro to_ same
        cases same
  | drain seq =>
    simp only [resume]
    split
    · exact popped rfl
    split
    · exact popped rfl
    refine inv.restack ?_ (whole.push ?_ ?_)
    · rw [current]
      rfl
    · intro frame member registered same
      rcases mem_cons.mp member with rfl | later
      · cases same
      · exact whole.below frame later registered same
    · intro to_ same
      cases same
  | flush =>
    simp only [resume]
    cases flag : slot.inFlight with
    | some owner =>
      simp only []
      split
      · exact popped rfl
      · exact inv
    | none =>
      simp only []
      split
      · rename_i batch back queue
        exact inv.takeFront flag queue stack
      · exact popped rfl

end Send

variable (mode : SyncMode) (slot : Outbound) (thread : Nat) (stack : List Activity) (batch : SyncBatch)

theorem step_inv {slot : Outbound} (inv : slot.Inv) (event : SyncEvent) : (step mode slot event).1.Inv := by
  obtain ⟨thread, action⟩ := event
  cases action with
  | commit ops silent elsewhere =>
    by_cases calls : outside (slot.running thread) = true
    · simp only [step, if_pos calls]
      refine register_inv mode inv calls ?_ ?_
      · split <;> omega
      · intro filled
        simp only [filled, Bool.false_eq_true, ↓reduceIte]
        omega
    · simp only [step, if_neg calls]
      exact inv
  | flush =>
    by_cases calls : outside (slot.running thread) = true
    · simp only [step, if_pos calls]
      have stacked := inv.stacked thread
      refine inv.restack rfl (stacked.push (stacked.outside_plain calls) ?_)
      intro to_ same
      cases same
    · simp only [step, if_neg calls]
      exact inv
  | resume => exact resume_inv inv
  | answer answer => exact ends_inv inv answer

/-- A batch that is on its way: queued, or being sent by the committer that owns it. -/
def Unsent (slot : Outbound) (batch : SyncBatch) : Prop :=
  batch ∈ slot.pending ∨ ∃ thread, ∃ frame ∈ slot.running thread, frame.sends = some (batch, true)

theorem Inv.unsent {slot : Outbound} (inv : slot.Inv) {batch : SyncBatch} (registered : batch ∈ slot.registered) :
    batch ∈ slot.delivered ∨ slot.Unsent batch := by
  obtain ⟨flying, flight, ledger⟩ := inv.flight
  rw [ledger.account] at registered
  rcases mem_append.mp registered with done | left
  · exact .inl done
  rcases mem_append.mp left with flies | waits
  · cases flight with
    | free | front => cases flies
    | @owned thread held flag own others =>
      rw [mem_singleton.mp flies]
      have member : (held, true) ∈ (slot.running thread).filterMap sends := by
        rw [show (slot.running thread).filterMap sends = _ from own]
        exact mem_singleton.mpr rfl
      obtain ⟨frame, inStack, sends⟩ := mem_filterMap.mp member
      exact .inr (.inr ⟨thread, frame, inStack, sends⟩)
  · exact .inr (.inl waits)

theorem Inv.delivered_ordered {slot : Outbound} (inv : slot.Inv) : slot.delivered.Pairwise fun a b => a.seq < b.seq := by
  obtain ⟨flying, -, ledger⟩ := inv.flight
  have ordered := ledger.ordered
  rw [ledger.account] at ordered
  exact (pairwise_append.mp ordered).1

structure Grows (slot next : Outbound) : Prop where
  synced : slot.synced ≤ next.synced
  registered : slot.registered <+: next.registered
  delivered : slot.delivered <+: next.delivered

theorem Grows.refl : Grows slot slot := ⟨Nat.le_refl _, prefix_refl _, prefix_refl _⟩

theorem Grows.trans {slot middle : Outbound} (first : Grows slot middle) (second : Grows middle next) :
    Grows slot next :=
  ⟨Nat.le_trans first.synced second.synced, first.registered.trans second.registered,
    first.delivered.trans second.delivered⟩

theorem setStack_grows : Grows slot (slot.setStack thread stack) :=
  ⟨Nat.le_refl _, prefix_refl _, prefix_refl _⟩

theorem bump_grows (seq : Nat) : Grows slot (slot.bump seq) := by
  unfold bump
  split
  · exact ⟨Nat.le_of_lt ‹_›, prefix_refl _, prefix_refl _⟩
  · exact Grows.refl _

theorem putBack_grows : Grows slot (slot.putBack batch) := by
  unfold putBack
  split
  · exact Grows.refl _
  · exact ⟨Nat.le_refl _, prefix_refl _, prefix_refl _⟩

theorem sentFront_grows : Grows slot (slot.sentFront batch) := by
  unfold sentFront
  split
  · exact Grows.refl _
  split
  · rename_i front rest _ _
    have popped : Grows slot { slot with pending := rest } := ⟨Nat.le_refl _, prefix_refl _, prefix_refl _⟩
    exact popped.trans (bump_grows _ _)
  · exact Grows.refl _

theorem register_grows (silent : Bool) (owner : Nat) :
    Grows slot (register mode slot batch silent owner).1 := by
  have queued : Grows slot (slot.enqueue batch) := ⟨Nat.le_refl _, prefix_append _ _, prefix_refl _⟩
  unfold register
  split
  · exact Grows.refl _
  split
  · split
    · exact bump_grows _ _
    · exact Grows.refl _
  cases mode with
  | writeThrough =>
    dsimp only
    split
    · exact queued
    · exact ⟨Nat.le_refl _, prefix_append _ _, prefix_refl _⟩
  | writeBehind | localCache | cloudPreCache => exact queued

theorem resume_grows : Grows slot (slot.resume thread stack).1 := by
  unfold resume
  split
  · exact setStack_grows _ _ _
  · exact setStack_grows _ _ _
  · exact setStack_grows _ _ _
  · split
    · exact setStack_grows _ _ _
    · split
      · exact setStack_grows _ _ _
      · exact setStack_grows _ _ _
  · split
    · split
      · exact setStack_grows _ _ _
      · exact Grows.refl _
    · split
      · exact ⟨Nat.le_refl _, prefix_refl _, prefix_refl _⟩
      · exact setStack_grows _ _ _
  · exact Grows.refl _

theorem ends_grows (answer : CallEnd) (stack : List Activity) :
    Grows slot (slot.ends thread answer stack).1 := by
  have clear : Grows slot { slot with inFlight := none } := ⟨Nat.le_refl _, prefix_refl _, prefix_refl _⟩
  -- The adapter took the batch, after the slot was brought up to date.
  have took : ∀ (next : Outbound) batch stack, Grows { slot with inFlight := none } next →
      Grows slot (setStack { next with delivered := slot.delivered ++ [batch] } thread stack) := by
    intro next batch stack grows
    exact ⟨grows.synced, grows.registered, prefix_append _ _⟩
  unfold ends
  split
  · rename_i batch owned rest
    cases answer with
    | ok =>
      cases owned with
      | true => exact took _ batch rest (bump_grows _ _)
      | false => exact took _ batch rest (sentFront_grows _ _)
    | failed =>
      cases owned with
      | true => exact (clear.trans (putBack_grows _ batch)).trans (setStack_grows _ _ _)
      | false => exact clear.trans (setStack_grows _ _ _)
    | panicked => exact (clear.trans (putBack_grows _ batch)).trans (setStack_grows _ _ _)
  · exact Grows.refl _

theorem step_grows (event : SyncEvent) : Grows slot (step mode slot event).1 := by
  obtain ⟨thread, action⟩ := event
  cases action with
  | commit ops silent elsewhere =>
    by_cases calls : outside (slot.running thread) = true
    · simp only [step, if_pos calls]
      have advanced : ∀ seq, Grows slot { slot with lastSeq := seq } := fun seq =>
        ⟨Nat.le_refl _, prefix_refl _, prefix_refl _⟩
      exact ((advanced _).trans (register_grows mode _ _ silent thread)).trans (setStack_grows _ _ _)
    · simp only [step, if_neg calls]
      exact Grows.refl _
  | flush =>
    simp only [step]
    split
    · exact setStack_grows _ _ _
    · exact Grows.refl _
  | resume => exact resume_grows _ _ _
  | answer answer => exact ends_grows _ _ _ _

theorem resume_returned {slot : Outbound} (inv : slot.Inv) {thread : Nat}
    (returned : (slot.resume thread (slot.running thread)).2 = .returned seq) :
    (∃ batch ∈ (slot.resume thread (slot.running thread)).1.delivered, batch.seq = seq) ∨
      ∃ frame ∈ (slot.resume thread (slot.running thread)).1.running thread, frame.isCall = true := by
  obtain ⟨flying, flight, ledger⟩ := inv.flight
  have whole := inv.stacked thread
  have sends : slot.sending thread = (slot.running thread).filterMap sends := rfl
  rcases stack : slot.running thread with _ | ⟨top, rest⟩
  · rw [stack] at returned
    cases returned
  rw [stack] at returned whole sends
  cases top with
  | call _ _ => cases returned
  | deliver registered => cases registered <;> cases returned
  | flush =>
    simp only [resume] at returned
    split at returned
    · split at returned <;> cases returned
    · split at returned <;> cases returned
  | drain to_ =>
    simp only [resume] at returned ⊢
    obtain ⟨batch, registered, same⟩ := whole.drains _ mem_cons_self to_ rfl
    split at returned
    · rename_i reached
      cases returned
      rw [if_pos reached]
      refine .inl ⟨batch, ?_, same⟩
      rw [ledger.account] at registered
      rcases mem_append.mp registered with done | left
      · exact done
      · have ahead := ledger.ahead batch left
        omega
    · rename_i short
      rw [if_neg short]
      split at returned
      · rename_i mine
        cases returned
        rw [if_pos mine]
        refine .inr ?_
        -- The flag is this thread's, and the frame that set it is further down.
        have calls : ∃ frame ∈ rest, ∃ sent, frame.sends = some sent := by
          have filled : slot.sending thread ≠ [] := by
            cases flight with
            | free clear =>
              rw [clear] at mine
              cases mine
            | owned flag own | front flag own =>
              rw [mine] at flag
              cases flag
              rw [own]
              exact cons_ne_nil _ _
          rw [sends] at filled
          obtain ⟨sent, member⟩ := exists_mem_of_ne_nil _ filled
          obtain ⟨frame, inStack, found⟩ := mem_filterMap.mp member
          rcases mem_cons.mp inStack with rfl | later
          · cases found
          · exact ⟨frame, later, sent, found⟩
        obtain ⟨frame, member, sent, found⟩ := calls
        refine ⟨frame, ?_, ?_⟩
        · rw [setStack_same]
          exact member
        cases frame with
        | call _ _ => rfl
        | deliver registered => exact absurd rfl (whole.below _ member registered)
        | drain _ | flush => cases found
      · cases returned

theorem flushFails_quiet (seq : Nat) : (flushFails stack).2 ≠ .returned seq := by
  unfold flushFails
  split <;> exact nofun

/-- A write-through commit that returns was sent, unless it was made inside its own thread's call
of `on_commit`. -/
theorem step_returned {slot : Outbound} (inv : slot.Inv) {event : SyncEvent}
    (returned : (step mode slot event).2 = .returned seq) :
    (∃ batch ∈ (step mode slot event).1.delivered, batch.seq = seq) ∨
      ∃ frame ∈ (step mode slot event).1.running event.thread, frame.isCall = true := by
  obtain ⟨thread, action⟩ := event
  cases action with
  | commit ops silent elsewhere | flush =>
    simp only [step] at returned
    split at returned <;> cases returned
  | resume => exact resume_returned inv returned
  | answer answer =>
    simp only [step] at returned ⊢
    rcases stack : slot.running thread with _ | ⟨top, rest⟩
    · rw [stack] at returned
      cases returned
    rw [stack] at returned
    cases top with
    | deliver _ | drain _ | flush => cases returned
    | call batch owned =>
      cases answer with
      | failed =>
        cases owned with
        | true => cases returned
        | false => exact absurd returned (flushFails_quiet rest seq)
      | panicked => cases returned
      | ok =>
        cases owned with
        | false => cases returned
        | true =>
          cases returned
          exact .inl ⟨batch, mem_append_right _ (mem_singleton.mpr rfl), rfl⟩

end Outbound

/-- Over every run: what the adapter took is in sequence order and so never twice, every batch
registered was taken or is still on its way, nothing that was registered, taken or synced is taken
back, and a write-through commit that returns was sent unless it was made inside `on_commit` on
its own thread. -/
theorem outbound_delivers (mode : SyncMode) {lastSeq synced : Nat} (behind : synced ≤ lastSeq) (events : List SyncEvent) :
    (run (step mode) (.start lastSeq synced) events).delivered.Pairwise (fun a b => a.seq < b.seq) ∧
    (∀ batch ∈ (run (step mode) (.start lastSeq synced) events).registered,
      batch ∈ (run (step mode) (.start lastSeq synced) events).delivered ∨
        (run (step mode) (.start lastSeq synced) events).Unsent batch) ∧
    ∀ event, Grows (run (step mode) (.start lastSeq synced) events)
        (step mode (run (step mode) (.start lastSeq synced) events) event).1 ∧
      ∀ seq, (step mode (run (step mode) (.start lastSeq synced) events) event).2 =
          .returned seq →
        (∀ frame ∈ (step mode (run (step mode) (.start lastSeq synced) events) event).1.running
          event.thread, frame.isCall = false) →
        ∃ batch ∈ (step mode (run (step mode) (.start lastSeq synced) events) event).1.delivered,
          batch.seq = seq := by
  have preserved : ∀ slot event, Outbound.Inv slot → (Outbound.step mode slot event).1.Inv :=
    fun slot event held => step_inv mode held event
  have inv : (run (step mode) (.start lastSeq synced) events).Inv :=
    run_invariant preserved (start_inv behind) events
  refine ⟨inv.delivered_ordered, fun batch registered => inv.unsent registered, ?_⟩
  intro event
  refine ⟨step_grows mode _ event, ?_⟩
  intro seq returned outermost
  rcases step_returned mode inv returned with sent | ⟨frame, member, calls⟩
  · exact sent
  · rw [outermost frame member] at calls
    cases calls

theorem outbound_delivers_sample :
    ∃ batch ∈ (run (step .writeThrough) (.start 0 0) [⟨0, .commit [.delete "notes" "a"] false 0⟩,
      ⟨0, .resume⟩, ⟨0, .answer .ok⟩]).delivered, batch.seq = 1 := by
  have all := (outbound_delivers .writeThrough (Nat.le_refl 0) [⟨0, .commit [.delete "notes" "a"] false 0⟩,
    ⟨0, .resume⟩]).2.2 ⟨0, .answer .ok⟩
  refine all.2 1 rfl ?_
  intro frame member
  cases member

/-- A commit made inside `on_commit` of its own thread returns while its batch is still queued. -/
theorem nested_commit_returns_unsent :
    (step .writeThrough (run (step .writeThrough) (.start 0 0)
      [⟨0, .commit [.delete "notes" "a"] false 0⟩, ⟨0, .resume⟩, ⟨0, .commit [.delete "notes" "b"] false 0⟩,
        ⟨0, .resume⟩]) ⟨0, .resume⟩).2 = .returned 2 ∧
    (step .writeThrough (run (step .writeThrough) (.start 0 0)
      [⟨0, .commit [.delete "notes" "a"] false 0⟩, ⟨0, .resume⟩, ⟨0, .commit [.delete "notes" "b"] false 0⟩,
        ⟨0, .resume⟩]) ⟨0, .resume⟩).1.delivered = [] := by
  constructor
  · rfl
  · rfl

end FerroLoop.Store

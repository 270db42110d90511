import Mathlib.Logic.Relation

/-!
Graph search with a queue: take the first node of the queue, add each of its successors that
was not seen before to the seen ones and to the queue, until the queue is empty. With fuel for
every node it can add, the search sees exactly what can be reached.
-/

namespace FerroLoop.Worklist

open List List

variable {α : Type} [DecidableEq α]

/-- Adds each node that was not seen before to the seen nodes and to the queue. -/
def discover : List α → List α → List α → List α × List α
  | [], seen, queue => (seen, queue)
  | x :: rest, seen, queue =>
    if x ∈ seen then discover rest seen queue else discover rest (seen ++ [x]) (queue ++ [x])

def search (next : α → List α) : Nat → List α → List α → List α
  | 0, seen, _ => seen
  | _ + 1, seen, [] => seen
  | fuel + 1, seen, current :: queue =>
    let found := discover (next current) seen queue
    search next fuel found.1 found.2

theorem discover_eq (xs seen queue : List α) :
    ∃ new, discover xs seen queue = (seen ++ new, queue ++ new) ∧ new ⊆ xs ∧ (∀ x ∈ xs, x ∈ seen ++ new) ∧
      new.Nodup ∧ ∀ x ∈ new, x ∉ seen := by
  induction xs generalizing seen queue with
  | nil => exact ⟨[], by simp [discover], Subset.refl _, nofun, nodup_nil, nofun⟩
  | cons x rest ih =>
    unfold discover
    split
    · rename_i known
      obtain ⟨new, same, within, all, distinct, unseen⟩ := ih seen queue
      refine ⟨new, same, fun y member => mem_cons_of_mem _ (within member), ?_, distinct, unseen⟩
      intro y member
      rcases mem_cons.mp member with first | later
      · exact first ▸ mem_append_left _ known
      · exact all y later
    · rename_i unknown
      obtain ⟨new, same, within, all, distinct, unseen⟩ := ih (seen ++ [x]) (queue ++ [x])
      have apart : x ∉ new := fun member => unseen x member (mem_append_right _ (mem_singleton.mpr rfl))
      refine ⟨x :: new, ?_, ?_, ?_, nodup_cons.mpr ⟨apart, distinct⟩, ?_⟩
      · rw [same, append_assoc, append_assoc]
        rfl
      · exact cons_subset_cons _ within
      · intro y member
        rcases mem_cons.mp member with first | later
        · exact first ▸ mem_append_right _ mem_cons_self
        · simpa using all y later
      · intro y member
        rcases mem_cons.mp member with first | later
        · exact first ▸ unknown
        · exact fun known => unseen y later (mem_append_left _ known)

/-- The nodes that were not seen yet. -/
def unseen (nodes seen : List α) : List α := nodes.filter fun x => x ∉ seen

/-- Each new node was one of those not seen yet. -/
theorem unseen_append {nodes seen new : List α} (within : new ⊆ nodes) (distinct : new.Nodup)
    (apart : ∀ x ∈ new, x ∉ seen) : (unseen nodes (seen ++ new)).length + new.length ≤ (unseen nodes seen).length := by
  induction new generalizing seen with
  | nil => simp
  | cons x rest ih =>
    obtain ⟨notLater, distinct⟩ := nodup_cons.mp distinct
    have next := @ih (seen ++ [x]) (fun y member => within (mem_cons_of_mem _ member)) distinct ?_
    · rw [append_assoc, singleton_append] at next
      have fewer : (unseen nodes (seen ++ [x])).length < (unseen nodes seen).length := by
        have there : x ∈ unseen nodes seen :=
          mem_filter.mpr ⟨within mem_cons_self, decide_eq_true (apart x mem_cons_self)⟩
        have gone : unseen nodes (seen ++ [x]) = (unseen nodes seen).filter fun y => y ≠ x := by
          unfold unseen
          rw [filter_filter]
          apply filter_congr
          intro y _
          simp [and_comm]
        rw [gone]
        exact length_filter_lt_length_iff_exists.mpr ⟨x, there, by simp⟩
      rw [length_cons]
      omega
    · intro y member known
      rcases mem_append.mp known with before | first
      · exact apart y (mem_cons_of_mem _ member) before
      · exact notLater (mem_singleton.mp first ▸ member)

variable (next : α → List α)

/-- `b` is a successor of `a`. -/
def Leads (a b : α) : Prop := b ∈ next a

variable {next}

theorem search_seen (fuel : Nat) (seen queue : List α) : seen ⊆ search next fuel seen queue := by
  induction fuel generalizing seen queue with
  | zero => exact Subset.refl _
  | succ fuel ih =>
    rcases queue with _ | ⟨current, queue⟩
    · exact Subset.refl _
    obtain ⟨new, same, _⟩ := discover_eq (next current) seen queue
    simp only [search, same]
    exact Subset.trans (subset_append_left _ _) (ih _ _)

/-- Everything seen can be reached from a node seen at the start. -/
theorem search_sound {start : α → Prop} (fuel : Nat) {seen queue : List α} (within : queue ⊆ seen)
    (reached : ∀ x ∈ seen, ∃ s, start s ∧ Relation.ReflTransGen (Leads next) s x) :
    ∀ x ∈ search next fuel seen queue, ∃ s, start s ∧ Relation.ReflTransGen (Leads next) s x := by
  induction fuel generalizing seen queue with
  | zero => exact reached
  | succ fuel ih =>
    rcases queue with _ | ⟨current, queue⟩
    · exact reached
    obtain ⟨new, same, from_, _⟩ := discover_eq (next current) seen queue
    simp only [search, same]
    refine ih ?_ ?_
    · intro x member
      rcases mem_append.mp member with old | added
      · exact mem_append_left _ (within (mem_cons_of_mem _ old))
      · exact mem_append_right _ added
    · intro x member
      rcases mem_append.mp member with old | added
      · exact reached x old
      · obtain ⟨s, begins, path⟩ := reached current (within mem_cons_self)
        exact ⟨s, begins, path.tail (from_ added)⟩

/-- With fuel for every node not seen yet and for the queue, what is seen is closed under successors. -/
theorem search_closed {nodes : List α} (all : ∀ x, next x ⊆ nodes) (fuel : Nat) {seen queue : List α}
    (enough : (unseen nodes seen).length + queue.length ≤ fuel)
    (done : ∀ x ∈ seen, x ∉ queue → next x ⊆ seen) :
    ∀ x ∈ search next fuel seen queue, next x ⊆ search next fuel seen queue := by
  induction fuel generalizing seen queue with
  | zero =>
    have empty : queue = [] := eq_nil_of_length_eq_zero (by omega)
    subst empty
    exact fun x member => done x member not_mem_nil
  | succ fuel ih =>
    rcases queue with _ | ⟨current, queue⟩
    · exact fun x member => done x member not_mem_nil
    obtain ⟨new, same, from_, found, distinct, apart⟩ := discover_eq (next current) seen queue
    simp only [search, same]
    have fewer := unseen_append (fun x member => all current (from_ member)) distinct apart
    refine ih ?_ ?_
    · simp only [length_append, length_cons] at enough ⊢
      omega
    intro x member waiting
    have later : x ∉ queue := fun inside => waiting (mem_append_left _ inside)
    rcases mem_append.mp member with old | added
    · by_cases first : x = current
      · subst first
        exact fun y leads => found y leads
      refine Subset.trans (done x old ?_) (subset_append_left _ _)
      intro inside
      rcases mem_cons.mp inside with same | rest
      · exact first same
      · exact later rest
    · exact absurd (mem_append_right _ added) waiting

/-- A search from one node sees exactly what can be reached from it. -/
theorem mem_search {nodes : List α} (all : ∀ x, next x ⊆ nodes) {fuel : Nat} (enough : nodes.length + 1 ≤ fuel)
    (start x : α) : x ∈ search next fuel [start] [start] ↔ Relation.ReflTransGen (Leads next) start x := by
  constructor
  · intro member
    obtain ⟨s, rfl, path⟩ := @search_sound _ _ next (fun s => s = start) fuel _ _ (Subset.refl _) (by
      intro y first
      exact ⟨start, rfl, mem_singleton.mp first ▸ .refl⟩) x member
    exact path
  · intro path
    have closed := @search_closed _ _ next _ all fuel [start] [start] (by
      have fewer := length_filter_le (fun x => decide (x ∉ [start])) nodes
      simp only [unseen, length_singleton]
      omega) (fun y member waiting => absurd member waiting)
    induction path with
    | refl => exact search_seen _ _ _ (mem_singleton.mpr rfl)
    | tail _ leads ih => exact closed _ ih leads

/-! ### The order of the search -/

variable (next) in
/-- The ends of the paths of one length from a node, in the order of the successors. -/
def generation (start : α) : Nat → List α
  | 0 => [start]
  | n + 1 => (generation start n).flatMap next

variable (next) in
/-- A path ends in the node, and all that a shorter path ends in, or one of its length through earlier successors, is
among `pre`. -/
def Placed (start : α) (pre : List α) (x : α) : Prop :=
  ∃ n before after, generation next start n = before ++ x :: after ∧ before ⊆ pre ∧ ∀ m < n, generation next start m ⊆ pre

theorem discover_order {xs seen queue new : List α} (found : (discover xs seen queue).1 = seen ++ new) {first rest : List α}
    {x : α} (split : new = first ++ x :: rest) : ∃ u v, xs = u ++ x :: v ∧ u ⊆ seen ++ first := by
  induction xs generalizing seen queue new first with
  | nil =>
    have empty : new = [] := self_eq_append_right.mp found
    rw [empty] at split
    exact absurd split (by simp)
  | cons y ys ih =>
    unfold discover at found
    split at found
    · rename_i known
      obtain ⟨u, v, rfl, earlier⟩ := ih found split
      exact ⟨y :: u, v, rfl, cons_subset.mpr ⟨mem_append_left _ known, earlier⟩⟩
    · obtain ⟨later, same, -⟩ := discover_eq ys (seen ++ [y]) (queue ++ [y])
      rw [same, append_assoc] at found
      have whole : y :: later = new := append_cancel_left found
      rcases first with _ | ⟨z, first⟩
      · rw [← whole] at split
        obtain ⟨rfl, rfl⟩ := cons.inj split
        exact ⟨[], ys, rfl, nil_subset _⟩
      · rw [← whole] at split
        obtain ⟨rfl, more⟩ := cons.inj split
        obtain ⟨u, v, rfl, earlier⟩ := ih (congrArg Prod.fst same) more
        refine ⟨y :: u, v, rfl, cons_subset.mpr ⟨mem_append_right _ mem_cons_self, ?_⟩⟩
        rw [append_assoc] at earlier
        exact earlier

/-- One node of the queue after the other is expanded, so what it adds comes behind all that shorter and earlier paths
end in. -/
theorem search_placed {start : α} (fuel : Nat) {done queue : List α} (closed : ∀ x ∈ done, next x ⊆ done ++ queue)
    (placed : ∀ pre x post, done ++ queue = pre ++ x :: post → Placed next start pre x) :
    ∀ pre x post, search next fuel (done ++ queue) queue = pre ++ x :: post → Placed next start pre x := by
  induction fuel generalizing done queue with
  | zero => exact placed
  | succ fuel ih =>
    rcases queue with _ | ⟨current, queue⟩
    · exact placed
    obtain ⟨new, same, -, all, -⟩ := discover_eq (next current) (done ++ current :: queue) queue
    have moved : done ++ current :: queue ++ new = (done ++ [current]) ++ (queue ++ new) := by simp
    simp only [search, same]
    rw [moved]
    refine ih ?_ ?_
    · intro x member
      rw [← moved]
      rcases mem_append.mp member with old | here
      · exact Subset.trans (closed x old) (subset_append_left _ _)
      · rw [mem_singleton.mp here]
        exact all
    intro pre x post split
    rw [← moved] at split
    have later : ∀ first, pre = done ++ current :: queue ++ first → new = first ++ x :: post → Placed next start pre x := by
      rintro first rfl added
      obtain ⟨u, v, successors, earlier⟩ := discover_order (congrArg Prod.fst same) added
      obtain ⟨n, before, after, ends, front, shorter⟩ := placed done current queue rfl
      have expanded : ∀ {zs : List α}, zs ⊆ done → zs.flatMap next ⊆ done ++ current :: queue ++ first := by
        intro zs within y member
        obtain ⟨z, inside, leads⟩ := mem_flatMap.mp member
        exact mem_append_left _ (closed z (within inside) leads)
      refine ⟨n + 1, before.flatMap next ++ u, v ++ after.flatMap next, ?_, append_subset.mpr ⟨expanded front, earlier⟩, ?_⟩
      · rw [generation, ends, flatMap_append, flatMap_cons, successors]
        simp only [append_assoc, cons_append]
      intro m below
      rcases Nat.lt_succ_iff_lt_or_eq.mp below with less | rfl
      · exact fun y member => mem_append_left _ (mem_append_left _ (shorter m less member))
      rcases m with _ | k
      · intro y member
        have alone : [start] = before ++ current :: after := ends
        have lengths := congrArg length alone
        rw [length_append, length_cons, length_cons, length_nil] at lengths
        rw [eq_nil_of_length_eq_zero (show before.length = 0 by omega)] at alone
        rw [mem_singleton.mp member, (cons.inj alone).1]
        exact mem_append_left _ (mem_append_right _ mem_cons_self)
      · exact expanded (shorter k (Nat.lt_succ_self k))
    rcases append_eq_append_iff.mp split with ⟨first, whole, added⟩ | ⟨rest, inside, tail⟩
    · exact later first whole added
    rcases rest with _ | ⟨y, rest⟩
    · exact later [] (by simpa using inside.symm) tail.symm
    · obtain ⟨rfl, -⟩ := cons.inj tail
      exact placed pre x rest inside

omit [DecidableEq α] in
theorem generation_reached {start x : α} {n : Nat} (member : x ∈ generation next start n) :
    Relation.ReflTransGen (Leads next) start x := by
  induction n generalizing x with
  | zero =>
    rw [mem_singleton.mp member]
  | succ n ih =>
    obtain ⟨y, inside, leads⟩ := mem_flatMap.mp member
    exact (ih inside).tail leads

variable (next) in
/-- The first node with a property that a path from the start ends in: shorter paths come first, and of one length those
through earlier successors. -/
def Nearest (start : α) (meets : α → Prop) (x : α) : Prop :=
  meets x ∧ ∃ n before after, generation next start n = before ++ x :: after ∧ (∀ y ∈ before, ¬meets y) ∧
    ∀ m < n, ∀ y ∈ generation next start m, ¬meets y

omit [DecidableEq α] in
theorem Nearest.unique {start x y : α} {meets : α → Prop} (one : Nearest next start meets x) (other : Nearest next start meets y) :
    x = y := by
  obtain ⟨good, n, before, after, ends, none, shorter⟩ := one
  obtain ⟨good', n', before', after', ends', none', shorter'⟩ := other
  rcases Nat.lt_trichotomy n n' with less | rfl | more
  · exact absurd good (shorter' n less x (by rw [ends]; simp))
  · rw [ends] at ends'
    rcases append_eq_append_iff.mp ends' with ⟨between, rfl, rest⟩ | ⟨between, rfl, rest⟩
    all_goals rcases between with _ | ⟨z, between⟩
    · exact (cons.inj rest).1
    · obtain ⟨rfl, -⟩ := cons.inj rest
      exact absurd good (none' x (by simp))
    · exact (cons.inj rest).1.symm
    · obtain ⟨rfl, -⟩ := cons.inj rest
      exact absurd good' (none y (by simp))
  · exact absurd good' (shorter n' more y (by rw [ends']; simp))

/-- The search comes to the nearest node with a property first. -/
theorem find?_search {nodes : List α} (all : ∀ x, next x ⊆ nodes) {fuel : Nat} (enough : nodes.length + 1 ≤ fuel) {start x : α}
    {meets : α → Bool} :
    (search next fuel [start] [start]).find? meets = some x ↔ Nearest next start (fun y => meets y = true) x := by
  have nearest : ∀ y, (search next fuel [start] [start]).find? meets = some y → Nearest next start (fun y => meets y = true) y := by
    intro y found
    obtain ⟨good, before, after, split, none⟩ := find?_eq_some_iff_append.mp found
    have start_placed : ∀ pre z post, [] ++ [start] = pre ++ z :: post → Placed next start pre z :=
      fun pre z post split => ⟨0, pre, post, split, Subset.refl _, fun _ below => absurd below (Nat.not_lt_zero _)⟩
    obtain ⟨n, front, back, ends, within, shorter⟩ := search_placed fuel (by simp) start_placed before y after split
    have missed : ∀ z ∈ before, ¬meets z = true := fun z member => by simpa using none z member
    exact ⟨good, n, front, back, ends, fun z member => missed z (within member), fun m below z member => missed z (shorter m below member)⟩
  refine ⟨nearest x, fun near => ?_⟩
  have ⟨good, n, front, back, ends, _⟩ := near
  have here : x ∈ generation next start n := by
    rw [ends]
    exact mem_append_right _ mem_cons_self
  have seen := (mem_search all enough start x).mpr (generation_reached here)
  obtain ⟨y, found⟩ := Option.isSome_iff_exists.mp (find?_isSome.mpr ⟨x, seen, good⟩)
  rw [found, near.unique (nearest y found)]

end FerroLoop.Worklist

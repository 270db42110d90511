import FerroLoop.Session.Dedup
import Mathlib.Data.String.Basic

namespace FerroLoop.Session

open Std Store List ExtHashMap

variable {table : Table} {clock : Instant}

namespace Table

variable {table after : Table} {key : Key} {entry : Entry} {items : List Item} {lost : Key → Entry → Prop}

theorem remove_absent (absent : table.entries[key]? = none) : table.remove key = table := by
  unfold remove
  rw [absent]

theorem remove_entries (table : Table) (key other : Key) :
    (table.remove key).entries[other]? = if key = other then none else table.entries[other]? := by
  cases held : table.entries[key]? with
  | none =>
    rw [remove_absent held]
    split
    · rename_i same
      rw [← same, held]
    · rfl
  | some entry =>
    simp only [remove, held, getElem?_erase, beq_iff_eq]

theorem remove_order (table : Table) (key : Key) : (table.remove key).order = table.order := by
  unfold remove
  split <;> rfl

theorem remove_size (held : table.entries[key]? = some entry) :
    (table.remove key).entries.size + 1 = table.entries.size := by
  have member : key ∈ table.entries := by
    rw [mem_iff_isSome_getElem?, held]
    rfl
  have filled : table.entries.size ≠ 0 := by
    intro empty
    rw [← eq_empty_iff_size_eq_zero] at empty
    rw [empty] at member
    exact not_mem_empty member
  simp only [remove, held, size_erase, if_pos member]
  omega

theorem heldBy_release (held : HashMap String Nat) (principal other : String) :
    (release held principal)[other]?.getD 0 =
      if principal = other then held[other]?.getD 0 - 1 else held[other]?.getD 0 := by
  unfold release
  cases count : held[principal]? with
  | none =>
    simp only []
    split
    · rename_i same
      rw [← same, count]
      rfl
    · rfl
  | some n =>
    simp only []
    split
    · rename_i last
      rw [getElem?_erase]
      simp only [beq_iff_eq]
      split
      · rename_i same
        rw [← same, count]
        exact last.symm
      · rfl
    · rw [ExtHashMap.getElem?_insert]
      simp only [beq_iff_eq]
      split
      · rename_i same
        rw [← same, count]
        rfl
      · rfl

theorem remove_heldBy (held : table.entries[key]? = some entry)
    (principal : String) : (table.remove key).heldBy principal =
      if key.principal = principal then table.heldBy principal - 1 else table.heldBy principal := by
  simp only [remove, held]
  exact heldBy_release table.held key.principal principal

def Counted (table : Table) : Prop :=
  ∃ keys : List Key, keys.Nodup ∧ (∀ key, key ∈ keys ↔ (table.entries[key]?).isSome) ∧
    ∀ principal, table.heldBy principal = keys.countP fun key => key.principal = principal

theorem Counted.positive (counted : table.Counted)
    (held : table.entries[key]? = some entry) : 0 < table.heldBy key.principal := by
  obtain ⟨keys, -, listed, counts⟩ := counted
  rw [counts, countP_pos_iff]
  exact ⟨key, (listed key).mpr (by rw [held]; rfl), by simp⟩

theorem Counted.remove (counted : table.Counted) (key : Key) : (table.remove key).Counted := by
  rcases held : table.entries[key]? with _ | entry
  · rw [remove_absent held]
    exact counted
  obtain ⟨keys, distinct, listed, counts⟩ := counted
  have member : key ∈ keys := (listed key).mpr (by rw [held]; rfl)
  refine ⟨keys.erase key, distinct.erase key, ?_, ?_⟩
  · intro other
    rw [distinct.mem_erase_iff, listed, remove_entries]
    split
    · rename_i same
      simp [same]
    · rename_i differ
      simp [Ne.symm differ]
  · intro principal
    have split := (perm_cons_erase member).countP_eq fun key => decide (key.principal = principal)
    rw [countP_cons, ← counts] at split
    rw [remove_heldBy held]
    simp only [decide_eq_true_eq] at split
    by_cases own : key.principal = principal
    · rw [if_pos own] at split ⊢
      omega
    · rw [if_neg own] at split ⊢
      omega

/-! ### Forgetting what is past its limits -/

def Oldest (table : Table) (among : Key → Prop) (claimed : Instant) : Prop :=
  ∀ key entry, table.entries[key]? = some entry → among key → entry.reply.isSome → claimed ≤ entry.claimed

/-- An answered id that `evict` forgets: past the time to live, or past the least age and the
oldest of a full table. -/
def Expires (table : Table) (now : Instant) (entry : Entry) : Prop :=
  dedupTtl < now - entry.claimed ∨
    (dedupMinAge < now - entry.claimed ∧ dedupEntries ≤ table.entries.size ∧ table.Oldest (fun _ => True) entry.claimed)

theorem live_some {item : Item} (live : table.live item = some entry) :
    table.entries[item.2]? = some entry ∧ entry.claimed = item.1 := by
  obtain ⟨held, same⟩ := Option.filter_eq_some_iff.mp live
  exact ⟨held, beq_iff_eq.mp same⟩

theorem live_entry (held : table.entries[key]? = some entry) :
    table.live (entry.claimed, key) = some entry := by
  unfold live
  rw [held]
  simp

def Listed (table : Table) (items : List Item) : Prop :=
  ∀ key entry, table.entries[key]? = some entry → (entry.claimed, key) ∈ items

structure Shrinks (table after : Table) (items : List Item) (lost : Key → Entry → Prop) : Prop where
  entries : ∀ key entry, table.entries[key]? = some entry →
    after.entries[key]? = some entry ∨
      (after.entries[key]? = none ∧ entry.reply.isSome ∧ lost key entry ∧
        after.heldBy key.principal < table.heldBy key.principal)
  absent : ∀ key : Key, table.entries[key]? = none → after.entries[key]? = none
  size : after.entries.size ≤ table.entries.size
  held : ∀ principal, after.heldBy principal ≤ table.heldBy principal
  counted : after.Counted
  order : after.order.Sublist items
  listed : after.Listed after.order

theorem Shrinks.refl (lost : Key → Entry → Prop) (counted : table.Counted)
    (listed : table.Listed items) : table.Shrinks { table with order := items } items lost where
  entries _ _ held := .inl held
  absent _ none := none
  size := Nat.le_refl _
  held _ := Nat.le_refl _
  counted := counted
  order := List.Sublist.refl _
  listed := listed

theorem Shrinks.widen {wider : List Item}
    (shrinks : table.Shrinks after items lost) (within : items.Sublist wider) : table.Shrinks after wider lost :=
  { shrinks with order := shrinks.order.trans within }

theorem Shrinks.remove
    {lost' : Key → Entry → Prop} (counted : table.Counted) (held : table.entries[key]? = some entry)
    (answered : entry.reply.isSome) (first : lost key entry) (more : (table.remove key).Shrinks after items lost')
    (others : ∀ other found, key ≠ other → lost' other found → lost other found) :
    table.Shrinks after items lost := by
  have positive := counted.positive held
  have lower : (table.remove key).heldBy key.principal < table.heldBy key.principal := by
    rw [remove_heldBy held, if_pos rfl]
    omega
  have fewer : ∀ principal, (table.remove key).heldBy principal ≤ table.heldBy principal := by
    intro principal
    rw [remove_heldBy held]
    split <;> omega
  refine ⟨?_, ?_, ?_, ?_, more.counted, more.order, more.listed⟩
  · intro other found there
    by_cases same : key = other
    · subst same
      rw [held] at there
      cases there
      refine .inr ⟨more.absent key ?_, answered, first, Nat.lt_of_le_of_lt (more.held _) lower⟩
      rw [remove_entries, if_pos rfl]
    · have kept : (table.remove key).entries[other]? = some found := by
        rw [remove_entries, if_neg same]
        exact there
      rcases more.entries other found kept with stays | ⟨gone, replied, why, less⟩
      · exact .inl stays
      · exact .inr ⟨gone, replied, others other found same why, Nat.lt_of_lt_of_le less (fewer _)⟩
  · intro other none
    apply more.absent
    rw [remove_entries]
    split
    · rfl
    · exact none
  · have smaller := remove_size held
    have rest := more.size
    omega
  · intro principal
    exact Nat.le_trans (more.held principal) (fewer principal)

theorem Listed.drop {front back : List Item} {item : Item} (listed : table.Listed (front ++ item :: back))
    (dead : ∀ entry, table.entries[item.2]? = some entry → entry.claimed ≠ item.1) : table.Listed (front ++ back) := by
  intro key entry held
  rcases mem_append.mp (listed key entry held) with before | behind
  · exact mem_append_left _ before
  rcases mem_cons.mp behind with same | later
  · subst same
    exact absurd rfl (dead entry held)
  · exact mem_append_right _ later

theorem evictLoop_shrinks (now : Instant) (rest : List Item) : ∀ (table : Table) (running : List Item),
    rest.Pairwise (fun a b => a.1 ≤ b.1) → table.Counted → table.entries.size ≤ dedupEntries →
    table.Listed (running ++ rest) →
    (∀ key entry, table.entries[key]? = some entry → entry.reply.isSome → (entry.claimed, key) ∈ rest) →
    table.Shrinks (table.evictLoop now running rest) (running ++ rest) fun _ entry => table.Expires now entry := by
  induction rest with
  | nil =>
    intro table running _ counted _ listed _
    rw [append_nil] at listed ⊢
    exact Shrinks.refl _ counted listed
  | cons item rest ih =>
    intro table running sorted counted room listed ahead
    obtain ⟨least, sortedRest⟩ := pairwise_cons.mp sorted
    have shorter : (running ++ rest).Sublist (running ++ item :: rest) :=
      (List.Sublist.refl running).append (sublist_cons_self item rest)
    -- What is ahead stays ahead when the first item is not that of an answered entry.
    have further : (∀ entry, table.entries[item.2]? = some entry → entry.reply.isSome → entry.claimed ≠ item.1) →
        ∀ key entry, table.entries[key]? = some entry → entry.reply.isSome → (entry.claimed, key) ∈ rest := by
      intro other key entry held answered
      rcases mem_cons.mp (ahead key entry held answered) with same | later
      · subst same
        exact absurd rfl (other entry held answered)
      · exact later
    unfold evictLoop
    cases live : table.live item with
    | none =>
      have dead : ∀ entry, table.entries[item.2]? = some entry → entry.claimed ≠ item.1 := by
        intro entry held same
        have found := live_entry held
        rw [same, live] at found
        cases found
      exact (ih table running sortedRest counted room (listed.drop dead)
        (further fun entry held _ => dead entry held)).widen shorter
    | some entry =>
      obtain ⟨held, claimed⟩ := live_some live
      cases reply : entry.reply with
      | none =>
        have waiting : ∀ found, table.entries[item.2]? = some found → found.reply.isSome → found.claimed ≠ item.1 := by
          intro found there answered
          rw [held] at there
          cases there
          rw [reply] at answered
          cases answered
        have aside : running ++ item :: rest = running ++ [item] ++ rest := by simp
        rw [aside] at listed ⊢
        simp only [reply]
        exact ih table (running ++ [item]) sortedRest counted room listed (further waiting)
      | some value =>
        simp only [reply]
        split
        · exact Shrinks.refl _ counted listed
        rename_i due
        have answered : entry.reply.isSome := by
          rw [reply]
          rfl
        have smaller := remove_size held
        have expires : table.Expires now entry := by
          rw [Expires, claimed]
          by_cases old : dedupTtl < now - item.1
          · exact .inl old
          have full : dedupEntries ≤ table.entries.size ∧ dedupMinAge < now - item.1 := by
            apply Classical.byContradiction
            intro spare
            exact due ⟨Nat.le_of_not_lt old, spare⟩
          refine .inr ⟨full.2, full.1, ?_⟩
          intro key found there _ replied
          rcases mem_cons.mp (ahead key found there replied) with same | later
          · exact Nat.le_of_eq (congrArg Prod.fst same).symm
          · exact least _ later
        have gone : ∀ found, (table.remove item.2).entries[item.2]? = some found → found.claimed ≠ item.1 := by
          intro found there
          rw [remove_entries, if_pos rfl] at there
          cases there
        have others : ∀ key found, (table.remove item.2).entries[key]? = some found →
            item.2 ≠ key ∧ table.entries[key]? = some found := by
          intro key found there
          rw [remove_entries] at there
          split at there
          · cases there
          · exact ⟨‹_›, there⟩
        have listedRest : (table.remove item.2).Listed (running ++ rest) := by
          refine Listed.drop ?_ gone
          intro key found there
          exact listed key found (others key found there).2
        have aheadRest : ∀ key found, (table.remove item.2).entries[key]? = some found → found.reply.isSome →
            (found.claimed, key) ∈ rest := by
          intro key found there replied
          obtain ⟨differ, before⟩ := others key found there
          rcases mem_cons.mp (ahead key found before replied) with same | later
          · rw [← same] at differ
            exact absurd rfl differ
          · exact later
        have more := ih (table.remove item.2) running sortedRest (counted.remove item.2) (by omega) listedRest aheadRest
        refine Shrinks.remove counted held answered expires (more.widen shorter) ?_
        rintro key found - (old | ⟨-, full, -⟩)
        · exact .inl old
        · omega

structure Sound (table : Table) (clock : Instant) : Prop where
  sorted : table.order.Pairwise fun a b => a.1 ≤ b.1
  past : ∀ item ∈ table.order, item.1 ≤ clock
  listed : table.Listed table.order
  counted : table.Counted
  room : table.entries.size ≤ dedupEntries
  quota : ∀ principal, quotaApplies principal → table.heldBy principal ≤ dedupPerPrincipal

theorem Shrinks.sound {after : Table} {lost : Key → Entry → Prop}
    (shrinks : table.Shrinks after table.order lost) (sound : table.Sound clock) : after.Sound clock where
  sorted := sound.sorted.sublist shrinks.order
  past item member := sound.past item (shrinks.order.subset member)
  listed := shrinks.listed
  counted := shrinks.counted
  room := Nat.le_trans shrinks.size sound.room
  quota principal applies := Nat.le_trans (shrinks.held principal) (sound.quota principal applies)

theorem Shrinks.back
    (shrinks : table.Shrinks after items lost) (held : after.entries[key]? = some entry) :
    table.entries[key]? = some entry := by
  rcases before : table.entries[key]? with _ | found
  · rw [shrinks.absent key before] at held
    cases held
  rcases shrinks.entries key found before with stays | ⟨gone, -⟩
  · rw [held] at stays
    exact stays.symm
  · rw [held] at gone
    cases gone

theorem evict_shrinks (sound : table.Sound clock) (now : Instant) :
    table.Shrinks (table.evict now) table.order fun _ entry => table.Expires now entry := by
  have shrinks := evictLoop_shrinks now table.order table [] sound.sorted sound.counted sound.room
  exact shrinks sound.listed fun key entry held _ => sound.listed key entry held

/-! ### Making room in a principal's quota -/

theorem gone_one (table : Table) (principal : String) (now : Instant) (items : List Item) :
    table.gone principal now 1 items = [] ∨
    ∃ front item back entry, items = front ++ item :: back ∧ table.gone principal now 1 items = [item.2] ∧
      table.live item = some entry ∧ entry.reply.isSome ∧ item.2.principal = principal ∧ dedupMinAge < now - item.1 ∧
      ∀ other ∈ front, ∀ found, table.live other = some found → found.reply.isSome → other.2.principal ≠ principal := by
  induction items with
  | nil => exact .inl rfl
  | cons item rest ih =>
    unfold gone
    by_cases young : now - item.1 ≤ dedupMinAge
    · exact .inl (if_pos young)
    rw [if_neg young]
    by_cases own : item.2.principal = principal ∧ (table.live item).any (fun entry => entry.reply.isSome) = true
    · rw [if_pos own]
      obtain ⟨entry, live, answered⟩ := (Option.any_eq_true _ _).mp own.2
      refine .inr ⟨[], item, rest, entry, rfl, by simp [gone], live, answered, own.1, Nat.lt_of_not_le young, ?_⟩
      intro other member
      cases member
    · rw [if_neg own]
      rcases ih with none | ⟨front, first, back, entry, rfl, only, live, answered, mine, old, others⟩
      · exact .inl none
      refine .inr ⟨item :: front, first, back, entry, rfl, only, live, answered, mine, old, ?_⟩
      intro other member found there replied
      rcases mem_cons.mp member with rfl | later
      · intro same
        apply own
        rw [there]
        exact ⟨same, replied⟩
      · exact others other later found there replied

theorem Shrinks.sweep
    (shrinks : table.Shrinks after items lost) : table.Shrinks after.sweep items lost := by
  unfold Table.sweep
  split
  · refine { shrinks with order := filter_sublist.trans shrinks.order, listed := ?_ }
    intro key entry held
    refine mem_filter.mpr ⟨shrinks.listed key entry held, ?_⟩
    have live : after.live (entry.claimed, key) = some entry := live_entry held
    rw [live]
    rfl
  · exact shrinks

theorem evictOwn_shrinks (sound : table.Sound clock) (now : Instant)
    {principal : String} (applies : quotaApplies principal) (full : dedupPerPrincipal ≤ table.heldBy principal) :
    table.Shrinks (table.evictOwn principal now) table.order fun key entry => key.principal = principal ∧
      dedupMinAge < now - entry.claimed ∧ table.Oldest (fun other => other.principal = principal) entry.claimed := by
  have most := sound.quota principal applies
  have excess : table.heldBy principal + 1 - dedupPerPrincipal = 1 := by omega
  simp only [evictOwn, excess]
  apply Shrinks.sweep
  rcases gone_one table principal now table.order with none | ⟨front, item, back, entry, split, only, live, answered,
    mine, old, others⟩
  · rw [none]
    exact Shrinks.refl _ sound.counted sound.listed
  rw [only]
  obtain ⟨held, claimed⟩ := live_some live
  have sorted := sound.sorted
  rw [split] at sorted
  have least := (pairwise_cons.mp (pairwise_append.mp sorted).2.1).1
  have oldest : table.Oldest (fun other => other.principal = principal) entry.claimed := by
    intro key found there own replied
    have member := sound.listed key found there
    rw [split] at member
    rw [claimed]
    rcases mem_append.mp member with before | behind
    · exact absurd own (others _ before found (live_entry there) replied)
    · rcases mem_cons.mp behind with same | later
      · exact Nat.le_of_eq (congrArg Prod.fst same).symm
      · exact least _ later
  have rest : (table.remove item.2).Shrinks (table.remove item.2) table.order fun _ _ => False := by
    have listed : (table.remove item.2).Listed table.order := by
      intro key found there
      rw [remove_entries] at there
      split at there
      · cases there
      · exact sound.listed key found there
    have same := Shrinks.refl (fun _ _ => False) (sound.counted.remove item.2) listed
    rw [← remove_order table item.2] at same
    rw [← remove_order table item.2]
    exact same
  refine Shrinks.remove sound.counted held answered ⟨mine, ?_, oldest⟩ rest ?_
  · rw [claimed]
    exact old
  · intro other found _ never
    cases never

end Table

section

variable (table : Table) (asked : Key) (now : Instant) (key : Key) (entry : Entry)

/-- An answered id that the claim of another id at this time forgets: it is past its limit, or
the claiming principal is at its quota and this is its oldest answered id past the least age. -/
def Table.Forgets : Prop :=
  table.Expires now entry ∨
    (quotaApplies asked.principal ∧ table.entries[asked]? = none ∧ dedupPerPrincipal ≤ table.heldBy asked.principal ∧
      key.principal = asked.principal ∧ dedupMinAge < now - entry.claimed ∧
      table.Oldest (fun other => other.principal = asked.principal) entry.claimed)

def Table.Stays : Prop :=
  entry.reply.isSome → ¬ table.Forgets asked now key entry

end

section Turn

variable {table : Table} {clock now : Instant} {key : Key} {method : String}

variable {entry : Entry}

theorem evict_stays (sound : table.Sound clock) {other : Key} (held : table.entries[other]? = some entry)
    (stays : table.Stays key now other entry) : (table.evict now).entries[other]? = some entry := by
  rcases (Table.evict_shrinks sound now).entries other entry held with kept | ⟨-, answered, expires, -⟩
  · exact kept
  · exact absurd (.inl expires) (stays answered)

theorem evictOwn_stays (sound : table.Sound clock) (applies : quotaApplies key.principal)
    (full : dedupPerPrincipal ≤ (table.evict now).heldBy key.principal) (new : (table.evict now).entries[key]? = none)
    {other : Key} (held : table.entries[other]? = some entry) (stays : table.Stays key now other entry) :
    ((table.evict now).evictOwn key.principal now).entries[other]? = some entry := by
  have first := Table.evict_shrinks sound now
  have soundNext := first.sound sound
  -- The principal is still at its quota, so none of its ids was past its limit.
  have ownKept : ∀ (own : Key) found, own.principal = key.principal → table.entries[own]? = some found →
      (table.evict now).entries[own]? = some found := by
    intro own found mine there
    rcases first.entries own found there with kept | ⟨-, -, -, less⟩
    · exact kept
    · have most := sound.quota key.principal applies
      rw [mine] at less
      omega
  rcases (Table.evictOwn_shrinks soundNext now applies full).entries other entry (evict_stays sound held stays) with
    kept | ⟨-, answered, ⟨mine, old, oldest⟩, -⟩
  · exact kept
  refine absurd (.inr ⟨applies, ?_, ?_, mine, old, ?_⟩) (stays answered)
  · cases before : table.entries[key]? with
    | none => rfl
    | some found =>
      rw [ownKept key found rfl before] at new
      cases new
  · exact Nat.le_trans full (first.held _)
  · intro own found there same replied
    exact oldest own found (ownKept own found same there) same replied

theorem insert_sound (sound : table.Sound clock) (later : clock ≤ now) (new : table.entries[key]? = none)
    (room : ¬ dedupEntries ≤ table.entries.size)
    (quota : ¬ (quotaApplies key.principal ∧ dedupPerPrincipal ≤ table.heldBy key.principal)) :
    (table.insert key ⟨now, method, none⟩).Sound now := by
  have held : ∀ principal, (table.insert key ⟨now, method, none⟩).heldBy principal =
      if key.principal = principal then table.heldBy principal + 1 else table.heldBy principal := by
    intro principal
    simp only [Table.heldBy, Table.insert, ExtHashMap.getElem?_insert, beq_iff_eq]
    split
    · rename_i same
      rw [← same]
      rfl
    · rfl
  have entries : ∀ other, (table.insert key ⟨now, method, none⟩).entries[other]? =
      if key = other then some ⟨now, method, none⟩ else table.entries[other]? := by
    intro other
    simp only [Table.insert, ExtHashMap.getElem?_insert, beq_iff_eq]
  refine ⟨?_, ?_, ?_, ?_, ?_, ?_⟩
  · refine pairwise_append.mpr ⟨sound.sorted, pairwise_singleton _ _, ?_⟩
    intro item member last only
    rw [mem_singleton.mp only]
    exact Nat.le_trans (sound.past item member) later
  · intro item member
    rcases mem_append.mp member with before | last
    · exact Nat.le_trans (sound.past item before) later
    · exact Nat.le_of_eq (congrArg Prod.fst (mem_singleton.mp last))
  · intro other entry there
    rw [entries] at there
    split at there
    · rename_i same
      cases there
      subst same
      exact mem_append_right _ (mem_singleton.mpr rfl)
    · exact mem_append_left _ (sound.listed other entry there)
  · obtain ⟨keys, distinct, listed, counts⟩ := sound.counted
    refine ⟨key :: keys, nodup_cons.mpr ⟨?_, distinct⟩, ?_, ?_⟩
    · rw [listed, new]
      simp
    · intro other
      rw [mem_cons, listed, entries]
      split
      · rename_i same
        simp [same]
      · rename_i differ
        simp [Ne.symm differ]
    · intro principal
      rw [held, countP_cons, counts]
      simp only [decide_eq_true_eq]
      split <;> rfl
  · have absent : key ∉ table.entries := by
      rw [mem_iff_isSome_getElem?, new]
      simp
    simp only [Table.insert, size_insert, if_neg absent]
    omega
  · intro principal applies
    rw [held]
    split
    · rename_i same
      subst same
      have below : ¬ dedupPerPrincipal ≤ table.heldBy key.principal := fun full => quota ⟨applies, full⟩
      omega
    · exact sound.quota principal applies

/-- What one turn of a claim leaves: the entries that are not to be forgotten, nothing new but the
id that is to run, and a reply only from the id's own entry. -/
structure Turned (table after : Table) (key : Key) (method : String) (now : Instant) (turn : Turn) : Prop where
  sound : after.Sound now
  kept : ∀ other entry, table.entries[other]? = some entry → table.Stays key now other entry →
    after.entries[other]? = some entry
  back : ∀ other entry, after.entries[other]? = some entry →
    table.entries[other]? = some entry ∨ (turn = .run ∧ other = key ∧ entry = ⟨now, method, none⟩)
  running : turn = .run → after.entries[key]? = some ⟨now, method, none⟩ ∧
    ∀ entry, table.entries[key]? = some entry → ¬ table.Stays key now key entry

theorem Table.Sound.mono {later : Instant} (sound : table.Sound clock) (le : clock ≤ later) :
    table.Sound later :=
  { sound with past := fun item member => Nat.le_trans (sound.past item member) le }

variable {middle : Table}

section

variable (sound : middle.Sound clock) (later : clock ≤ now) (kept : ∀ other entry, table.entries[other]? = some entry → table.Stays key now other entry → middle.entries[other]? = some entry) (back : ∀ (other : Key) entry, middle.entries[other]? = some entry → table.entries[other]? = some entry)

include sound later kept back

theorem claimed_turned (new : middle.entries[key]? = none) (room : ¬ dedupEntries ≤ middle.entries.size)
    (quota : ¬ (quotaApplies key.principal ∧ dedupPerPrincipal ≤ middle.heldBy key.principal)) :
    Turned table (middle.insert key ⟨now, method, none⟩) key method now .run := by
  have entries : ∀ other, (middle.insert key ⟨now, method, none⟩).entries[other]? =
      if key = other then some ⟨now, method, none⟩ else middle.entries[other]? := by
    intro other
    simp only [Table.insert, ExtHashMap.getElem?_insert, beq_iff_eq]
  have replaced : ∀ entry, table.entries[key]? = some entry → ¬ table.Stays key now key entry := by
    intro entry held stays
    rw [kept key entry held stays] at new
    cases new
  refine ⟨insert_sound sound later new room quota, ?_, ?_, ?_⟩
  · intro other entry held stays
    rw [entries]
    split
    · rename_i same
      subst same
      exact absurd stays (replaced entry held)
    · exact kept other entry held stays
  · intro other entry held
    rw [entries] at held
    split at held
    · rename_i same
      exact .inr ⟨rfl, same.symm, (Option.some.inj held).symm⟩
    · exact .inl (back other entry held)
  · intro _
    refine ⟨?_, replaced⟩
    rw [entries, if_pos rfl]

theorem refused_turned {turn : Turn} (idle : turn ≠ .run) : Turned table middle key method now turn :=
  ⟨sound.mono later, kept, fun other entry held => .inl (back other entry held), fun run => absurd run idle⟩

end

theorem claimTurn_turned (sound : table.Sound clock) (later : clock ≤ now) :
    Turned table (claimTurn table key method now).1 key method now (claimTurn table key method now).2 := by
  have first := Table.evict_shrinks sound now
  have soundNext := first.sound sound
  have kept : ∀ other entry, table.entries[other]? = some entry → table.Stays key now other entry →
      (table.evict now).entries[other]? = some entry := fun other entry held stays => evict_stays sound held stays
  have back : ∀ (other : Key) entry, (table.evict now).entries[other]? = some entry →
      table.entries[other]? = some entry := fun other entry held => first.back held
  unfold claimTurn
  simp only []
  cases there : (table.evict now).entries[key]? with
  | some entry =>
    simp only []
    split
    · exact refused_turned soundNext later kept back nofun
    · cases entry.reply with
      | some reply | none => exact refused_turned soundNext later kept back nofun
  | none =>
    simp only [claimNew]
    by_cases full : quotaApplies key.principal = true ∧ dedupPerPrincipal ≤ (table.evict now).heldBy key.principal
    · simp only [if_pos full]
      have own := Table.evictOwn_shrinks soundNext now full.1 full.2
      have soundOwn := own.sound soundNext
      have keptOwn : ∀ other entry, table.entries[other]? = some entry → table.Stays key now other entry →
          ((table.evict now).evictOwn key.principal now).entries[other]? = some entry :=
        fun other entry held stays => evictOwn_stays sound full.1 full.2 there held stays
      have backOwn : ∀ (other : Key) entry, ((table.evict now).evictOwn key.principal now).entries[other]? = some entry →
          table.entries[other]? = some entry := fun other entry held => back other entry (own.back held)
      split
      · dsimp only
        exact refused_turned soundOwn later keptOwn backOwn nofun
      split
      · dsimp only
        exact refused_turned soundOwn later keptOwn backOwn nofun
      · exact claimed_turned soundOwn later keptOwn backOwn (own.absent key there) ‹_› ‹_›
    · simp only [if_neg full]
      split
      · exact refused_turned soundNext later kept back nofun
      · exact claimed_turned soundNext later kept back there ‹_› full

theorem claimTurn_replays (sound : table.Sound clock) {reply : Value}
    (held : table.entries[key]? = some entry) (same : entry.method = method) (answered : entry.reply = some reply)
    (stays : table.Stays key now key entry) : (claimTurn table key method now).2 = .replay reply := by
  simp only [claimTurn, evict_stays sound held stays, same, answered]
  simp

end Turn

end FerroLoop.Session

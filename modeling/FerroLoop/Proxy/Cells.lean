import FerroLoop.Proxy.Redaction

namespace FerroLoop.Proxy

open Std Text Checked Vault Utf8 List

def Covered (spans : List Span) (x : Nat) : Prop := ∃ span ∈ spans, span.start ≤ x ∧ x < span.stop

def Ordered (cursor : Nat) : List Span → Prop
  | [] => True
  | span :: rest => cursor ≤ span.start ∧ span.start < span.stop ∧ Ordered span.stop rest

variable {x cursor : Nat} {spans : List Span} {text start : List UInt8}

theorem covered_cons {span : Span} :
    Covered (span :: spans) x ↔ (span.start ≤ x ∧ x < span.stop) ∨ Covered spans x := by
  unfold Covered
  simp

variable {rest : List Span} {current : Span}

theorem mergeFrom_ordered (after : cursor ≤ current.start)
    (proper : current.start < current.stop) (all : ∀ span ∈ rest, span.start < span.stop) : Ordered cursor (mergeFrom current rest) := by
  induction rest generalizing current cursor with
  | nil => exact ⟨after, proper, trivial⟩
  | cons next rest ih =>
    have later : ∀ span ∈ rest, span.start < span.stop := fun span member => all span (mem_cons_of_mem _ member)
    rw [mergeFrom]
    split
    · exact ih after (show current.start < max current.stop next.stop by omega) later
    · exact ⟨after, proper, ih (by omega) (all next mem_cons_self) later⟩

theorem mergeFrom_covered (sorted : (current :: rest).Pairwise fun a b => a.start ≤ b.start) (x : Nat) :
    Covered (mergeFrom current rest) x ↔ Covered (current :: rest) x := by
  induction rest generalizing current with
  | nil => exact Iff.rfl
  | cons next rest ih =>
    obtain ⟨first, tail⟩ := pairwise_cons.mp sorted
    obtain ⟨second, others⟩ := pairwise_cons.mp tail
    rw [mergeFrom]
    split
    · rename_i joins
      have order := first next mem_cons_self
      have joined := @ih { current with stop := max current.stop next.stop }
        (pairwise_cons.mpr ⟨fun span member => first span (mem_cons_of_mem _ member), others⟩)
      rw [joined, covered_cons, covered_cons, covered_cons]
      dsimp only
      rw [← or_assoc]
      refine or_congr_left ?_
      omega
    · rw [covered_cons, ih tail, ← covered_cons]

theorem before_trans (a b c : Span) (first : a.before b = true) (second : b.before c = true) : a.before c = true := by
  unfold Span.before at *
  simp only [Bool.or_eq_true, Bool.and_eq_true, decide_eq_true_eq, beq_iff_eq] at *
  omega

theorem before_total (a b : Span) : (a.before b || b.before a) = true := by
  unfold Span.before
  simp only [Bool.or_eq_true, Bool.and_eq_true, decide_eq_true_eq, beq_iff_eq]
  omega

theorem before_start {a b : Span} (first : a.before b = true) : a.start ≤ b.start := by
  unfold Span.before at first
  simp only [Bool.or_eq_true, Bool.and_eq_true, decide_eq_true_eq, beq_iff_eq] at first
  omega

theorem covered_perm {one other : List Span} (same : one.Perm other) (x : Nat) : Covered one x ↔ Covered other x :=
  ⟨fun ⟨span, member, inside⟩ => ⟨span, same.mem_iff.mp member, inside⟩,
    fun ⟨span, member, inside⟩ => ⟨span, same.mem_iff.mpr member, inside⟩⟩

theorem merged_spec (all : ∀ span ∈ spans, span.start < span.stop) :
    Ordered 0 (merged spans) ∧ ∀ x, Covered (merged spans) x ↔ Covered spans x := by
  have perm := mergeSort_perm spans Span.before
  have sorted : (spans.mergeSort Span.before).Pairwise fun a b => a.start ≤ b.start :=
    (pairwise_mergeSort before_trans before_total spans).imp before_start
  unfold merged
  cases order : spans.mergeSort Span.before with
  | nil =>
    rw [order] at perm
    have empty := List.Perm.nil_eq perm
    subst empty
    exact ⟨trivial, fun x => Iff.rfl⟩
  | cons first rest =>
    rw [order] at sorted perm
    have proper : ∀ span ∈ first :: rest, span.start < span.stop := fun span member => all span (perm.mem_iff.mp member)
    refine ⟨mergeFrom_ordered (Nat.zero_le _) (proper first mem_cons_self) fun span member => proper span (mem_cons_of_mem _ member), ?_⟩
    intro x
    exact (mergeFrom_covered sorted x).trans (covered_perm perm x)

inductive Cell where
  | kept (byte : UInt8)
  | removed (shown original : List UInt8)

/-- The text as it came. -/
def original (cells : List Cell) : List UInt8 :=
  cells.flatMap fun
    | .kept b => [b]
    | .removed _ bytes => bytes

/-- The text as it is returned. -/
def shown (cells : List Cell) : List UInt8 :=
  cells.flatMap fun
    | .kept b => [b]
    | .removed bytes _ => bytes

/-- For every byte of the text as it came, whether it is returned. -/
def mask (cells : List Cell) : List Bool :=
  cells.flatMap fun
    | .kept _ => [true]
    | .removed _ bytes => List.replicate bytes.length false

variable (b : UInt8) (s o bytes : List UInt8) (cells : List Cell)

@[simp] theorem original_cons_kept : original (.kept b :: cells) = b :: original cells := rfl

@[simp] theorem original_cons_removed : original (.removed s o :: cells) = o ++ original cells := rfl

@[simp] theorem shown_cons_kept : shown (.kept b :: cells) = b :: shown cells := rfl

@[simp] theorem shown_cons_removed : shown (.removed s o :: cells) = s ++ shown cells := rfl

@[simp] theorem mask_cons_kept : mask (.kept b :: cells) = true :: mask cells := rfl

@[simp] theorem mask_cons_removed :
    mask (.removed s o :: cells) = List.replicate o.length false ++ mask cells := rfl

@[simp] theorem original_kept :
    original (bytes.map Cell.kept ++ cells) = bytes ++ original cells := by
  induction bytes with
  | nil => rfl
  | cons b bytes ih => simp [ih]

@[simp] theorem shown_kept : shown (bytes.map Cell.kept ++ cells) = bytes ++ shown cells := by
  induction bytes with
  | nil => rfl
  | cons b bytes ih => simp [ih]

@[simp] theorem mask_kept :
    mask (bytes.map Cell.kept ++ cells) = List.replicate bytes.length true ++ mask cells := by
  induction bytes with
  | nil => rfl
  | cons b bytes ih => simp [ih, replicate_succ]

theorem mask_length : (mask cells).length = (original cells).length := by
  induction cells with
  | nil => rfl
  | cons cell cells ih =>
    cases cell with
    | kept b | removed s o => simp [ih]

def cellsFrom (text : List UInt8) (external : List Named) (cursor : Nat) : List Span → List Cell
  | [] => (text.drop cursor).map Cell.kept
  | span :: rest =>
    (slice text cursor span.start).map Cell.kept ++
      .removed (marker ((external[span.owner]?.map (·.1)).getD "")) (slice text span.start span.stop) ::
        cellsFrom text external span.stop rest

theorem shown_cellsFrom (text : List UInt8) (external : List Named) (cursor : Nat) (spans : List Span) :
    shown (cellsFrom text external cursor spans) = renderFrom text external cursor spans := by
  induction spans generalizing cursor with
  | nil =>
    have all := shown_kept (text.drop cursor) []
    rw [append_nil] at all
    rw [cellsFrom, renderFrom, all]
    simp [shown]
  | cons span rest ih => rw [cellsFrom, renderFrom, shown_kept, shown_cons_removed, ih, append_assoc]

theorem slice_append {a b : Nat} (le : a ≤ b) : slice text a b ++ text.drop b = text.drop a := by
  unfold slice
  rw [drop_take]
  have tail : text.drop b = (text.drop a).drop (b - a) := by
    rw [drop_drop]
    congr 1
    omega
  rw [tail, take_append_drop]

variable {external : List Named}

theorem original_cellsFrom (ordered : Ordered cursor spans) :
    original (cellsFrom text external cursor spans) = text.drop cursor := by
  induction spans generalizing cursor with
  | nil =>
    have all := original_kept (text.drop cursor) []
    rw [append_nil] at all
    rw [cellsFrom, all]
    simp [original]
  | cons span rest ih =>
    obtain ⟨after, proper, later⟩ := ordered
    rw [cellsFrom, original_kept, original_cons_removed, ih later, slice_append (by omega), slice_append (by omega)]

theorem slice_length {a b : Nat} (inside : b ≤ text.length) : (slice text a b).length = b - a := by
  unfold slice
  rw [length_drop, length_take, Nat.min_eq_left inside]

theorem Ordered.not_covered (ordered : Ordered cursor spans) (early : x < cursor) : ¬Covered spans x := by
  induction spans generalizing cursor with
  | nil =>
    rintro ⟨span, member, -⟩
    cases member
  | cons span rest ih =>
    obtain ⟨after, proper, later⟩ := ordered
    rw [covered_cons]
    rintro (inside | covered)
    · omega
    · exact ih later (by omega) covered

theorem Ordered.proper (ordered : Ordered cursor spans) {span : Span} (member : span ∈ spans) :
    span.start < span.stop := by
  induction spans generalizing cursor with
  | nil => cases member
  | cons first rest ih =>
    obtain ⟨-, wide, later⟩ := ordered
    rcases mem_cons.mp member with rfl | others
    · exact wide
    · exact ih later others

theorem mask_cellsFrom (ordered : Ordered cursor spans)
    (inside : ∀ span ∈ spans, span.stop ≤ text.length) (after : cursor ≤ x) (within : x < text.length) :
    ((mask (cellsFrom text external cursor spans))[x - cursor]? = some false ↔ Covered spans x) ∧
      ((mask (cellsFrom text external cursor spans))[x - cursor]? = some true ↔ ¬Covered spans x) := by
  induction spans generalizing cursor with
  | nil =>
    have all := mask_kept (text.drop cursor) []
    rw [append_nil] at all
    have free : ¬Covered [] x := by
      rintro ⟨span, member, -⟩
      cases member
    have here : (mask (cellsFrom text external cursor []))[x - cursor]? = some true := by
      rw [cellsFrom, all, getElem?_append_left (by simp; omega), getElem?_replicate, if_pos (by simp; omega)]
    rw [here]
    simp [free]
  | cons span rest ih =>
    obtain ⟨afterCursor, proper, later⟩ := ordered
    have stops := inside span mem_cons_self
    have early : (slice text cursor span.start).length = span.start - cursor := slice_length (by omega)
    have middle : (slice text span.start span.stop).length = span.stop - span.start := slice_length stops
    rw [cellsFrom, mask_kept, mask_cons_removed, covered_cons]
    by_cases before : x < span.start
    · have free : ¬Covered rest x := later.not_covered (by omega)
      rw [getElem?_append_left (by simp; omega), getElem?_replicate, if_pos (by omega)]
      constructor
      · constructor
        · nofun
        · rintro (here | covered)
          · omega
          · exact absurd covered free
      · refine ⟨fun _ => ?_, fun _ => rfl⟩
        rintro (here | covered)
        · omega
        · exact free covered
    · rw [getElem?_append_right (by simp; omega), length_replicate]
      by_cases covers : x < span.stop
      · rw [getElem?_append_left (by simp; omega), getElem?_replicate, if_pos (by omega)]
        exact ⟨⟨fun _ => .inl ⟨by omega, covers⟩, fun _ => rfl⟩, ⟨nofun, fun free => absurd (.inl ⟨by omega, covers⟩) free⟩⟩
      rw [getElem?_append_right (by simp; omega), length_replicate,
        show x - cursor - (slice text cursor span.start).length - (slice text span.start span.stop).length = x - span.stop by omega]
      obtain ⟨falseIff, trueIff⟩ := ih later (fun other member => inside other (mem_cons_of_mem _ member)) (by omega)
      have notHere : ¬(span.start ≤ x ∧ x < span.stop) := by omega
      rw [falseIff, trueIff]
      exact ⟨⟨.inr, fun covered => covered.resolve_left notHere⟩, ⟨fun free covered => free (covered.resolve_left notHere), fun free covered => free (.inr covered)⟩⟩

section Tokens

variable {start replacement : List UInt8}

theorem redactPrefixedTokens_fuel (nonempty : start ≠ []) {fuel fuel' : Nat} {text : List UInt8} (enough : text.length ≤ fuel)
    (enough' : text.length ≤ fuel') :
    redactPrefixedTokens start replacement fuel text = redactPrefixedTokens start replacement fuel' text := by
  have positive : 0 < start.length := length_pos_iff.mpr nonempty
  induction fuel generalizing fuel' text with
  | zero =>
    have empty := length_eq_zero_iff.mp (Nat.le_zero.mp enough)
    subst empty
    cases fuel' with
    | zero => rfl
    | succ fuel' => rfl
  | succ fuel ih =>
    cases text with
    | nil =>
      cases fuel' with
      | zero => rfl
      | succ fuel' => rfl
    | cons b rest =>
      cases fuel' with
      | zero => cases enough'
      | succ fuel' =>
        rw [length_cons] at enough enough'
        have after : ((b :: rest).drop start.length).length ≤ rest.length := by
          rw [length_drop, length_cons]
          omega
        have behind : ∀ n, (((b :: rest).drop start.length).drop n).length ≤ rest.length := by
          intro n
          rw [length_drop]
          omega
        rw [redactPrefixedTokens, redactPrefixedTokens]
        dsimp only
        rw [@ih fuel' rest (by omega) (by omega), @ih fuel' _ (Nat.le_trans after (by omega)) (Nat.le_trans after (by omega)),
          @ih fuel' _ (Nat.le_trans (behind _) (by omega)) (Nat.le_trans (behind _) (by omega))]

/-- The search with as much fuel as it takes. -/
def tokens (start replacement text : List UInt8) : List UInt8 × Bool := redactPrefixedTokens start replacement text.length text

theorem tokens_miss {b : UInt8} {rest : List UInt8} (elsewhere : ¬start <+: b :: rest) :
    tokens start replacement (b :: rest) = (b :: (tokens start replacement rest).1, (tokens start replacement rest).2) := by
  unfold tokens
  rw [length_cons, redactPrefixedTokens]
  rw [if_neg fun starts => elsewhere ( isPrefixOf_iff_prefix.mp starts)]

theorem tokens_hit (nonempty : start ≠ []) (after : List UInt8) :
    tokens start replacement (start ++ after) =
      if 6 ≤ (tokenTail after).length then
        (replacement ++ (tokens start replacement (after.drop (tokenTail after).length)).1, true)
      else (start ++ (tokens start replacement after).1, (tokens start replacement after).2) := by
  unfold tokens
  rcases start with _ | ⟨first, more⟩
  · exact absurd rfl nonempty
  have here : (first :: more).isPrefixOf (first :: (more ++ after)) = true :=
    isPrefixOf_iff_prefix.mpr (prefix_append (first :: more) after)
  have dropped : (first :: (more ++ after)).drop (first :: more).length = after := @drop_left _ (first :: more) after
  rw [cons_append, length_cons, redactPrefixedTokens, if_pos here, dropped]
  dsimp only
  rw [@redactPrefixedTokens_fuel (first :: more) replacement nonempty (more ++ after).length after.length after
      (by rw [length_append]; omega) (Nat.le_refl _),
    @redactPrefixedTokens_fuel (first :: more) replacement nonempty (more ++ after).length _ (after.drop (tokenTail after).length)
      (by rw [length_append, length_drop]; omega) (Nat.le_refl _)]

theorem tokens_none (nonempty : start ≠ []) {text : List UInt8} (none : (tokens start replacement text).2 = false) :
    (tokens start replacement text).1 = text := by
  induction size : text.length using Nat.strongRecOn generalizing text with
  | ind n ih =>
    rcases text with _ | ⟨b, rest⟩
    · rfl
    by_cases here : start <+: b :: rest
    · obtain ⟨after, whole⟩ := here
      rw [← whole, tokens_hit nonempty] at none ⊢
      split at none
      · cases none
      rename_i short
      rw [if_neg short]
      have shorter : after.length < n := by
        rw [← size, ← whole, length_append]
        have := length_pos_iff.mpr nonempty
        omega
      rw [ih _ shorter none rfl]
    · rw [tokens_miss here] at none ⊢
      rw [ih rest.length (by rw [← size, length_cons]; omega) none rfl]

theorem tokens_split (nonempty : start ≠ []) {z : UInt8} (absent : z ∉ start) (noToken : tokenByte z = false) (front back : List UInt8) :
    (tokens start replacement (front ++ z :: back)).1 =
      (tokens start replacement front).1 ++ z :: (tokens start replacement back).1 := by
  have fits : ∀ front : List UInt8, start <+: front ++ z :: back → start <+: front := by
    intro front starts
    by_cases short : start.length ≤ front.length
    · exact prefix_of_prefix_length_le starts (prefix_append _ _) short
    refine absurd ?_ absent
    obtain ⟨more, whole⟩ := starts
    have reaches : front ++ [z] <+: start := by
      refine @prefix_of_prefix_length_le _ (front ++ [z]) start (front ++ z :: back) ⟨back, by simp⟩ ⟨more, whole⟩ ?_
      rw [length_append, length_singleton]
      omega
    exact reaches.subset (by simp)
  induction size : front.length using Nat.strongRecOn generalizing front with
  | ind n ih =>
    cases front with
    | nil =>
      rw [nil_append, tokens_miss]
      · rfl
      · intro starts
        exact nonempty (prefix_nil.mp (fits [] starts))
    | cons b front =>
      by_cases here : start <+: b :: front
      · obtain ⟨after, whole⟩ := here
        have shorter : after.length < n := by
          rw [← size, ← whole, length_append]
          have := length_pos_iff.mpr nonempty
          omega
        have tail : tokenTail (after ++ z :: back) = tokenTail after := takeWhile_stop noToken after back
        have within : (tokenTail after).length ≤ after.length := ( takeWhile_prefix _).length_le
        rw [← whole, append_assoc, tokens_hit nonempty, tokens_hit nonempty, tail]
        split
        · rw [drop_append_of_le_length within, ih _ (Nat.lt_of_le_of_lt (by rw [length_drop]; omega) shorter) _ rfl]
          simp
        · rw [ih _ shorter _ rfl]
          simp
      · have further : ¬start <+: b :: (front ++ z :: back) := fun starts => here (fits (b :: front) starts)
        rw [cons_append, tokens_miss further, tokens_miss here, ih front.length (by rw [← size, length_cons]; omega) front rfl]
        rfl

end Tokens

def Bracketed (bytes : List UInt8) : Prop := ∃ inner, bytes = 0x5B :: (inner ++ [0x5D])

inductive Refined (start replacement : List UInt8) : List Cell → List Cell → Prop
  | nil : Refined start replacement [] []
  | keep {b : UInt8} {cells cells' : List Cell} (later : Refined start replacement cells cells') :
      Refined start replacement (.kept b :: cells) (.kept b :: cells')
  | mark {s o : List UInt8} {cells cells' : List Cell} (later : Refined start replacement cells cells') :
      Refined start replacement (.removed s o :: cells) (.removed (tokens start replacement s).1 o :: cells')
  | token {tail : List UInt8} {cells cells' : List Cell} (long : 6 ≤ tail.length) (all : ∀ b ∈ tail, tokenByte b = true)
      (later : Refined start replacement cells cells') :
      Refined start replacement ((start ++ tail).map Cell.kept ++ cells) (.removed replacement (start ++ tail) :: cells')

variable {replacement : List UInt8} {cells : List Cell}

theorem Refined.keeps {cells' : List Cell} (later : Refined start replacement cells cells')
    (bytes : List UInt8) : Refined start replacement (bytes.map Cell.kept ++ cells) (bytes.map Cell.kept ++ cells') := by
  induction bytes with
  | nil => exact later
  | cons b bytes ih => exact .keep ih

theorem kept_of_prefix {bytes : List UInt8} (brackets : ∀ s o, Cell.removed s o ∈ cells → Bracketed s)
    (absent : (0x5B : UInt8) ∉ bytes) (starts : bytes <+: shown cells) : ∃ rest, cells = bytes.map Cell.kept ++ rest := by
  induction bytes generalizing cells with
  | nil => exact ⟨cells, rfl⟩
  | cons b bytes ih =>
    rcases cells with _ | ⟨cell, cells⟩
    · exact absurd (prefix_nil.mp starts) (by simp)
    cases cell with
    | kept c =>
      rw [shown_cons_kept, cons_prefix_cons] at starts
      obtain ⟨rfl, starts⟩ := starts
      obtain ⟨rest, rfl⟩ := ih (fun s o member => brackets s o (mem_cons_of_mem _ member))
        (fun member => absent (mem_cons_of_mem _ member)) starts
      exact ⟨rest, rfl⟩
    | removed s o =>
      obtain ⟨inner, rfl⟩ := brackets s o mem_cons_self
      rw [shown_cons_removed, cons_append, cons_prefix_cons] at starts
      exact absurd (starts.1 ▸ mem_cons_self) absent

theorem Bracketed.tokens {s : List UInt8} (nonempty : start ≠ []) (opens : (0x5B : UInt8) ∉ start)
    (closes : (0x5D : UInt8) ∉ start) (bracketed : Bracketed s) (rest : List UInt8) :
    Bracketed (Proxy.tokens start replacement s).1 ∧
      (Proxy.tokens start replacement (s ++ rest)).1 = (Proxy.tokens start replacement s).1 ++ (Proxy.tokens start replacement rest).1 := by
  obtain ⟨inner, rfl⟩ := bracketed
  have opening : ∀ text, (Proxy.tokens start replacement (0x5B :: text)).1 = 0x5B :: (Proxy.tokens start replacement text).1 :=
    fun text => tokens_split nonempty opens (by decide) [] text
  have closing := @tokens_split start replacement nonempty _ closes (by decide) inner
  have empty : (Proxy.tokens start replacement []).1 = [] := rfl
  rw [cons_append, opening, opening, closing [], empty, append_assoc, singleton_append, closing rest]
  exact ⟨⟨_, rfl⟩, by simp⟩

theorem tokens_refined (nonempty : start ≠ []) (opens : (0x5B : UInt8) ∉ start)
    (closes : (0x5D : UInt8) ∉ start) (brackets : ∀ s o, Cell.removed s o ∈ cells → Bracketed s) :
    ∃ cells', Refined start replacement cells cells' ∧ shown cells' = (tokens start replacement (shown cells)).1 := by
  induction size : cells.length using Nat.strongRecOn generalizing cells with
  | ind n ih =>
    have smaller : ∀ {front rest : List Cell}, cells = front ++ rest → front ≠ [] →
        ∃ rest', Refined start replacement rest rest' ∧ shown rest' = (tokens start replacement (shown rest)).1 := by
      intro front rest whole some_
      refine ih rest.length ?_ (fun s o member => brackets s o (whole ▸ mem_append_right _ member)) rfl
      rw [← size, whole, length_append]
      have := length_pos_iff.mpr some_
      omega
    rcases cells with _ | ⟨cell, cells⟩
    · exact ⟨[], .nil, rfl⟩
    obtain ⟨rest', refined, same⟩ := @smaller [cell] cells rfl (by simp)
    cases cell with
    | removed s o =>
      refine ⟨_, .mark refined, ?_⟩
      rw [shown_cons_removed, shown_cons_removed, ((brackets s o mem_cons_self).tokens nonempty opens closes _).2, same]
    | kept b =>
      by_cases here : start <+: shown (.kept b :: cells)
      · obtain ⟨after, whole⟩ := kept_of_prefix brackets opens here
        have someCells : start.map Cell.kept ≠ [] := by
          intro empty
          exact nonempty (map_eq_nil_iff.mp empty)
        rw [whole, shown_kept, tokens_hit nonempty]
        split
        · rename_i long
          have tailFree : (0x5B : UInt8) ∉ tokenTail (shown after) := by
            intro member
            exact absurd (mem_takeWhile_imp member) (by decide)
          have bracketsAfter : ∀ s o, Cell.removed s o ∈ after → Bracketed s :=
            fun s o member => brackets s o (whole ▸ mem_append_right _ member)
          obtain ⟨last, behind⟩ := kept_of_prefix bracketsAfter tailFree ( takeWhile_prefix _)
          have split : Cell.kept b :: cells = (start ++ tokenTail (shown after)).map Cell.kept ++ last := by
            rw [map_append, append_assoc, ← behind, whole]
          obtain ⟨last', refinedLast, sameLast⟩ := smaller split (by simp [nonempty])
          have dropped : (shown after).drop (tokenTail (shown after)).length = shown last := by
            conv => lhs; arg 2; rw [behind, shown_kept]
            rw [drop_left]
          refine ⟨.removed replacement (start ++ tokenTail (shown after)) :: last', ?_, ?_⟩
          · rw [← whole, split]
            exact .token long (fun b member => mem_takeWhile_imp member) refinedLast
          · rw [shown_cons_removed, dropped, sameLast]
        · obtain ⟨after', refinedAfter, sameAfter⟩ := smaller whole someCells
          refine ⟨start.map Cell.kept ++ after', refinedAfter.keeps start, ?_⟩
          rw [shown_kept, sameAfter]
      · refine ⟨_, .keep refined, ?_⟩
        rw [shown_cons_kept] at here ⊢
        rw [shown_cons_kept, tokens_miss here, same]

end FerroLoop.Proxy

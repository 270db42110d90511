import FerroLoop.Proxy.Redaction

namespace FerroLoop.Proxy

open Std Text Checked Vault Utf8 List Symbol Option

inductive Reads (text : List UInt8) (symbol : Symbol) : Prop
  | raw (one : symbol.stop = symbol.start + 1) (byte : text[symbol.start]? = some symbol.value)
  | escape (three : symbol.stop = symbol.start + 3)
      (ascii : ∀ j, symbol.start ≤ j → j < symbol.stop → ∃ b, text[j]? = some b ∧ b < 0x80)

inductive Path (text : List UInt8) : Nat → List Symbol → Nat → Prop
  | nil {p : Nat} : Path text p [] p
  | cons {symbol : Symbol} {rest : List Symbol} {q : Nat} (reads : Reads text symbol) (path : Path text symbol.stop rest q) :
      Path text symbol.start (symbol :: rest) q

variable {q p start stop : Nat} {text pattern : List UInt8} {b : UInt8} {ci : Bool}

theorem Path.append {front back : List Symbol} (path : Path text p (front ++ back) q) :
    ∃ mid, Path text p front mid ∧ Path text mid back q := by
  induction front generalizing p with
  | nil => exact ⟨p, .nil, path⟩
  | cons symbol front ih =>
    cases path with
    | cons reads path =>
      obtain ⟨mid, one, other⟩ := ih path
      exact ⟨mid, .cons reads one, other⟩

variable {symbol : Symbol}

theorem Path.head {symbols : List Symbol} (path : Path text p symbols q)
    (first : symbols.head? = some symbol) : symbol.start = p := by
  cases path with
  | nil => cases first
  | cons reads path => rw [← some.inj first]

theorem Path.of_nil (path : Path text p [] q) : p = q := by
  cases path
  rfl

theorem Path.last {front : List Symbol} (path : Path text p (front ++ [symbol]) q) :
    Path text p front symbol.start ∧ Reads text symbol ∧ symbol.stop = q := by
  obtain ⟨mid, before, after⟩ := path.append
  cases after with
  | cons reads path =>
    exact ⟨before, reads, path.of_nil⟩

theorem hexDigit_ascii {d : UInt8} (digit : hexDigit b = some d) : b < 0x80 := by
  unfold hexDigit at digit
  split at digit
  · rename_i bounds
    exact Nat.lt_of_le_of_lt bounds.2 (by decide)
  split at digit
  · rename_i bounds
    exact Nat.lt_of_le_of_lt bounds.2 (by decide)
  split at digit
  · rename_i bounds
    exact Nat.lt_of_le_of_lt bounds.2 (by decide)
  · cases digit

variable {decode : Bool}

theorem escaped_ascii {a c value : UInt8} (found : escaped decode a b c = some value) :
    a < 0x80 ∧ b < 0x80 ∧ c < 0x80 := by
  unfold escaped at found
  split at found
  · rename_i percent
    obtain ⟨hi, isHi, found⟩ := bind_eq_some_iff.mp found
    obtain ⟨lo, isLo, -⟩ := bind_eq_some_iff.mp found
    refine ⟨?_, hexDigit_ascii isHi, hexDigit_ascii isLo⟩
    rw [percent.2]
    decide
  · cases found

theorem Reads.here (front rest : List UInt8) (a : UInt8) : Reads (front ++ a :: rest) ⟨front.length, front.length + 1, a⟩ := by
  refine .raw rfl ?_
  show (front ++ a :: rest)[front.length]? = _
  rw [getElem?_append_right (Nat.le_refl _), Nat.sub_self]
  rfl

theorem append_cons_shift (front rest : List UInt8) (a : UInt8) : front ++ a :: rest = (front ++ [a]) ++ rest := by
  rw [append_assoc]
  rfl

theorem symbolsFrom_path (decode : Bool) {front : List UInt8} {position : Nat} (rest : List UInt8) (at_ : front.length = position) :
    Path (front ++ rest) position (symbolsFrom decode position rest) (front ++ rest).length := by
  fun_induction symbolsFrom decode position rest generalizing front with
  | case1 position =>
    subst at_
    rw [append_nil]
    exact .nil
  | case2 position a =>
    subst at_
    refine .cons (.here front [] a) ?_
    rw [length_append]
    exact .nil
  | case3 position a b =>
    subst at_
    refine .cons (.here front [b] a) (@Path.cons _ ⟨front.length + 1, front.length + 2, b⟩ _ _ ?_ ?_)
    · have reads := Reads.here (front ++ [a]) [] b
      rw [append_assoc, length_append] at reads
      exact reads
    · rw [length_append]
      exact .nil
  | case4 position a b c rest value isEscape ih =>
    subst at_
    have ascii := escaped_ascii isEscape
    refine @Path.cons _ ⟨front.length, front.length + 3, value⟩ _ _ (.escape rfl ?_) ?_
    · intro j low high
      dsimp only at low high
      obtain ⟨k, rfl⟩ : ∃ k, j = front.length + k := ⟨j - front.length, by omega⟩
      rw [getElem?_append_right (by omega), Nat.add_sub_cancel_left]
      match k, (by omega : k < 3) with
      | 0, _ => exact ⟨a, rfl, ascii.1⟩
      | 1, _ => exact ⟨b, rfl, ascii.2.1⟩
      | 2, _ => exact ⟨c, rfl, ascii.2.2⟩
    · have split : front ++ a :: b :: c :: rest = (front ++ [a, b, c]) ++ rest := by simp
      rw [split]
      exact ih (by simp)
  | case5 position a b c rest noEscape ih =>
    subst at_
    refine .cons (.here front (b :: c :: rest) a) ?_
    rw [append_cons_shift]
    exact ih (by simp)

theorem symbols_path (decode : Bool) (text : List UInt8) : Path text 0 (symbols decode text) text.length :=
  @symbolsFrom_path decode [] 0 text rfl

theorem Path.length_le {symbols : List Symbol} (path : Path text p symbols q) :
    p + symbols.length ≤ q := by
  induction path with
  | nil => exact Nat.le_refl _
  | @cons symbol rest q reads path ih =>
    rw [length_cons]
    cases reads with
    | raw one byte => omega
    | escape three ascii => omega

def Symbol.key (ci : Bool) (symbol : Symbol) : UInt8 := fold ci symbol.value

/-- The pattern stands in the text, or in its decoding, where the bytes from `start` to `stop` are. -/
def Occurs (text : List UInt8) (decode ci : Bool) (pattern : List UInt8) (start stop : Nat) : Prop :=
  ∃ front mid back, symbols decode text = front ++ mid ++ back ∧ mid.map (key ci) = pattern.map (fold ci) ∧
    mid.head?.map Symbol.start = some start ∧ mid.getLast?.map Symbol.stop = some stop

theorem Occurs.path {text pattern : List UInt8} {ci : Bool} {start stop : Nat} (occurs : Occurs text decode ci pattern start stop) :
    ∃ mid, mid.map (key ci) = pattern.map (fold ci) ∧ mid ≠ [] ∧ Path text start mid stop ∧ stop ≤ text.length := by
  obtain ⟨front, mid, back, whole, keys, first, last⟩ := occurs
  have path := symbols_path decode text
  rw [whole] at path
  obtain ⟨after, early, late⟩ := path.append
  obtain ⟨before, -, through⟩ := early.append
  obtain ⟨symbol, isFirst, rfl⟩ := map_eq_some_iff.mp first
  obtain ⟨final, isLast, rfl⟩ := map_eq_some_iff.mp last
  have nonempty : mid ≠ [] := by
    intro empty
    rw [empty] at isFirst
    cases isFirst
  have through' := through
  rw [← dropLast_append_getLast? final isLast] at through'
  rw [through.head isFirst, through'.last.2.2]
  have bound := late.length_le
  exact ⟨mid, keys, nonempty, through, by omega⟩

theorem Occurs.bounds
    (occurs : Occurs text decode ci pattern start stop) : start < stop ∧ stop ≤ text.length := by
  obtain ⟨mid, -, nonempty, path, inside⟩ := occurs.path
  have := path.length_le
  have := length_pos_iff.mpr nonempty
  omega

theorem fold_high (high : 0x80 ≤ b) : fold ci b = b := by
  unfold fold
  rw [if_neg]
  rintro ⟨-, -, low⟩
  exact absurd (Nat.le_trans high low) (by decide)

theorem fold_low {ci : Bool} {b : UInt8} (low : b < 0x80) : fold ci b < 0x80 := by
  unfold fold
  split
  · rename_i upper
    have high := upper.2.2
    change b.toNat ≤ 90 at high
    show (b.toNat + 32) % 256 < 128
    omega
  · exact low

theorem fold_eq_high {a : UInt8} (same : fold ci a = fold ci b) (high : 0x80 ≤ a) : b = a := by
  rw [fold_high high] at same
  by_cases low : b < 0x80
  · have folded := @fold_low ci b low
    rw [← same] at folded
    exact absurd folded (UInt8.not_lt.mpr high)
  · rw [same, fold_high (UInt8.not_lt.mp low)]

theorem continues_high (continuing : continues b = true) : 0x80 ≤ b := by
  unfold continues at continuing
  rw [Bool.and_eq_true, decide_eq_true_eq] at continuing
  exact continuing.1

theorem isCharBoundary_of_starts {i : Nat} (inside : i ≤ text.length)
    (starts : ∀ b, text[i]? = some b → continues b = false) : isCharBoundary text i = true := by
  unfold isCharBoundary
  split
  · rename_i b here
    rw [starts b here]
    simp
  · rename_i outside
    have beyond := getElem?_eq_none_iff.mp outside
    exact beq_iff_eq.mpr (by omega)

theorem Occurs.start_starts {mid : List Symbol} (valid : Valid pattern)
    (keys : mid.map (key ci) = pattern.map (fold ci)) (nonempty : mid ≠ []) (path : Path text start mid stop) :
    ∀ b, text[start]? = some b → continues b = false := by
  intro b here
  cases path with
  | nil => exact absurd rfl nonempty
  | @cons symbol rest _ reads path =>
    rcases pattern with _ | ⟨first, others⟩
    · cases keys
    obtain ⟨same, -⟩ := List.cons.inj keys
    cases reads with
    | escape three ascii =>
      obtain ⟨c, found, low⟩ := ascii symbol.start (Nat.le_refl _) (by omega)
      rw [here] at found
      rw [some.inj found]
      by_contra continuing
      exact absurd low (UInt8.not_lt.mpr (continues_high (Bool.of_not_eq_false continuing)))
    | raw one byte =>
      rw [here] at byte
      have value := some.inj byte
      by_contra continuing
      have continuing := Bool.of_not_eq_false continuing
      rw [value] at continuing
      have equal := fold_eq_high same (continues_high continuing)
      obtain ⟨l, lead, before, -⟩ := valid.back (i := 0) (b := first) rfl (by rw [equal]; exact continuing)
      omega

theorem Occurs.stop_starts {mid : List Symbol} (valid : Valid text)
    (validPattern : Valid pattern) (keys : mid.map (key ci) = pattern.map (fold ci)) (nonempty : mid ≠ [])
    (path : Path text start mid stop) : ∀ b, text[stop]? = some b → continues b = false := by
  intro b here
  by_contra continuing
  obtain ⟨l, lead, before, atLead, starts, reach, between⟩ := valid.back here (Bool.of_not_eq_false continuing)
  have leadHigh : 0x80 ≤ lead := following_pos (by omega)
  have opening := Occurs.start_starts validPattern keys nonempty path
  -- The last bytes of the occurrence are those of the character that the byte continues, down to its first.
  have back : ∀ j, j ≤ stop - l → ∃ early late, mid = early ++ late ∧ late.length = j ∧ Path text start early (stop - j) ∧
      Path text (stop - j) late stop := by
    intro j upTo
    induction j with
    | zero => exact ⟨mid, [], (append_nil mid).symm, rfl, path, .nil⟩
    | succ j ih =>
      obtain ⟨early, late, whole, size, first, second⟩ := ih (by omega)
      have high : ∃ c, text[stop - j - 1]? = some c ∧ 0x80 ≤ c := by
        by_cases isLead : stop - j - 1 = l
        · exact ⟨lead, isLead ▸ atLead, leadHigh⟩
        · obtain ⟨c, found, more⟩ := between (stop - j - 1) (by omega) (by omega)
          exact ⟨c, found, continues_high more⟩
      obtain ⟨c, found, isHigh⟩ := high
      rcases eq_nil_or_concat early with rfl | ⟨init, symbol, rfl⟩
      · -- The occurrence would start inside the character.
        have same : start = stop - j := by
          cases first
          rfl
        obtain ⟨d, atStart, more⟩ := between start (by omega) (by omega)
        rw [opening d atStart] at more
        cases more
      · rw [concat_eq_append] at whole first
        obtain ⟨shorter, reads, ends⟩ := first.last
        cases reads with
        | escape three ascii =>
          obtain ⟨d, atByte, low⟩ := ascii (stop - j - 1) (by omega) (by omega)
          rw [found] at atByte
          rw [some.inj atByte] at isHigh
          exact absurd low (UInt8.not_lt.mpr isHigh)
        | raw one byte =>
          have position : symbol.start = stop - (j + 1) := by omega
          refine ⟨init, symbol :: late, by rw [whole, append_assoc]; rfl, by rw [length_cons, size], ?_, ?_⟩
          · rw [← position]
            exact shorter
          · rw [← position]
            refine .cons (.raw one byte) ?_
            rw [ends]
            exact second
  obtain ⟨early, late, whole, size, -, second⟩ := back (stop - l) (Nat.le_refl _)
  have position : stop - (stop - l) = l := by omega
  rw [position] at second
  cases second with
  | nil =>
    rw [length_nil] at size
    omega
  | @cons symbol rest _ reads path =>
    cases reads with
    | escape three ascii =>
      obtain ⟨d, atByte, low⟩ := ascii symbol.start (Nat.le_refl _) (by omega)
      rw [atLead] at atByte
      rw [some.inj atByte] at leadHigh
      exact absurd low (UInt8.not_lt.mpr leadHigh)
    | raw one byte =>
      rw [atLead] at byte
      have value := some.inj byte
      have sizes : early.length + (stop - symbol.start) = pattern.length := by
        have lengths := congrArg List.length keys
        rw [whole] at lengths
        simp only [length_map, length_append] at lengths
        omega
      have inside : early.length < pattern.length := by omega
      have symbolAt : mid[early.length]? = some symbol := by
        rw [whole, getElem?_append_right (Nat.le_refl _), Nat.sub_self]
        rfl
      have keyed := congrArg (fun keys => keys[early.length]?) keys
      simp only [getElem?_map, symbolAt, getElem?_eq_getElem inside, map_some, some.injEq] at keyed
      have equal := fold_eq_high (show fold ci symbol.value = fold ci pattern[early.length] from keyed) (value ▸ leadHigh)
      have atPattern : pattern[early.length]? = some lead := by
        rw [getElem?_eq_getElem inside, equal, value]
      have room := validPattern.forth atPattern starts
      omega

theorem Occurs.boundaries (valid : Valid text)
    (validPattern : Valid pattern) (occurs : Occurs text decode ci pattern start stop) :
    isCharBoundary text start = true ∧ isCharBoundary text stop = true := by
  obtain ⟨mid, keys, nonempty, path, inside⟩ := occurs.path
  have length := path.length_le
  exact ⟨isCharBoundary_of_starts (by omega) (Occurs.start_starts validPattern keys nonempty path),
    isCharBoundary_of_starts inside (Occurs.stop_starts valid validPattern keys nonempty path)⟩

section Scan

variable {text pattern : List UInt8} {ci : Bool} {owner : Nat}

def endingSpan (size : Nat) (owner : Nat) (seen : List Symbol) : Span where
  start := ((seen.drop (seen.length - size)).head?.map Symbol.start).getD 0
  stop := (seen.getLast?.map Symbol.stop).getD 0
  owner

def endings (pattern : List UInt8) (ci : Bool) (owner : Nat) (seen : List Symbol) : List Symbol → List Span
  | [] => []
  | symbol :: rest =>
    (if pattern.map (fold ci) <:+ (seen ++ [symbol]).map (key ci) then [endingSpan pattern.length owner (seen ++ [symbol])] else []) ++
      endings pattern ci owner (seen ++ [symbol]) rest

structure Steady (pattern : List UInt8) (ci : Bool) (seen : List Symbol) (scan : Scan) : Prop where
  best : Kmp.Best (pattern.map (fold ci)) (pattern.map (fold ci)).length (seen.map (key ci)) scan.matched
  index : scan.index = seen.length
  size : scan.starts.length = pattern.length
  ring : ∀ j < seen.length, seen.length ≤ j + pattern.length → scan.starts[j % pattern.length]? = seen[j]?.map Symbol.start

theorem mod_apart {i j n : Nat} (less : j < i) (near : i < j + n) : j % n ≠ i % n := by
  intro same
  have divides : n ∣ i - j := Nat.dvd_of_mod_eq_zero (Nat.sub_mod_eq_zero_of_mod_eq same.symm)
  have bound := Nat.le_of_dvd (by omega) divides
  omega

variable {seen : List Symbol} {scan : Scan}

theorem Steady.ring_next (steady : Steady pattern ci seen scan) (nonempty : 0 < pattern.length)
    (symbol : Symbol) : ∀ j < (seen ++ [symbol]).length, (seen ++ [symbol]).length ≤ j + pattern.length →
      (scan.starts.set (scan.index % pattern.length) symbol.start)[j % pattern.length]? = (seen ++ [symbol])[j]?.map Symbol.start := by
  intro j less near
  rw [length_append, length_singleton] at less near
  rw [steady.index]
  by_cases last : j = seen.length
  · subst last
    rw [getElem?_set_self (by rw [steady.size]; exact Nat.mod_lt _ nonempty), getElem?_append_right (Nat.le_refl _), Nat.sub_self]
    rfl
  · have apart := @mod_apart seen.length j pattern.length (by omega) (by omega)
    rw [getElem?_set_ne (Ne.symm apart), getElem?_append_left (by omega)]
    exact steady.ring j (by omega) (by omega)

theorem scanSymbol_step (steady : Steady pattern ci seen scan) (nonempty : pattern ≠ []) (symbol : Symbol) :
    ∃ next, Steady pattern ci (seen ++ [symbol]) next ∧
      (¬pattern.map (fold ci) <:+ (seen ++ [symbol]).map (key ci) → scanSymbol text pattern ci owner scan symbol = .ok next ∧
        next.hit = scan.hit ∧ next.spans = scan.spans) ∧
      (pattern.map (fold ci) <:+ (seen ++ [symbol]).map (key ci) →
        isCharBoundary text (endingSpan pattern.length owner (seen ++ [symbol])).start = true → isCharBoundary text symbol.stop = true →
        (scan.spans.length < maxSecretMatches → scanSymbol text pattern ci owner scan symbol = .ok next ∧ next.hit = true ∧
          next.spans = scan.spans ++ [endingSpan pattern.length owner (seen ++ [symbol])]) ∧
        (maxSecretMatches ≤ scan.spans.length → scanSymbol text pattern ci owner scan symbol = .error ())) := by
  have positive : 0 < pattern.length := length_pos_iff.mpr nonempty
  have folded : pattern.map (fold ci) ≠ [] := by
    intro empty
    exact nonempty (map_eq_nil_iff.mp empty)
  obtain ⟨tells, best⟩ := Kmp.feed_spec folded steady.best (fold ci symbol.value)
  have keys : seen.map (key ci) ++ [fold ci symbol.value] = (seen ++ [symbol]).map (key ci) := by
    rw [map_append]
    rfl
  rw [keys] at tells best
  have size : (scan.starts.set (scan.index % pattern.length) symbol.start).length = pattern.length := by
    rw [length_set, steady.size]
  have index : scan.index + 1 = (seen ++ [symbol]).length := by
    rw [steady.index, length_append]
    rfl
  have ring := steady.ring_next positive symbol
  by_cases ended : pattern.map (fold ci) <:+ (seen ++ [symbol]).map (key ci)
  · have begins : (scan.starts.set (scan.index % pattern.length) symbol.start).getD ((scan.index + 1 - pattern.length) % pattern.length) 0 =
        (endingSpan pattern.length owner (seen ++ [symbol])).start := by
      rw [getD_eq_getElem?_getD, index, ring _ (by omega) (by omega)]
      unfold endingSpan
      rw [head?_drop]
    have finishes : (endingSpan pattern.length owner (seen ++ [symbol])).stop = symbol.stop := by
      unfold endingSpan
      rw [getLast?_concat]
      rfl
    refine ⟨⟨(Kmp.feed (pattern.map (fold ci)) scan.matched (fold ci symbol.value)).2, _, scan.index + 1, true,
      scan.spans ++ [endingSpan pattern.length owner (seen ++ [symbol])]⟩, ⟨best, index, size, ring⟩, fun other => absurd ended other, ?_⟩
    intro _ startsWell stopsWell
    unfold scanSymbol
    dsimp only
    rw [if_pos (tells.mpr ended), begins, startsWell, stopsWell]
    refine ⟨fun room => ?_, fun full => ?_⟩
    · rw [if_neg (by simpa using room)]
      refine ⟨?_, rfl, rfl⟩
      rw [← finishes]
      rfl
    · rw [if_pos (by simpa using full)]
  · refine ⟨⟨(Kmp.feed (pattern.map (fold ci)) scan.matched (fold ci symbol.value)).2, _, scan.index + 1, scan.hit, scan.spans⟩,
      ⟨best, index, size, ring⟩, fun _ => ⟨?_, rfl, rfl⟩, fun other => absurd other ended⟩
    unfold scanSymbol
    dsimp only
    rw [if_neg fun told => ended (tells.mp told)]

variable {rest : List Symbol}

theorem scan_run (steady : Steady pattern ci seen scan) (nonempty : pattern ≠ [])
    (boundaries : ∀ span ∈ endings pattern ci owner seen rest, isCharBoundary text span.start = true ∧ isCharBoundary text span.stop = true)
    (room : scan.spans.length ≤ maxSecretMatches) :
    (scan.spans.length + (endings pattern ci owner seen rest).length ≤ maxSecretMatches →
      ∃ after, rest.foldlM (scanSymbol text pattern ci owner) scan = .ok after ∧
        after.spans = scan.spans ++ endings pattern ci owner seen rest ∧
        after.hit = (scan.hit || !(endings pattern ci owner seen rest).isEmpty)) ∧
    (maxSecretMatches < scan.spans.length + (endings pattern ci owner seen rest).length →
      rest.foldlM (scanSymbol text pattern ci owner) scan = .error ()) := by
  induction rest generalizing seen scan with
  | nil =>
    refine ⟨fun _ => ⟨scan, rfl, (append_nil _).symm, by simp [endings]⟩, fun full => ?_⟩
    rw [endings, length_nil] at full
    omega
  | cons symbol rest ih =>
    obtain ⟨next, steadyNext, misses, matches_⟩ := @scanSymbol_step text pattern ci owner seen scan steady nonempty symbol
    rw [foldlM_cons]
    rw [endings] at boundaries ⊢
    by_cases ended : pattern.map (fold ci) <:+ (seen ++ [symbol]).map (key ci)
    · rw [if_pos ended] at boundaries ⊢
      obtain ⟨startsWell, stopsWell⟩ := boundaries _ (mem_append_left _ (mem_singleton_self _))
      have finishes : (endingSpan pattern.length owner (seen ++ [symbol])).stop = symbol.stop := by
        unfold endingSpan
        rw [getLast?_concat]
        rfl
      rw [finishes] at stopsWell
      obtain ⟨fits, overflows⟩ := matches_ ended startsWell stopsWell
      rw [length_append, length_singleton]
      by_cases space : scan.spans.length < maxSecretMatches
      · obtain ⟨stepped, hit, spans⟩ := fits space
        have count : next.spans.length = scan.spans.length + 1 := by
          rw [spans, length_append]
          rfl
        obtain ⟨ends, fails⟩ := ih steadyNext (fun span member => boundaries span (mem_append_right _ member)) (by omega)
        rw [stepped, ok_bind]
        refine ⟨fun enough => ?_, fun full => fails (by omega)⟩
        obtain ⟨after, done, all, told⟩ := ends (by omega)
        refine ⟨after, done, ?_, ?_⟩
        · rw [all, spans, append_assoc]
        · rw [told, hit]
          simp
      · rw [overflows (by omega)]
        refine ⟨fun enough => by omega, fun _ => rfl⟩
    · rw [if_neg ended] at boundaries ⊢
      obtain ⟨stepped, hit, spans⟩ := misses ended
      rw [stepped, ok_bind, nil_append, ← hit, ← spans]
      exact ih steadyNext (fun span member => boundaries span (mem_append_right _ member)) (spans ▸ room)

theorem endingSpan_split {front mid : List Symbol} (size : mid.length = pattern.length) (nonempty : mid ≠ []) :
    mid.head?.map Symbol.start = some (endingSpan pattern.length owner (front ++ mid)).start ∧
      mid.getLast?.map Symbol.stop = some (endingSpan pattern.length owner (front ++ mid)).stop := by
  unfold endingSpan
  have behind : (front ++ mid).drop ((front ++ mid).length - pattern.length) = mid := by
    rw [length_append, ← size, Nat.add_sub_cancel, drop_left]
  rw [behind, getLast?_append_of_ne_nil _ nonempty, head?_eq_some_head nonempty, getLast?_eq_some_getLast nonempty]
  exact ⟨rfl, rfl⟩

theorem mem_endings {span : Span} (nonempty : pattern ≠ []) :
    span ∈ endings pattern ci owner seen rest ↔ span.owner = owner ∧
      ∃ front mid back, seen ++ rest = front ++ mid ++ back ∧ back.length < rest.length ∧
        mid.map (Symbol.key ci) = pattern.map (fold ci) ∧ mid.head?.map Symbol.start = some span.start ∧
        mid.getLast?.map Symbol.stop = some span.stop := by
  induction rest generalizing seen with
  | nil =>
    constructor
    · intro member
      cases member
    · rintro ⟨-, front, mid, back, -, short, -⟩
      cases short
  | cons symbol rest ih =>
    have shift : seen ++ symbol :: rest = (seen ++ [symbol]) ++ rest := by
      rw [append_assoc]
      rfl
    rw [endings, mem_append, ih, shift]
    constructor
    · rintro (here | ⟨owned, front, mid, back, whole, short, found⟩)
      · split at here
        · rename_i ended
          have same := mem_singleton.mp here
          obtain ⟨keys, apart⟩ := ended
          obtain ⟨front, mid, split, frontKeys, midKeys⟩ := map_eq_append_iff.mp apart.symm
          have size : mid.length = pattern.length := by
            have lengths := congrArg List.length midKeys
            rw [length_map, length_map] at lengths
            exact lengths
          have some_ : mid ≠ [] := by
            intro empty
            rw [empty] at size
            exact nonempty (length_eq_zero_iff.mp size.symm)
          obtain ⟨first, last⟩ := @endingSpan_split pattern owner front mid size some_
          rw [← split, ← same] at first last
          refine ⟨by rw [same]; rfl, front, mid, rest, by rw [split], by rw [length_cons]; omega, midKeys, first, last⟩
        · cases here
      · exact ⟨owned, front, mid, back, whole, by rw [length_cons]; omega, found⟩
    · rintro ⟨owned, front, mid, back, whole, short, keys, first, last⟩
      rw [length_cons] at short
      by_cases later : back.length < rest.length
      · exact .inr ⟨owned, front, mid, back, whole, later, keys, first, last⟩
      left
      obtain ⟨split, -⟩ := append_inj' whole (by omega)
      have ended : pattern.map (fold ci) <:+ (seen ++ [symbol]).map (key ci) := by
        rw [split, map_append, keys]
        exact suffix_append _ _
      have size : mid.length = pattern.length := by
        have lengths := congrArg List.length keys
        rw [length_map, length_map] at lengths
        exact lengths
      have some_ : mid ≠ [] := by
        intro empty
        rw [empty] at size
        exact nonempty (length_eq_zero_iff.mp size.symm)
      obtain ⟨begins, finishes⟩ := @endingSpan_split pattern owner front mid size some_
      rw [if_pos ended, split, mem_singleton]
      have starts : span.start = (endingSpan pattern.length owner (front ++ mid)).start := some.inj (first.symm.trans begins)
      have stops : span.stop = (endingSpan pattern.length owner (front ++ mid)).stop := some.inj (last.symm.trans finishes)
      cases span
      dsimp only at owned starts stops
      subst owned starts stops
      rfl

end Scan

end FerroLoop.Proxy

import Mathlib.Data.List.Chain
import Mathlib.Data.List.Infix
import Mathlib.Data.List.TakeWhile
import Mathlib.Algebra.Ring.Nat

/-!
Text of the project inside a decision comment (`escape_in` of `crates/github/src/ledger/render.rs`). A text is held as
its characters.
-/

namespace FerroLoop.Ledger.Render

open List

-- What is said of the characters of a list is decided along the list, not over all characters.
local instance (priority := 2000) decideAll (l : List Char) (p : Char → Prop) [DecidablePred p] : Decidable (∀ c ∈ l, p c) :=
  decidableBAll p l

inductive Context
  | markdown
  | html
  deriving DecidableEq

def len (text : List Char) : Nat := (text.map Char.utf8Size).sum

def afterGh (before : List Char) : Bool :=
  match before.reverse with
  | h :: g :: _ => (g == 'g' || g == 'G') && (h == 'h' || h == 'H')
  | _ => false

def afterScheme (before : List Char) : Bool :=
  match before.reverse with
  | '/' :: ':' :: _ => true
  | _ => false

def isW (c : Char) : Bool := c == 'w' || c == 'W'

def afterWww (before : List Char) : Bool :=
  match before.reverse with
  | a :: b :: c :: _ => isW a && isW b && isW c
  | _ => false

def markdownSpecials : List Char := ['\\', '`', '*', '_', '[', ']', '(', ')', '~', '|', '$']

/-- The entity of a zero-width space. -/
def zeroWidth : List Char := ['&', '#', '8', '2', '0', '3', ';']

/-- What `push_escaped` pushes. -/
def escaped (c : Char) (before : List Char) (ctx : Context) : List Char :=
  if c = '&' then ['&', 'a', 'm', 'p', ';']
  else if c = '<' then ['&', 'l', 't', ';']
  else if c = '>' then ['&', 'g', 't', ';']
  else if c = '@' then '@' :: zeroWidth
  else if c = '#' then '#' :: zeroWidth
  else if c = '-' ∧ afterGh before then '-' :: zeroWidth
  else if c = '/' ∧ afterScheme before then zeroWidth ++ ['/']
  else if c = '.' ∧ afterWww before then zeroWidth ++ ['.']
  else if c = '\n' ∧ ctx = .markdown then ['<', 'b', 'r', '>']
  else if c = '\n' then [' ']
  else if c ∈ markdownSpecials ∧ ctx = .markdown then ['\\', c]
  else [c]

/-- The escaped text, and how long it is after each character. -/
def escapeFrom (ctx : Context) (before full : List Char) (ends : List Nat) : List Char → List Char × List Nat
  | [] => (full, ends)
  | c :: rest =>
    let full := full ++ escaped c before ctx
    escapeFrom ctx (before ++ [c]) full (ends ++ [len full]) rest

/-- `&text[..keep]`, which panics inside a character and beyond the end. -/
def sliceTo : Nat → List Char → Option (List Char)
  | 0, _ => some []
  | _ + 1, [] => none
  | n + 1, c :: rest => if c.utf8Size ≤ n + 1 then (sliceTo (n + 1 - c.utf8Size) rest).map (c :: ·) else none

def stripped (s : List Char) : List Char := s.filter (· ≠ '\r')

def escapeIn (s : List Char) (limit : Nat) (ctx : Context) : Option (List Char) :=
  let (full, ends) := escapeFrom ctx [] [] [] (stripped s)
  if len full ≤ limit then some full
  else if limit < '…'.utf8Size then some []
  else
    let room := limit - '…'.utf8Size
    let keep := ((ends.takeWhile (· ≤ room)).getLast?).getD 0
    (sliceTo keep full).map (· ++ ['…'])

/-- What each character becomes. -/
def pieces (ctx : Context) (before : List Char) : List Char → List (List Char)
  | [] => []
  | c :: rest => escaped c before ctx :: pieces ctx (before ++ [c]) rest

/-- The replacements that do not depend on the context's specials. -/
def replacements : List (Char × List Char) :=
  [('&', ['&', 'a', 'm', 'p', ';']), ('<', ['&', 'l', 't', ';']), ('>', ['&', 'g', 't', ';']), ('@', '@' :: zeroWidth), ('#', '#' :: zeroWidth),
    ('-', '-' :: zeroWidth), ('/', zeroWidth ++ ['/']), ('.', zeroWidth ++ ['.']), ('\n', ['<', 'b', 'r', '>'])]

/-- A character that is written as it is, or as a blank. -/
structure Plain (ctx : Context) (before : List Char) (c d : Char) : Prop where
  same : d = c ∨ c = '\n' ∧ d = ' '
  tame : d ∉ ['&', '<', '>', '@', '#']
  unspecial : ctx = .markdown → d ∉ markdownSpecials
  gh : c = '-' → afterGh before = false
  scheme : c = '/' → afterScheme before = false
  www : c = '.' → afterWww before = false

variable {ctx : Context}

theorem escaped_cases (c : Char) (before : List Char) (ctx : Context) :
    (c, escaped c before ctx) ∈ replacements ∨
      (c ∈ markdownSpecials ∧ ctx = .markdown ∧ escaped c before ctx = ['\\', c]) ∨
      ∃ d, Plain ctx before c d ∧ escaped c before ctx = [d] := by
  by_cases amp : c = '&'
  · exact .inl (by simp [escaped, replacements, amp])
  by_cases lt : c = '<'
  · exact .inl (by simp [escaped, replacements, lt])
  by_cases gt : c = '>'
  · exact .inl (by simp [escaped, replacements, gt])
  by_cases at_ : c = '@'
  · exact .inl (by simp [escaped, replacements, at_])
  by_cases number : c = '#'
  · exact .inl (by simp [escaped, replacements, number])
  by_cases gh : c = '-' ∧ afterGh before = true
  · exact .inl (by simp [escaped, replacements, gh])
  by_cases scheme : c = '/' ∧ afterScheme before = true
  · exact .inl (by simp [escaped, replacements, scheme])
  by_cases www : c = '.' ∧ afterWww before = true
  · exact .inl (by simp [escaped, replacements, www])
  by_cases break_ : c = '\n' ∧ ctx = .markdown
  · exact .inl (by simp [escaped, replacements, break_])
  have rest : escaped c before ctx =
      if c = '\n' then [' '] else if c ∈ markdownSpecials ∧ ctx = .markdown then ['\\', c] else [c] := by
    simp only [escaped, amp, lt, gt, at_, number, gh, scheme, www, break_, if_false]
  rw [rest]
  refine .inr ?_
  split
  · rename_i blank
    subst blank
    refine .inr ⟨' ', ⟨.inr ⟨rfl, rfl⟩, by decide, fun _ => by decide, ?_, ?_, ?_⟩, rfl⟩
    all_goals exact fun same => absurd same (by decide)
  split
  · rename_i special
    exact .inl ⟨special.1, special.2, rfl⟩
  rename_i unspecial
  refine .inr ⟨c, ⟨.inl rfl, ?_, ?_, ?_, ?_, ?_⟩, rfl⟩
  · simp [amp, lt, gt, at_, number]
  · exact fun same member => unspecial ⟨member, same⟩
  · exact fun same => Bool.eq_false_iff.mpr fun after => gh ⟨same, after⟩
  · exact fun same => Bool.eq_false_iff.mpr fun after => scheme ⟨same, after⟩
  · exact fun same => Bool.eq_false_iff.mpr fun after => www ⟨same, after⟩

def esc (ctx : Context) (raw : List Char) : List Char := (pieces ctx [] raw).flatten

theorem pieces_append (before first second : List Char) :
    pieces ctx before (first ++ second) = pieces ctx before first ++ pieces ctx (before ++ first) second := by
  induction first generalizing before with
  | nil => simp [pieces]
  | cons c rest ih => simp [pieces, ih]

theorem esc_append (first second : List Char) :
    esc ctx (first ++ second) = esc ctx first ++ (pieces ctx first second).flatten := by
  simp [esc, pieces_append]

theorem len_append (first second : List Char) : len (first ++ second) = len first + len second := by
  simp [len]

theorem len_escaped (c : Char) (before : List Char) : len (escaped c before ctx) ≤ 8 * len [c] := by
  have some_ := c.utf8Size_pos
  have short : ∀ e ∈ replacements, len e.2 ≤ 8 := by decide
  simp only [len, map_cons, map_nil, sum_cons, sum_nil] at short ⊢
  rcases escaped_cases c before ctx with listed | ⟨_, _, same⟩ | ⟨d, plain, same⟩
  · have bound := short _ listed
    dsimp only at bound
    omega
  · rw [same]
    have one : '\\'.utf8Size = 1 := rfl
    simp only [map_cons, map_nil, sum_cons, sum_nil, one]
    omega
  · rw [same]
    have blank : ' '.utf8Size = 1 := rfl
    simp only [map_cons, map_nil, sum_cons, sum_nil]
    rcases plain.same with rfl | ⟨_, rfl⟩
    · omega
    · omega

theorem len_esc (raw : List Char) : len (esc ctx raw) ≤ 8 * len raw := by
  induction raw using List.reverseRecOn with
  | nil => exact Nat.le_refl 0
  | append_singleton raw c ih =>
    have piece := @len_escaped ctx c raw
    rw [esc_append, len_append, len_append]
    simp only [pieces, flatten_cons, flatten_nil, append_nil]
    omega

theorem len_stripped (s : List Char) : len (stripped s) ≤ len s := by
  induction s with
  | nil => exact Nat.le_refl 0
  | cons c rest ih =>
    unfold stripped len at ih ⊢
    rw [filter_cons, map_cons, sum_cons]
    split
    · rw [map_cons, sum_cons]
      omega
    · omega

theorem esc_mono {kept raw : List Char} (front : kept <+: raw) : len (esc ctx kept) ≤ len (esc ctx raw) := by
  obtain ⟨more, rfl⟩ := front
  rw [esc_append, len_append]
  exact Nat.le_add_right _ _

theorem escapeFrom_spec (before : List Char) (ends : List Nat) (raw : List Char) :
    escapeFrom ctx before (esc ctx before) ends raw =
      (esc ctx (before ++ raw), ends ++ raw.inits.tail.map fun kept => len (esc ctx (before ++ kept))) := by
  induction raw generalizing before ends with
  | nil =>
    rw [append_nil]
    exact congrArg (Prod.mk _) (append_nil ends).symm
  | cons c rest ih =>
    have grown : esc ctx before ++ escaped c before ctx = esc ctx (before ++ [c]) := by
      rw [esc_append]
      simp [pieces]
    unfold escapeFrom
    rw [grown, ih]
    cases rest <;> simp [Function.comp_def]

/-- The last mark within the room is that of the longest start that fits. -/
theorem takeWhile_marks {mark : List Char → Nat} (mono : ∀ {kept raw : List Char}, kept <+: raw → mark kept ≤ mark raw)
    (raw : List Char) {room : Nat} (fits : mark [] ≤ room) :
    ∃ kept, kept <+: raw ∧ (((raw.inits.tail.map mark).takeWhile (· ≤ room)).getLast?).getD (mark []) = mark kept ∧
      mark kept ≤ room ∧ ∀ longer, longer <+: raw → kept.length < longer.length → room < mark longer := by
  induction raw generalizing mark with
  | nil =>
    refine ⟨[], nil_prefix, rfl, fits, ?_⟩
    intro longer front more
    rw [prefix_nil.mp front] at more
    exact absurd more (Nat.lt_irrefl 0)
  | cons c rest ih =>
    have marks : (c :: rest).inits.tail.map mark = mark [c] :: rest.inits.tail.map fun kept => mark (c :: kept) := by
      cases rest <;> simp [Function.comp_def]
    rw [marks]
    by_cases first : mark [c] ≤ room
    · obtain ⟨kept, front, last, below, longest⟩ :=
        @ih (fun kept => mark (c :: kept)) (fun front => mono (cons_prefix_cons.mpr ⟨rfl, front⟩)) first
      refine ⟨c :: kept, cons_prefix_cons.mpr ⟨rfl, front⟩, ?_, below, ?_⟩
      · rw [takeWhile_cons_of_pos (by simpa using first), getLast?_cons, Option.getD_some]
        exact last
      · rintro (_ | ⟨d, longer⟩) within more
        · exact absurd more (Nat.not_lt_zero _)
        obtain ⟨rfl, inner⟩ := cons_prefix_cons.mp within
        exact longest longer inner (Nat.lt_of_succ_lt_succ more)
    · rw [takeWhile_cons_of_neg (by simpa using first)]
      refine ⟨[], nil_prefix, rfl, fits, ?_⟩
      rintro (_ | ⟨d, longer⟩) within more
      · exact absurd more (Nat.lt_irrefl 0)
      obtain ⟨rfl, -⟩ := cons_prefix_cons.mp within
      exact Nat.lt_of_lt_of_le (Nat.lt_of_not_le first) (mono (cons_prefix_cons.mpr ⟨rfl, nil_prefix⟩))

theorem sliceTo_len (first second : List Char) : sliceTo (len first) (first ++ second) = some first := by
  induction first with
  | nil => simp [len, sliceTo]
  | cons c rest ih =>
    have some_ := c.utf8Size_pos
    obtain ⟨n, size⟩ : ∃ n, len (c :: rest) = n + 1 := ⟨c.utf8Size - 1 + len rest, by simp [len]; omega⟩
    have left : n + 1 - c.utf8Size = len rest := by
      rw [← size]
      simp [len]
    rw [size, cons_append, sliceTo, if_pos (by rw [← size]; simp [len]), left, ih]
    rfl

/-- All of the text where it fits; else the longest start of it that fits with the ellipsis, where the ellipsis does. -/
structure Longest (ctx : Context) (raw : List Char) (limit : Nat) (kept ending : List Char) : Prop where
  whole : len (esc ctx raw) ≤ limit → kept = raw ∧ ending = []
  none : limit < len (esc ctx raw) → limit < '…'.utf8Size → kept = [] ∧ ending = []
  cut : limit < len (esc ctx raw) → '…'.utf8Size ≤ limit → ending = ['…'] ∧
    ∀ longer, longer <+: raw → kept.length < longer.length → limit < len (esc ctx longer ++ ['…'])

/-- What is returned: all of the text, or what fits of it and an ellipsis. -/
theorem escapeIn_spec (s : List Char) (limit : Nat) (ctx : Context) :
    ∃ kept ending, escapeIn s limit ctx = some (esc ctx kept ++ ending) ∧ kept <+: stripped s ∧
      (ending = [] ∨ ending = ['…']) ∧ len (esc ctx kept ++ ending) ≤ limit ∧
      len (esc ctx kept ++ ending) ≤ len (esc ctx (stripped s)) ∧ Longest ctx (stripped s) limit kept ending := by
  have written : escapeFrom ctx [] [] [] (stripped s) = _ := escapeFrom_spec [] [] (stripped s)
  simp only [escapeIn, written, nil_append]
  by_cases fits : len (esc ctx (stripped s)) ≤ limit
  · rw [if_pos fits]
    refine ⟨stripped s, [], by rw [append_nil], prefix_refl _, .inl rfl, ?_⟩
    rw [append_nil]
    exact ⟨fits, Nat.le_refl _, fun _ => ⟨rfl, rfl⟩, fun more => absurd fits (Nat.not_le_of_lt more),
      fun more => absurd fits (Nat.not_le_of_lt more)⟩
  rw [if_neg fits]
  by_cases tiny : limit < '…'.utf8Size
  · rw [if_pos tiny]
    exact ⟨[], [], rfl, nil_prefix, .inl rfl, Nat.zero_le _, Nat.zero_le _, fun whole => absurd whole fits,
      fun _ _ => ⟨rfl, rfl⟩, fun _ room => absurd tiny (Nat.not_lt_of_le room)⟩
  rw [if_neg tiny]
  -- The cut is at an end of a piece, or at the start.
  obtain ⟨kept, ⟨rest, first⟩, same, below, longest⟩ :=
    @takeWhile_marks (fun kept => len (esc ctx kept)) esc_mono (stripped s) (limit - '…'.utf8Size) (Nat.zero_le _)
  have size : ∀ text, len (text ++ ['…']) = len text + '…'.utf8Size := fun text => len_append _ _
  refine ⟨kept, ['…'], ?_, ⟨rest, first⟩, .inr rfl, ?_, ?_, fun whole => absurd whole fits,
    fun _ small => absurd small tiny, fun _ _ => ⟨rfl, ?_⟩⟩
  · change ((takeWhile (· ≤ limit - '…'.utf8Size) ((stripped s).inits.tail.map fun kept => len (esc ctx kept))).getLast?).getD 0 = _ at same
    rw [same, ← first, esc_append, sliceTo_len]
    rfl
  · rw [size]
    omega
  · rw [size]
    omega
  · intro longer front more
    have past := longest longer front more
    rw [size]
    omega

variable {before raw : List Char}

theorem pieces_nil (empty : (pieces ctx before raw).flatten = []) : raw = [] := by
  rcases raw with _ | ⟨c, rest⟩
  · rfl
  have table : ∀ e ∈ replacements, e.2 ≠ [] := by decide
  have none_ : escaped c before ctx = [] := (append_eq_nil_iff.mp empty).1
  rcases escaped_cases c before ctx with listed | ⟨_, _, same⟩ | ⟨d, _, same⟩
  · exact absurd none_ (table _ listed)
  · rw [same] at none_
    cases none_
  · rw [same] at none_
    cases none_

variable {l q : List Char} {z : Char}

/-- A character of the text lies in what one character became. -/
theorem located (text : (pieces ctx before raw).flatten = l ++ z :: q) :
    ∃ b c a u v, raw = b ++ c :: a ∧ escaped c (before ++ b) ctx = u ++ z :: v ∧
      l = (pieces ctx before b).flatten ++ u ∧ q = v ++ (pieces ctx (before ++ b ++ [c]) a).flatten := by
  induction raw generalizing before l with
  | nil => exact absurd text.symm (by simp [pieces])
  | cons c rest ih =>
    obtain ⟨l', same, tail⟩ | ⟨v, made, rest_⟩ :
        (∃ l', l = escaped c before ctx ++ l' ∧ (pieces ctx (before ++ [c]) rest).flatten = l' ++ z :: q) ∨
          ∃ v, escaped c before ctx = l ++ z :: v ∧ q = v ++ (pieces ctx (before ++ [c]) rest).flatten := by
      rcases append_eq_append_iff.mp text with here | ⟨w, made, tail⟩
      · exact .inl here
      cases w with
      | nil => exact .inl ⟨[], by rw [made, append_nil, append_nil], tail.symm⟩
      | cons x v =>
        obtain ⟨rfl, rest_⟩ := cons_eq_cons.mp tail
        exact .inr ⟨v, made, rest_⟩
    · obtain ⟨b, d, a, u, v, split, made, front, back⟩ := ih tail
      refine ⟨c :: b, d, a, u, v, by rw [split]; rfl, ?_, ?_, ?_⟩
      · rw [← made, append_assoc]
        rfl
      · rw [same, front, pieces, flatten_cons, append_assoc]
      · rw [back, append_assoc before]
        rfl
    · exact ⟨[], c, rest, l, v, rfl, by rw [append_nil]; exact made, rfl, by rw [append_nil]; exact rest_⟩

def digits : List Char := ['0', '1', '2', '3', '4', '5', '6', '7', '8', '9']

/-- The characters that references and links are made of. -/
def watched : List Char := ['g', 'G', 'h', 'H', 'w', 'W', ':', '-', '/', '.'] ++ digits

/-- What stands before a watched character inside a replacement. -/
def entityBytes : List Char := ['&', '#', '8', '2', '0', ';']

/-- A watched character of the text is one of the raw text, or stands inside a replacement. -/
theorem escaped_place {c : Char} {u v : List Char} (made : escaped c before ctx = u ++ z :: v) (watch : z ∈ watched) :
    u = [] ∧ c = z ∨ ∃ w y, u = w ++ [y] ∧ y ∈ entityBytes ∧ (v = [] → z ∈ ['/', '.']) := by
  have table : ∀ e ∈ replacements, e.2.IsChain (fun y x => x ∈ watched → y ∈ entityBytes) ∧
      (∀ x ∈ watched, e.2.head? = some x → e.1 = x) ∧ ∀ x ∈ watched, e.2.getLast? = some x → x ∈ ['/', '.'] := by
    decide
  have ordinary : ∀ x ∈ markdownSpecials, x ∉ watched := by decide
  rcases escaped_cases c before ctx with listed | ⟨special, _, same⟩ | ⟨d, plain, same⟩
  · obtain ⟨chain, first, last⟩ := table _ listed
    rw [made] at chain first last
    rcases eq_nil_or_concat u with rfl | ⟨w, y, rfl⟩
    · exact .inl ⟨rfl, first z watch rfl⟩
    rw [concat_eq_append, append_assoc] at chain
    have adjacent := (isChain_append_cons_cons.mp chain).2.1 watch
    refine .inr ⟨w, y, concat_eq_append, adjacent, ?_⟩
    rintro rfl
    exact last z watch (by simp)
  · rw [same] at made
    have listed : z ∈ ['\\', c] := by
      rw [made]
      simp
    rcases mem_pair.mp listed with rfl | rfl
    · exact absurd watch (by decide)
    · exact absurd watch (ordinary z special)
  · rw [same] at made
    cases u with
    | cons x u => simp at made
    | nil =>
      cases made
      rcases plain.same with same | ⟨_, rfl⟩
      · exact .inl ⟨rfl, same.symm⟩
      · exact absurd watch (by decide)

/-- After anything but an entity, a watched character is the raw one. -/
theorem boundary {y : Char} (text : esc ctx raw = l ++ y :: z :: q) (watch : z ∈ watched)
    (apart : y ∉ entityBytes) : ∃ b a v, raw = b ++ z :: a ∧ esc ctx b = l ++ [y] ∧ escaped z b ctx = z :: v ∧
      q = v ++ (pieces ctx (b ++ [z]) a).flatten := by
  rw [append_cons] at text
  obtain ⟨b, c, a, u, v, split, made, front, back⟩ := located text
  rcases escaped_place made watch with ⟨rfl, rfl⟩ | ⟨w, x, rfl, entity, _⟩
  · exact ⟨b, a, v, split, by rw [front, append_nil]; rfl, made, back⟩
  rw [← append_assoc] at front
  obtain ⟨_, same⟩ := append_inj' front rfl
  cases same
  exact absurd entity apart

/-- At the end of the text a watched character other than the two that are marked before is the raw one. -/
theorem peeled (text : esc ctx raw = l ++ [z]) (watch : z ∈ watched) (other : z ∉ ['/', '.']) :
    ∃ b, raw = b ++ [z] ∧ esc ctx b = l ∧ escaped z b ctx = [z] := by
  obtain ⟨b, c, a, u, v, split, made, front, back⟩ := located text
  obtain ⟨rfl, rest⟩ := append_eq_nil_iff.mp back.symm
  rcases escaped_place made watch with ⟨rfl, rfl⟩ | ⟨w, x, rfl, _, last⟩
  · rw [pieces_nil rest] at split
    exact ⟨b, split, by rw [front, append_nil]; rfl, made⟩
  · exact absurd (last rfl) other

/-- No text between the markers makes a reference to an issue. -/
theorem esc_reference {g h d : Char} (isG : g ∈ ['g', 'G']) (isH : h ∈ ['h', 'H']) (digit : d ∈ digits) :
    ¬ [g, h, '-', d] <:+: esc ctx raw := by
  have watch : ∀ x ∈ ['g', 'G'] ++ ['h', 'H'], x ∈ watched ∧ x ∉ ['/', '.'] := by decide
  obtain ⟨watchG, markG⟩ := watch g (mem_append_left _ isG)
  obtain ⟨watchH, markH⟩ := watch h (mem_append_right _ isH)
  rintro ⟨l, q, text⟩
  have split : esc ctx raw = (l ++ [g, h]) ++ '-' :: d :: q := by simp [← text]
  obtain ⟨b, _, _, _, dash, _, _⟩ := boundary split (mem_append_right _ digit) (by decide)
  obtain ⟨b, _, after, made⟩ := peeled dash (by decide) (by decide)
  rw [append_cons] at after
  obtain ⟨b, rfl, after, _⟩ := peeled after watchH markH
  obtain ⟨b, rfl, _, _⟩ := peeled after watchG markG
  have marked : afterGh (b ++ [g] ++ [h]) = true := by
    simpa [afterGh] using And.intro (mem_pair.mp isG) (mem_pair.mp isH)
  simp only [escaped, marked] at made
  simp [zeroWidth] at made

theorem esc_scheme : ¬ [':', '/', '/'] <:+: esc ctx raw := by
  rintro ⟨l, q, text⟩
  have split : esc ctx raw = (l ++ [':']) ++ '/' :: '/' :: q := by simp [← text]
  obtain ⟨b, _, v, _, slash, made, _⟩ := boundary split (by decide) (by decide)
  have shorter : esc ctx b = l ++ ':' :: '/' :: [] := by simp [slash]
  obtain ⟨b, a, _, rfl, colon, _, back⟩ := boundary shorter (by decide) (by decide)
  rw [pieces_nil (append_eq_nil_iff.mp back.symm).2] at made
  obtain ⟨b, rfl, _, _⟩ := peeled colon (by decide) (by decide)
  have marked : afterScheme (b ++ [':'] ++ ['/']) = true := by simp [afterScheme]
  simp only [escaped, marked] at made
  simp [zeroWidth] at made

theorem esc_www {a b c : Char} (isA : a ∈ ['w', 'W']) (isB : b ∈ ['w', 'W']) (isC : c ∈ ['w', 'W']) :
    ¬ [a, b, c, '.'] <:+: esc ctx raw := by
  have watch : ∀ x ∈ ['w', 'W'], isW x = true ∧ x ∈ watched ∧ x ∉ ['/', '.'] ∧ x ∉ entityBytes := by decide
  obtain ⟨first, watchA, markA, _⟩ := watch a isA
  obtain ⟨second, watchB, markB, _⟩ := watch b isB
  obtain ⟨third, watchC, markC, apart⟩ := watch c isC
  rintro ⟨l, q, text⟩
  have split : esc ctx raw = (l ++ [a, b]) ++ c :: '.' :: q := by simp [← text]
  obtain ⟨r, _, _, _, after, made, _⟩ := boundary split (by decide) apart
  obtain ⟨r, rfl, after, _⟩ := peeled after watchC markC
  rw [append_cons] at after
  obtain ⟨r, rfl, after, _⟩ := peeled after watchB markB
  obtain ⟨r, rfl, _, _⟩ := peeled after watchA markA
  have marked : afterWww (r ++ [a] ++ [b] ++ [c]) = true := by simp [afterWww, first, second, third]
  simp only [escaped, marked] at made
  simp [zeroWidth] at made

/-- What an escaped text may hold. -/
structure Inert (ctx : Context) (kept text : List Char) : Prop where
  angles : ∀ piece ∈ pieces ctx [] kept, '<' ∈ piece ∨ '>' ∈ piece → piece = ['<', 'b', 'r', '>']
  ampersands : ∀ piece ∈ pieces ctx [] kept, '&' ∈ piece → ∃ c, (c, piece) ∈ replacements
  mentions : ∀ before c after, kept = before ++ c :: after → c = '@' ∨ c = '#' → escaped c before ctx = c :: zeroWidth
  specials : ctx = .markdown → ∀ piece ∈ pieces ctx [] kept, ∀ x ∈ piece, x ∈ markdownSpecials →
    ∃ c ∈ markdownSpecials, piece = ['\\', c]
  reference : ∀ g ∈ ['g', 'G'], ∀ h ∈ ['h', 'H'], ∀ d ∈ digits, ¬ [g, h, '-', d] <:+: text
  scheme : ¬ [':', '/', '/'] <:+: text
  www : ∀ a ∈ ['w', 'W'], ∀ b ∈ ['w', 'W'], ∀ c ∈ ['w', 'W'], ¬ [a, b, c, '.'] <:+: text

theorem piece_cases {piece : List Char} (member : piece ∈ pieces ctx before raw) :
    (∃ c, (c, piece) ∈ replacements) ∨ (∃ c ∈ markdownSpecials, piece = ['\\', c]) ∨
      ∃ d, d ∉ ['&', '<', '>', '@', '#'] ∧ (ctx = .markdown → d ∉ markdownSpecials) ∧ piece = [d] := by
  induction raw generalizing before with
  | nil => cases member
  | cons c rest ih =>
    rcases mem_cons.mp member with rfl | later
    · rcases escaped_cases c before ctx with listed | ⟨special, _, same⟩ | ⟨d, plain, same⟩
      · exact .inl ⟨c, listed⟩
      · exact .inr (.inl ⟨c, special, same⟩)
      · exact .inr (.inr ⟨d, plain.tame, plain.unspecial, same⟩)
    · exact ih later

theorem infix_ending {text ending found : List Char} (cut : ending = [] ∨ ending = ['…']) (other : '…' ∉ found)
    (inside : found <:+: text ++ ending) : found <:+: text := by
  rcases cut with rfl | rfl
  · rw [append_nil] at inside
    exact inside
  rcases infix_concat_iff.mp inside with last | before
  · rcases suffix_concat_iff.mp last with rfl | ⟨front, rfl, _⟩
    · exact nil_infix
    · exact absurd (by simp) other
  · exact before

/-- Escaped text is inert and bounded, and it is all of the text where that fits, else cut as late as its limit allows. -/
theorem escaped_inert (s : List Char) (limit : Nat) (ctx : Context) :
    ∃ kept ending, escapeIn s limit ctx = some ((pieces ctx [] kept).flatten ++ ending) ∧ kept <+: stripped s ∧
      (ending = [] ∨ ending = ['…']) ∧ Inert ctx kept ((pieces ctx [] kept).flatten ++ ending) ∧
      len ((pieces ctx [] kept).flatten ++ ending) ≤ limit ∧ len ((pieces ctx [] kept).flatten ++ ending) ≤ 8 * len s ∧
      Longest ctx (stripped s) limit kept ending := by
  obtain ⟨kept, ending, same, first, cut, fits, short, longest⟩ := escapeIn_spec s limit ctx
  refine ⟨kept, ending, same, first, cut, ⟨?_, ?_, ?_, ?_, ?_, ?_, ?_⟩, fits, ?_, longest⟩
  · intro piece member angle
    have table : ∀ e ∈ replacements, '<' ∈ e.2 ∨ '>' ∈ e.2 → e.2 = ['<', 'b', 'r', '>'] := by decide
    rcases piece_cases member with ⟨c, listed⟩ | ⟨c, special, rfl⟩ | ⟨d, tame, _, rfl⟩
    · exact table _ listed angle
    · exact absurd angle ((by decide : ∀ c ∈ markdownSpecials, ¬ ('<' ∈ ['\\', c] ∨ '>' ∈ ['\\', c])) c special)
    · rcases angle with here | here
      all_goals obtain rfl := mem_singleton.mp here
      all_goals exact absurd (by decide) tame
  · intro piece member here
    rcases piece_cases member with listed | ⟨c, special, rfl⟩ | ⟨d, tame, _, rfl⟩
    · exact listed
    · exact absurd here ((by decide : ∀ c ∈ markdownSpecials, '&' ∉ ['\\', c]) c special)
    · obtain rfl := mem_singleton.mp here
      exact absurd (by decide) tame
  · rintro before c after _ (rfl | rfl)
    · simp [escaped]
    · simp [escaped]
  · intro markdown piece member x inside special
    have table : ∀ e ∈ replacements, ∀ x ∈ e.2, x ∉ markdownSpecials := by decide
    rcases piece_cases member with ⟨c, listed⟩ | escape | ⟨d, _, unspecial, rfl⟩
    · exact absurd special (table _ listed x inside)
    · exact escape
    · exact absurd special (mem_singleton.mp inside ▸ unspecial markdown)
  · intro g isG h isH d digit inside
    have other : ∀ g ∈ ['g', 'G'], ∀ h ∈ ['h', 'H'], ∀ d ∈ digits, '…' ∉ [g, h, '-', d] := by decide
    exact esc_reference isG isH digit (infix_ending cut (other g isG h isH d digit) inside)
  · exact fun inside => esc_scheme (infix_ending cut (by decide) inside)
  · intro a isA b isB c isC inside
    have other : ∀ a ∈ ['w', 'W'], ∀ b ∈ ['w', 'W'], ∀ c ∈ ['w', 'W'], '…' ∉ [a, b, c, '.'] := by decide
    exact esc_www isA isB isC (infix_ending cut (other a isA b isB c isC) inside)
  · calc
      _ ≤ len (esc ctx (stripped s)) := short
      _ ≤ 8 * len (stripped s) := len_esc _
      _ ≤ 8 * len s := Nat.mul_le_mul_left 8 (len_stripped s)

theorem escaped_inert_sample :
    escapeIn ['@', 'a'] 20 .markdown = some ('@' :: zeroWidth ++ ['a']) := by
  obtain ⟨kept, ending, same, -, -, -, -, -, longest⟩ := escaped_inert ['@', 'a'] 20 .markdown
  obtain ⟨rfl, rfl⟩ := longest.whole (by decide)
  exact same

end FerroLoop.Ledger.Render

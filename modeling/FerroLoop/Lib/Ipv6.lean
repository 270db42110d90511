import FerroLoop.Lib.Decimals
import Mathlib.Data.List.TakeWhile

/-!
IPv6 literals as `std::net::Ipv6Addr` reads them: groups of hexadecimal digits, at most one `::`, and an IPv4 literal in
the place of the last two groups. A literal is made of hexadecimal digits, colons and dots, and has a colon in it.
-/

namespace FerroLoop.Ipv6

open List

def isHexDigit (c : Char) : Bool := c.isDigit || ('a' ≤ c && c ≤ 'f') || ('A' ≤ c && c ≤ 'F')

/-- What a literal is made of. -/
def literalChar (c : Char) : Bool := isHexDigit c || c == ':' || c == '.'

/-- One to four hexadecimal digits. -/
def readGroup (text : List Char) : Option (List Char) :=
  let digits := text.takeWhile isHexDigit
  if digits.isEmpty || 4 < digits.length then none else some (text.dropWhile isHexDigit)

/-- A decimal number up to 255 without a zero in front. -/
def readOctet (text : List Char) : Option (List Char) :=
  let digits := text.takeWhile Char.isDigit
  if digits.isEmpty || 3 < digits.length || (digits.head? == some '0' && 1 < digits.length) || 255 < Decimals.value digits then
    none
  else some (text.dropWhile Char.isDigit)

/-- A separator before every part but the first. -/
def readSeparator (separator : Char) (inner : List Char → Option (List Char)) : Nat → List Char → Option (List Char)
  | 0, text => inner text
  | _ + 1, [] => none
  | _ + 1, c :: rest => if c = separator then inner rest else none

def readIpv4 (text : List Char) : Option (List Char) := do
  let text ← readSeparator '.' readOctet 0 text
  let text ← readSeparator '.' readOctet 1 text
  let text ← readSeparator '.' readOctet 2 text
  readSeparator '.' readOctet 3 text

/-- Reads groups while there is room: how many were read, whether they ended with an IPv4 literal, and what is left. -/
def readGroups : Nat → Nat → List Char → Nat × Bool × List Char
  | 0, i, text => (i, false, text)
  | room + 1, i, text =>
    match if room = 0 then none else readSeparator ':' readIpv4 i text with
    | some rest => (i + 2, true, rest)
    | none =>
      match readSeparator ':' readGroup i text with
      | some rest => readGroups room (i + 1) rest
      | none => (i, false, text)

def isIpv6 (s : String) : Bool :=
  match readGroups 8 0 s.toList with
  | (8, _, rest) => rest.isEmpty
  | (_, true, _) => false
  | (size, false, ':' :: ':' :: rest) => (readGroups (8 - (size + 1)) 0 rest).2.2.isEmpty
  | _ => false

/-- The second text is left when characters of a literal are read from the first. -/
def Reads (text rest : List Char) : Prop := ∃ front, text = front ++ rest ∧ ∀ c ∈ front, literalChar c = true

theorem Reads.refl (text : List Char) : Reads text text := ⟨[], rfl, nofun⟩

theorem Reads.trans {a b c : List Char} (first : Reads a b) (second : Reads b c) : Reads a c := by
  obtain ⟨front, rfl, allowed⟩ := first
  obtain ⟨front', rfl, allowed'⟩ := second
  refine ⟨front ++ front', (append_assoc ..).symm, ?_⟩
  intro d member
  rcases mem_append.mp member with here | there
  · exact allowed d here
  · exact allowed' d there

theorem Reads.cons {c : Char} {text rest : List Char} (allowed : literalChar c = true) (later : Reads text rest) :
    Reads (c :: text) rest := by
  obtain ⟨front, rfl, others⟩ := later
  refine ⟨c :: front, rfl, ?_⟩
  intro d member
  rcases mem_cons.mp member with rfl | further
  · exact allowed
  · exact others d further

theorem Reads.dropWhile {p : Char → Bool} (allowed : ∀ c, p c = true → literalChar c = true) (text : List Char) :
    Reads text (text.dropWhile p) :=
  ⟨text.takeWhile p, takeWhile_append_dropWhile.symm, fun c member => allowed c (mem_takeWhile_imp member)⟩

variable {rest text : List Char}

theorem readGroup_reads (read : readGroup text = some rest) : Reads text rest := by
  unfold readGroup at read
  dsimp only at read
  split at read
  · cases read
  · cases read
    refine Reads.dropWhile (fun c hex => ?_) text
    simp [literalChar, hex]

theorem readOctet_reads (read : readOctet text = some rest) : Reads text rest := by
  unfold readOctet at read
  dsimp only at read
  split at read
  · cases read
  · cases read
    refine Reads.dropWhile (fun c digit => ?_) text
    simp [literalChar, isHexDigit, digit]

theorem readSeparator_reads {separator : Char} {inner : List Char → Option (List Char)}
    (allowed : literalChar separator = true) (each : ∀ {text rest}, inner text = some rest → Reads text rest) {i : Nat}
    (read : readSeparator separator inner i text = some rest) : Reads text rest := by
  cases i with
  | zero => exact each read
  | succ i =>
    rcases text with _ | ⟨c, text⟩
    · cases read
    rw [readSeparator] at read
    split at read
    · rename_i same
      subst same
      exact Reads.cons allowed (each read)
    · cases read

theorem readIpv4_reads (read : readIpv4 text = some rest) : Reads text rest := by
  unfold readIpv4 at read
  simp only [Option.bind_eq_bind, Option.bind_eq_some_iff] at read
  obtain ⟨_, first, _, second, _, third, fourth⟩ := read
  have dot : literalChar '.' = true := by decide
  exact (readSeparator_reads dot readOctet_reads first).trans ((readSeparator_reads dot readOctet_reads second).trans
    ((readSeparator_reads dot readOctet_reads third).trans (readSeparator_reads dot readOctet_reads fourth)))

theorem readGroups_reads (room i : Nat) (text : List Char) : Reads text (readGroups room i text).2.2 := by
  have colon : literalChar ':' = true := by decide
  induction room generalizing i text with
  | zero => exact Reads.refl text
  | succ room ih =>
    unfold readGroups
    split
    · rename_i rest found
      split at found
      · cases found
      · exact readSeparator_reads colon readIpv4_reads found
    · split
      · rename_i rest found
        exact (readSeparator_reads colon readGroup_reads found).trans (ih (i + 1) rest)
      · exact Reads.refl text

/-- Groups after the first start with a colon. -/
theorem readGroups_colon {room i : Nat} {text : List Char} (more : (readGroups room (i + 1) text).1 ≠ i + 1) :
    ':' ∈ text := by
  have separated : ∀ {inner : List Char → Option (List Char)} {rest},
      readSeparator ':' inner (i + 1) text = some rest → ':' ∈ text := by
    intro inner rest found
    rcases text with _ | ⟨c, text⟩
    · cases found
    rw [readSeparator] at found
    split at found
    · rename_i same
      rw [same]
      exact mem_cons_self
    · cases found
  cases room with
  | zero => exact absurd rfl more
  | succ room =>
    unfold readGroups at more
    split at more
    · rename_i rest found
      split at found
      · cases found
      · exact separated found
    · split at more
      · rename_i rest found
        exact separated found
      · exact absurd rfl more

theorem readGroups_eight {mixed : Bool} (read : readGroups 8 0 text = (8, mixed, rest)) : ':' ∈ text := by
  unfold readGroups at read
  split at read
  · have count := congrArg Prod.fst read
    omega
  split at read
  · rename_i later found
    have inside : ':' ∈ later := @readGroups_colon 7 0 later (by rw [read]; exact Nat.ne_of_beq_eq_false rfl)
    obtain ⟨front, whole, -⟩ := readGroup_reads found
    rw [whole]
    exact mem_append_right front inside
  · cases read

/-- An IPv6 literal is made of hexadecimal digits, colons and dots, and has a colon. -/
theorem isIpv6_chars {s : String} (literal : isIpv6 s = true) :
    ':' ∈ s.toList ∧ ∀ c ∈ s.toList, literalChar c = true := by
  have start := readGroups_reads 8 0 s.toList
  unfold isIpv6 at literal
  split at literal
  · rename_i rest whole
    rw [whole, isEmpty_iff.mp literal] at start
    obtain ⟨front, same, allowed⟩ := start
    rw [append_nil] at same
    rw [← same] at allowed
    exact ⟨readGroups_eight whole, allowed⟩
  · cases literal
  · rename_i size rest _ whole
    have further := readGroups_reads (8 - (size + 1)) 0 rest
    rw [isEmpty_iff.mp literal] at further
    have colon : literalChar ':' = true := by decide
    rw [whole] at start
    obtain ⟨front, same, allowed⟩ := start.trans (Reads.cons colon (Reads.cons colon further))
    rw [append_nil] at same
    rw [← same] at allowed
    refine ⟨?_, allowed⟩
    obtain ⟨before, split', -⟩ := start
    rw [split']
    exact mem_append_right before mem_cons_self
  · cases literal

end FerroLoop.Ipv6

import Mathlib.Data.List.TakeWhile
import Mathlib.Algebra.Ring.Nat
import Mathlib.Data.String.Basic

/-!
Text as Rust's `str` treats it: trimming by the Unicode property White_Space, lower case and
comparison on ASCII letters only, and the searches for a separator, a start or an end.
-/

namespace FerroLoop.Text

open List UInt32

def isWhitespace (c : Char) : Bool :=
  let n := c.toNat
  (0x9 ≤ n && n ≤ 0xD) || n == 0x20 || n == 0x85 || n == 0xA0 || n == 0x1680 || (0x2000 ≤ n && n ≤ 0x200A) ||
    n == 0x2028 || n == 0x2029 || n == 0x202F || n == 0x205F || n == 0x3000

/-- The Unicode property Cc. -/
def isControl (c : Char) : Bool := c.toNat ≤ 0x1F || (0x7F ≤ c.toNat && c.toNat ≤ 0x9F)

def trim (s : String) : String :=
  String.ofList ((s.toList.dropWhile isWhitespace).reverse.dropWhile isWhitespace).reverse

def toAsciiLowercase (s : String) : String :=
  String.ofList (s.toList.map Char.toLower)

def toAsciiUppercase (s : String) : String :=
  String.ofList (s.toList.map Char.toUpper)

def eqIgnoreAsciiCase (a b : String) : Bool :=
  toAsciiLowercase a == toAsciiLowercase b

def trimEndMatches (c : Char) (s : String) : String :=
  String.ofList (s.toList.reverse.dropWhile (· == c)).reverse

def startsWith (s start : String) : Bool := start.toList.isPrefixOf s.toList

def stripPrefix (s start : String) : Option String :=
  if startsWith s start then some (String.ofList (s.toList.drop start.toList.length)) else none

def stripSuffix (s suffix : String) : Option String :=
  if suffix.toList.isSuffixOf s.toList then
    some (String.ofList (s.toList.take (s.toList.length - suffix.toList.length)))
  else none

/-- What stands before and after the first occurrence of a separator. -/
def splitAtFirst (sep : List Char) : List Char → Option (List Char × List Char)
  | [] => if sep = [] then some ([], []) else none
  | c :: rest =>
    if sep.isPrefixOf (c :: rest) then some ([], (c :: rest).drop sep.length)
    else (splitAtFirst sep rest).map fun parts => (c :: parts.1, parts.2)

def splitOnce (sep s : String) : Option (String × String) :=
  (splitAtFirst sep.toList s.toList).map fun parts => (String.ofList parts.1, String.ofList parts.2)

/-- What stands before and after the last occurrence of a character. -/
def rsplitOnce (c : Char) (s : String) : Option (String × String) :=
  match s.toList.reverse.dropWhile (· != c) with
  | [] => none
  | _ :: before => some (String.ofList before.reverse, String.ofList (s.toList.reverse.takeWhile (· != c)).reverse)

/-- The lines of a text, each without the line feed that ends it and a carriage return before that. -/
def lines (s : String) : List String :=
  let pieces := (s.toList.splitOn '\n').map String.ofList
  (pieces.dropLast.map fun line => (stripSuffix line "\r").getD line) ++ (pieces.getLast?.filter (· ≠ "")).toList

def textBytes (text : String) : List UInt8 := text.toByteArray.data.toList

@[simp] theorem textBytes_append (a b : String) : textBytes (a ++ b) = textBytes a ++ textBytes b := by
  show (a ++ b).toByteArray.data.toList = _
  rfl

theorem textBytes_inj {a b : String} (same : textBytes a = textBytes b) : a = b := by
  have arrays := Array.ext' same
  exact String.toByteArray_inj.mp (ByteArray.ext arrays)

/-- Texts with starts that differ somewhere are not one text. -/
theorem append_ne {first second a b : String} (differ : first.toList.zip second.toList |>.any fun pair => pair.1 != pair.2) :
    first ++ a ≠ second ++ b := by
  intro same
  obtain ⟨pair, member, apart⟩ := any_eq_true.mp differ
  obtain ⟨n, bound, here⟩ := getElem_of_mem member
  have lists := congrArg (fun s : String => s.toList[n]?) same
  rw [length_zip] at bound
  simp only [String.toList_append] at lists
  rw [getElem?_append_left (by omega), getElem?_append_left (by omega)] at lists
  rw [getElem_zip] at here
  rw [getElem?_eq_getElem (by omega), getElem?_eq_getElem (by omega), Option.some.injEq] at lists
  rw [← here, bne_iff_ne] at apart
  exact apart lists

theorem eqIgnoreAsciiCase_iff {a b : String} : eqIgnoreAsciiCase a b ↔ toAsciiLowercase a = toAsciiLowercase b :=
  beq_iff_eq

theorem toAsciiLowercase_toList (s : String) : (toAsciiLowercase s).toList = s.toList.map Char.toLower :=
  String.toList_ofList

theorem dropWhile_none {α : Type} {p : α → Bool} {xs : List α} (none : ∀ x ∈ xs, p x = false) : xs.dropWhile p = xs := by
  cases xs with
  | nil => rfl
  | cons x rest => rw [dropWhile_cons, none x mem_cons_self, if_neg Bool.false_ne_true]

variable {s : String} {c : Char}

/-- A text without whitespace is its own trimming. -/
theorem trim_eq_self (solid : ∀ c ∈ s.toList, isWhitespace c = false) : trim s = s := by
  have backwards : ∀ c ∈ s.toList.reverse, isWhitespace c = false := fun c member => solid c (mem_reverse.mp member)
  rw [trim, dropWhile_none solid, dropWhile_none backwards, reverse_reverse, String.ofList_toList]

theorem startsWith_iff {start : String} : startsWith s start = true ↔ ∃ rest, s = start ++ rest := by
  unfold startsWith
  rw [ isPrefixOf_iff_prefix]
  constructor
  · rintro ⟨rest, same⟩
    refine ⟨String.ofList rest, String.toList_inj.mp ?_⟩
    rw [String.toList_append, String.toList_ofList, same]
  · rintro ⟨rest, same⟩
    exact ⟨rest.toList, by rw [same, String.toList_append]⟩

theorem stripPrefix_eq_some {start rest : String} : stripPrefix s start = some rest ↔ s = start ++ rest := by
  unfold stripPrefix
  constructor
  · intro found
    split at found
    · rename_i starts
      obtain ⟨others, same⟩ := startsWith_iff.mp starts
      cases found
      rw [same, String.toList_append, drop_left, String.ofList_toList]
    · cases found
  · intro same
    rw [if_pos (startsWith_iff.mpr ⟨rest, same⟩), same, String.toList_append, drop_left, String.ofList_toList]

theorem mem_of_mem_dropWhile {α : Type} {p : α → Bool} {x : α} {xs : List α} (member : x ∈ xs.dropWhile p) : x ∈ xs :=
  (dropWhile_sublist p).subset member

theorem mem_trim (member : c ∈ (trim s).toList) : c ∈ s.toList := by
  unfold trim at member
  rw [String.toList_ofList, mem_reverse] at member
  exact mem_of_mem_dropWhile (mem_reverse.mp (mem_of_mem_dropWhile member))

/-- Trimming leaves nothing of whitespace only. -/
theorem isWhitespace_of_trim (blank : trim s = "") (member : c ∈ s.toList) : isWhitespace c = true := by
  unfold trim at blank
  have chars := congrArg String.toList blank
  rw [String.toList_ofList, String.toList_empty, reverse_eq_nil_iff, dropWhile_eq_nil_iff] at chars
  rw [← takeWhile_append_dropWhile (p := isWhitespace) (l := s.toList), mem_append] at member
  rcases member with front | back
  · exact mem_takeWhile_imp front
  · exact chars c (mem_reverse.mpr back)

theorem mem_trimEndMatches {d : Char} (member : c ∈ (trimEndMatches d s).toList) : c ∈ s.toList := by
  unfold trimEndMatches at member
  rw [String.toList_ofList, mem_reverse] at member
  exact mem_reverse.mp (mem_of_mem_dropWhile member)

theorem mem_stripSuffix {suffix left : String} (found : stripSuffix s suffix = some left)
    (member : c ∈ left.toList) : c ∈ s.toList := by
  unfold stripSuffix at found
  split at found
  · cases found
    rw [String.toList_ofList] at member
    exact mem_of_mem_take member
  · cases found

/-- Lower case makes lower-case letters only. -/
theorem isLower_toLower (changed : c.toLower ≠ c) : c.toLower.isLower = true := by
  unfold Char.toLower at changed ⊢
  split
  · rename_i upper
    have low : 65 ≤ c.val.toNat := le_iff_toNat_le.mp upper.1
    have high : c.val.toNat ≤ 90 := le_iff_toNat_le.mp upper.2
    have moved : (c.val + ('a'.val - 'A'.val)).toNat = c.val.toNat + 32 := by
      rw [UInt32.toNat_add]
      have shift : ('a'.val - 'A'.val).toNat = 32 := rfl
      omega
    unfold Char.isLower
    have least : 'a'.val.toNat = 97 := rfl
    have most : 'z'.val.toNat = 122 := rfl
    simp only [Bool.and_eq_true, decide_eq_true_eq, ge_iff_le, le_iff_toNat_le, moved, least, most]
    omega
  · rename_i other
    rw [dif_neg other] at changed
    exact absurd rfl changed

theorem toLower_toLower (c : Char) : c.toLower.toLower = c.toLower := by
  by_cases kept : c.toLower = c
  · rw [kept, kept]
  have lower := isLower_toLower kept
  generalize c.toLower = d at lower ⊢
  unfold Char.toLower
  rw [dif_neg]
  rintro ⟨_, top⟩
  have high : d.val.toNat ≤ 90 := le_iff_toNat_le.mp top
  unfold Char.isLower at lower
  simp only [Bool.and_eq_true, decide_eq_true_eq, ge_iff_le, le_iff_toNat_le] at lower
  have low : 97 ≤ d.val.toNat := lower.1
  omega

theorem toAsciiLowercase_idem (s : String) : toAsciiLowercase (toAsciiLowercase s) = toAsciiLowercase s := by
  apply String.toList_inj.mp
  rw [toAsciiLowercase_toList, toAsciiLowercase_toList, map_map]
  exact map_congr_left fun c _ => toLower_toLower c

theorem mem_toAsciiLowercase (other : c.isLower = false)
    (member : c ∈ (toAsciiLowercase s).toList) : c ∈ s.toList := by
  rw [toAsciiLowercase_toList] at member
  obtain ⟨d, here, same⟩ := mem_map.mp member
  by_cases kept : d.toLower = d
  · rw [← same, kept]
    exact here
  · have lower := isLower_toLower kept
    rw [same, other] at lower
    cases lower

/-- A separator is found where the character it ends with has not stood before. -/
theorem splitAtFirst_append {last : Char} {sep text : List Char} (absent : last ∉ text) (once : last ∉ sep) :
    splitAtFirst (sep ++ [last]) (text ++ (sep ++ [last])) = some (text, []) := by
  induction text with
  | nil =>
    cases whole : sep ++ [last] with
    | nil => cases append_ne_nil_of_right_ne_nil _ (cons_ne_nil _ _) whole
    | cons c rest =>
      rw [nil_append, splitAtFirst, if_pos ( isPrefixOf_iff_prefix.mpr (prefix_refl _)), drop_length]
  | cons c rest ih =>
    obtain ⟨other, further⟩ := ne_and_not_mem_of_not_mem_cons absent
    rw [cons_append, splitAtFirst, if_neg, ih further]
    · rfl
    rw [ isPrefixOf_iff_prefix]
    rintro ⟨more, same⟩
    -- The last character of the separator would stand before the end of the text.
    have lengths := congrArg List.length same
    have more_ne : more ≠ [] := by
      rintro rfl
      simp only [append_nil, length_cons, length_append] at lengths
      omega
    obtain ⟨front, final, rfl⟩ := eq_nil_or_concat more |>.resolve_left more_ne
    have front_same : sep ++ last :: front = c :: rest ++ sep := by
      have shape : (sep ++ last :: front) ++ [final] = (c :: rest ++ sep) ++ [last] := by
        simpa using same
      exact (append_inj_left' shape rfl)
    have inside : last ∈ c :: rest ++ sep := by
      rw [← front_same]
      exact mem_append_right _ mem_cons_self
    rcases mem_append.mp inside with early | late
    · exact absent early
    · exact once late

theorem trim_spaced (solid : ∀ c ∈ s.toList, isWhitespace c = false) : trim (" " ++ s ++ " ") = s := by
  apply String.toList_inj.mp
  unfold trim
  have spelled : (" " ++ s ++ " ").toList = ' ' :: (s.toList ++ [' ']) := by
    rw [String.toList_append, String.toList_append]
    rfl
  have space : isWhitespace ' ' = true := by decide
  rw [spelled, String.toList_ofList, dropWhile_cons_of_pos space]
  rcases chars : s.toList with _ | ⟨c, rest⟩
  · rfl
  rw [chars] at solid
  rw [cons_append, dropWhile_cons_of_neg (by rw [solid c mem_cons_self]; exact Bool.false_ne_true),
    reverse_cons, reverse_append]
  show (List.dropWhile isWhitespace (' ' :: (rest.reverse ++ [c]))).reverse = c :: rest
  rw [dropWhile_cons_of_pos space, dropWhile_none, reverse_append, reverse_reverse]
  · rfl
  intro d member
  apply solid
  rcases mem_append.mp member with inside | first
  · exact mem_cons_of_mem _ (mem_reverse.mp inside)
  · rw [mem_singleton.mp first]
    exact mem_cons_self

end FerroLoop.Text

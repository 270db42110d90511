import FerroLoop.Store.Codec
import Mathlib.Data.Bool.AllAny

/-!
The journal of an install transaction, `crates/install/src/journal.rs`: one JSON line for each step,
written before the step runs, and read again after a crash that may have cut the file anywhere.
-/

namespace FerroLoop.Install

open List hiding head tail
open Store Checked
open Text (textBytes textBytes_append)

variable {ι : Type}

/-- The intent of a transaction is only carried. -/
inductive JournalOp (ι : Type) where
  | begin (intent : ι)
  | backup (index : Nat)
  | stage
  | verify
  | publish
  | published
  | linkCurrent
  | writeLauncher
  | writeAliases
  | writeReceipt
  | commit
  | rollbackBegin
  | rollbackDone
  deriving DecidableEq

structure JournalLine (ι : Type) where
  v : Nat
  txn : Nat
  seq : Nat
  op : JournalOp ι
  deriving DecidableEq

def journalSchemaVersion : Nat := 1

def maxJournalBytes : Nat := 64 * 1024 * 1024

inductive PendingState where
  | inProgress
  | rollingBack
  | rolledBack
  deriving DecidableEq

structure Pending (ι : Type) where
  state : PendingState
  txn : Nat
  intent : ι
  ops : List (JournalOp ι)
  lastSeq : Nat

inductive Found (ι : Type) where
  | empty
  | pending (pending : Pending ι)
  | committed

inductive InstallError where
  | tooLarge
  | notText
  | unparsed (line : Nat)
  | version (line v : Nat)
  | noBegin
  | otherTransaction (seq txn : Nat)
  | notIncreasing

/-- `serde_json` on a journal line. -/
structure LineJson (ι : Type) where
  toString : JournalLine ι → String
  fromStr : String → Option (JournalLine ι)

variable (json : LineJson ι)

def JournalLine.toLine (line : JournalLine ι) : String := json.toString line ++ "\n"

def parseLines : Nat → List String → Except InstallError (List (JournalLine ι))
  | _, [] => .ok []
  | number, text :: rest =>
    match json.fromStr text with
    | none => .error (.unparsed number)
    | some line =>
      if line.v ≠ journalSchemaVersion then .error (.version number line.v)
      else do
        let parsed ← parseLines (number + 1) rest
        .ok (line :: parsed)

def follow (txn : Nat) : Nat → List (JournalLine ι) → Except InstallError (List (JournalOp ι) × Nat)
  | lastSeq, [] => .ok ([], lastSeq)
  | lastSeq, line :: rest =>
    if line.txn ≠ txn then .error (.otherTransaction line.seq line.txn)
    else if line.seq ≤ lastSeq then .error .notIncreasing
    else do
      let (ops, last) ← follow txn line.seq rest
      .ok (line.op :: ops, last)

def JournalOp.isRollbackBegin : JournalOp ι → Bool
  | .rollbackBegin => true
  | _ => false

def conclude (txn : Nat) (intent : ι) (ops : List (JournalOp ι)) (lastSeq : Nat) : Found ι :=
  match ops.getLast? with
  | some .commit => .committed
  | some .rollbackDone => .pending ⟨.rolledBack, txn, intent, ops, lastSeq⟩
  | _ => .pending ⟨if ops.any JournalOp.isRollbackBegin then .rollingBack else .inProgress, txn, intent, ops, lastSeq⟩

def judge : List (JournalLine ι) → Except InstallError (Found ι)
  | [] => .ok .empty
  | ⟨_, txn, seq, .begin intent⟩ :: rest => do
    let (ops, lastSeq) ← follow txn seq rest
    .ok (conclude txn intent ops lastSeq)
  | _ => .error .noBegin

/-- `read`, of a regular file's bytes. -/
def read (bytes : List UInt8) : Except InstallError (Found ι) :=
  if maxJournalBytes < bytes.length then .error .tooLarge
  else
    match String.fromUTF8? ⟨bytes.toArray⟩ with
    | none => .error .notText
    | some text => do
      let complete := text.toList.getLast? = some '\n'
      let lines := Text.lines text
      let parsed ← parseLines json 1 (if complete then lines else lines.dropLast)
      judge parsed

def newline : UInt8 := 10

/-- What `Journal::reopen` leaves of the file: nothing after the last newline. -/
def repaired (bytes : List UInt8) : List UInt8 := (bytes.reverse.dropWhile (· != newline)).reverse

/-- `Journal::reopen` and one `append`. -/
def reopenAppend (bytes : List UInt8) (line : JournalLine ι) : List UInt8 := repaired bytes ++ textBytes (line.toLine json)

def journalText : List (JournalLine ι) → String
  | [] => ""
  | line :: rest => line.toLine json ++ journalText rest

/-- The lines whose bytes, the newline included, all stand before the cut. -/
def whollyBefore : List (JournalLine ι) → Nat → List (JournalLine ι)
  | [], _ => []
  | line :: rest, cut =>
    let size := (line.toLine json).utf8ByteSize
    if size ≤ cut then line :: whollyBefore rest (cut - size) else []

/-- What lines of one transaction say. -/
def report : List (JournalLine ι) → Found ι
  | ⟨_, txn, seq, .begin intent⟩ :: rest => conclude txn intent (rest.map (·.op)) ((rest.getLast?.map (·.seq)).getD seq)
  | _ => .empty

structure Transaction (txn : Nat) (lines : List (JournalLine ι)) : Prop where
  begins : ∀ first ∈ lines.head?, ∃ intent, first.op = .begin intent
  version : ∀ line ∈ lines, line.v = journalSchemaVersion
  same : ∀ line ∈ lines, line.txn = txn
  increasing : lines.Pairwise fun a b => a.seq < b.seq

/-- What `serde_json` promises of a line it wrote: it reads it back, and no control character is raw. -/
structure LineJson.Faithful (line : JournalLine ι) : Prop where
  reads : json.fromStr (json.toString line) = some line
  plain : ∀ c ∈ (json.toString line).toList, 32 ≤ c.toNat

theorem whollyBefore_start (lines : List (JournalLine ι)) (cut : Nat) : whollyBefore json lines cut <+: lines := by
  induction lines generalizing cut with
  | nil => exact nil_prefix
  | cons line rest ih =>
    unfold whollyBefore
    dsimp only
    split
    · exact (prefix_cons_inj line).mpr (ih _)
    · exact nil_prefix

variable {json} {txn : Nat} {lines whole : List (JournalLine ι)} {cut : Nat}

namespace Transaction

theorem tail {line : JournalLine ι} (one : Transaction txn (line :: lines)) :
    (∀ later ∈ lines, later.txn = txn ∧ line.seq < later.seq) ∧ lines.Pairwise fun a b => a.seq < b.seq := by
  obtain ⟨first, rest⟩ := pairwise_cons.mp one.increasing
  exact ⟨fun later member => ⟨one.same later (mem_cons_of_mem _ member), first later member⟩, rest⟩

theorem follow_ok {lastSeq : Nat} (after : ∀ line ∈ lines, line.txn = txn ∧ lastSeq < line.seq)
    (increasing : lines.Pairwise fun a b => a.seq < b.seq) :
    follow txn lastSeq lines = .ok (lines.map (·.op), (lines.getLast?.map (·.seq)).getD lastSeq) := by
  induction lines generalizing lastSeq with
  | nil => rfl
  | cons line rest ih =>
    obtain ⟨same, above⟩ := after line mem_cons_self
    obtain ⟨first, rising⟩ := pairwise_cons.mp increasing
    have later := ih (fun next member => ⟨(after next (mem_cons_of_mem _ member)).1, first next member⟩) rising
    rw [follow, if_neg (not_not_intro same), if_neg (Nat.not_le.mpr above), later]
    cases rest with
    | nil => rfl
    | cons next rest =>
      rfl

theorem judged (one : Transaction txn lines) : judge lines = .ok (report lines) := by
  rcases lines with _ | ⟨line, rest⟩
  · rfl
  obtain ⟨intent, begins⟩ := one.begins line rfl
  obtain ⟨after, rising⟩ := one.tail
  obtain ⟨v, owner, seq, op⟩ := line
  have same : owner = txn := one.same _ mem_cons_self
  cases begins
  subst same
  rw [judge, follow_ok after rising]
  rfl

theorem take (one : Transaction txn lines) (start : whole <+: lines) : Transaction txn whole where
  begins := by
    intro first held
    cases whole with
    | nil => cases held
    | cons line rest =>
      obtain ⟨after, rfl⟩ := start
      exact one.begins first held
  version := fun line member => one.version line (start.subset member)
  same := fun line member => one.same line (start.subset member)
  increasing := one.increasing.sublist start.sublist

end Transaction

/-! ### The bytes up to a cut -/

@[simp] theorem textBytes_length (text : String) : (textBytes text).length = text.utf8ByteSize := rfl

theorem textBytes_eq (text : String) : textBytes text = text.toList.flatMap String.utf8EncodeChar := by
  unfold textBytes
  rw [← String.utf8Encode_toList]
  unfold List.utf8Encode
  rw [data_toByteArray]

theorem newline_mem {text : String} : newline ∈ textBytes text ↔ '\n' ∈ text.toList := by
  rw [textBytes_eq, mem_flatMap]
  constructor
  · rintro ⟨c, member, byte⟩
    have code : ∀ n, newline = UInt8.ofNat n → n % 256 = 10 := fun n same => (congrArg UInt8.toNat same).symm
    unfold String.utf8EncodeChar at byte
    dsimp only at byte
    generalize value : c.val.toNat = v at byte
    have ten : v = 10 := by
      split at byte
      · have low := code _ (mem_singleton.mp byte)
        omega
      -- Every byte of a longer character is above the ASCII range.
      · exfalso
        split at byte
        · simp only [mem_cons, not_mem_nil, or_false] at byte
          rcases byte with byte | byte <;> have low := code _ byte <;> omega
        split at byte
        · simp only [mem_cons, not_mem_nil, or_false] at byte
          rcases byte with byte | byte | byte <;> have low := code _ byte <;> omega
        · simp only [mem_cons, not_mem_nil, or_false] at byte
          rcases byte with byte | byte | byte | byte <;> have low := code _ byte <;> omega
    have feed : c = '\n' := Char.ext (UInt32.toNat_inj.mp (value.trans ten))
    rw [← feed]
    exact member
  · exact fun member => ⟨'\n', member, by decide⟩

theorem LineJson.Faithful.no_newline {line : JournalLine ι} (faithful : json.Faithful line) :
    newline ∉ textBytes (json.toString line) := by
  intro member
  have low := faithful.plain '\n' (newline_mem.mp member)
  exact absurd low (by decide)

/-- A cut leaves the lines before it and the start of one more, which has no newline. -/
theorem take_cut (faithful : ∀ line ∈ lines, json.Faithful line) (cut : Nat) :
    ∃ torn, (textBytes (journalText json lines)).take cut =
      textBytes (journalText json (whollyBefore json lines cut)) ++ torn ∧ newline ∉ torn := by
  induction lines generalizing cut with
  | nil => exact ⟨[], by rw [append_nil]; exact take_nil, not_mem_nil⟩
  | cons line rest ih =>
    have size : (textBytes (line.toLine json)).length = (line.toLine json).utf8ByteSize := rfl
    rw [journalText, textBytes_append, whollyBefore]
    split
    · rename_i fits
      obtain ⟨torn, same, none⟩ := ih (fun next member => faithful next (mem_cons_of_mem _ member))
        (cut - (line.toLine json).utf8ByteSize)
      refine ⟨torn, ?_, none⟩
      rw [take_append, take_of_length_le (by omega), size, same, journalText, textBytes_append, append_assoc]
    · rename_i short
      refine ⟨(textBytes (json.toString line)).take cut, ?_, ?_⟩
      · have split : textBytes (line.toLine json) = textBytes (json.toString line) ++ [newline] := textBytes_append _ _
        rw [split, length_append, length_singleton] at size
        rw [split, append_assoc, take_append_of_le_length (by omega)]
        rfl
      · exact fun member => (faithful line mem_cons_self).no_newline (mem_of_mem_take member)

theorem journalText_ends (whole : List (JournalLine ι)) :
    whole = [] ∨ ∃ before, journalText json whole = before ++ "\n" := by
  induction whole with
  | nil => exact .inl rfl
  | cons line rest ih =>
    right
    rcases ih with rfl | ⟨before, same⟩
    · exact ⟨json.toString line, String.append_empty⟩
    · exact ⟨line.toLine json ++ before, by rw [journalText, same, String.append_assoc]⟩

theorem repaired_cut {torn : List UInt8} (none : newline ∉ torn) :
    repaired (textBytes (journalText json whole) ++ torn) = textBytes (journalText json whole) := by
  have dropped : ∀ rest : List UInt8, (torn.reverse ++ rest).dropWhile (· != newline) = rest.dropWhile (· != newline) := by
    intro rest
    rw [dropWhile_append_of_pos]
    intro b member
    simp only [bne_iff_ne, ne_eq]
    rintro rfl
    exact none (mem_reverse.mp member)
  rw [repaired, reverse_append, dropped]
  rcases @journalText_ends _ json whole with rfl | ⟨before, same⟩
  · rfl
  · have last : textBytes (before ++ "\n") = textBytes before ++ [newline] := textBytes_append _ _
    rw [same, last, reverse_append]
    simp

/-! ### What the reader finds -/

theorem splitOn_journal (faithful : ∀ line ∈ whole, json.Faithful line) {part : List Char} (none : '\n' ∉ part) :
    ((journalText json whole).toList ++ part).splitOn '\n' = whole.map (fun line => (json.toString line).toList) ++ [part] := by
  rw [splitOn_eq_splitOnP]
  induction whole with
  | nil =>
    apply splitOnP_eq_singleton
    intro c member
    simp only [beq_eq_false_iff_ne, ne_eq]
    rintro rfl
    exact none member
  | cons line rest ih =>
    have text : (journalText json (line :: rest)).toList ++ part =
        (json.toString line).toList ++ '\n' :: ((journalText json rest).toList ++ part) := by
      rw [journalText, JournalLine.toLine, String.toList_append, String.toList_append, append_assoc, append_assoc]
      rfl
    rw [text, splitOnP_append_cons_of_forall_mem _ '\n' rfl,
      ih fun next member => faithful next (mem_cons_of_mem _ member)]
    · rfl
    · intro c member
      simp only [beq_eq_false_iff_ne, ne_eq]
      rintro rfl
      exact absurd ((faithful line mem_cons_self).plain '\n' member) (by decide)

variable {part : String}

section

variable (faithful : ∀ line ∈ whole, json.Faithful line)

include faithful

theorem lines_journal (none : '\n' ∉ part.toList) :
    Text.lines (journalText json whole ++ part) = whole.map json.toString ++ if part = "" then [] else [part] := by
  unfold Text.lines
  rw [String.toList_append, splitOn_journal faithful none, map_append, map_map]
  simp only [map_singleton, dropLast_concat, getLast?_concat, String.ofList_toList, map_map]
  congr 1
  · apply map_congr_left
    intro line member
    have kept : Text.stripSuffix (json.toString line) "\r" = Option.none := by
      unfold Text.stripSuffix
      rw [if_neg]
      intro ends
      have last := (isSuffixOf_iff_suffix.mp ends).subset mem_cons_self
      exact absurd ((faithful line member).plain '\r' last) (by decide)
    simp only [Function.comp_apply, String.ofList_toList, kept, Option.getD_none]
  · by_cases blank : part = ""
    · simp [blank]
    · simp [blank, Option.filter]

/-- The torn line goes, and only it. -/
theorem kept_lines (none : '\n' ∉ part.toList) :
    (if (journalText json whole ++ part).toList.getLast? = some '\n' then Text.lines (journalText json whole ++ part)
      else (Text.lines (journalText json whole ++ part)).dropLast) = whole.map json.toString := by
  rw [lines_journal faithful none]
  by_cases blank : part = ""
  · subst blank
    rw [if_pos rfl, append_nil, String.append_empty]
    rcases @journalText_ends _ json whole with rfl | ⟨before, same⟩
    · split <;> rfl
    · rw [if_pos]
      rw [same, String.toList_append]
      exact getLast?_concat
  · rw [if_neg blank, dropLast_concat, if_neg]
    intro last
    have filled : part.toList ≠ [] := fun empty => blank (String.toList_eq_nil_iff.mp empty)
    rw [String.toList_append, getLast?_append, getLast?_eq_some_getLast filled, Option.some_or] at last
    rw [← Option.some.inj last] at none
    exact none (getLast_mem filled)

theorem parseLines_ok
    (version : ∀ line ∈ whole, line.v = journalSchemaVersion) (number : Nat) : parseLines json number (whole.map json.toString) = .ok whole := by
  induction whole generalizing number with
  | nil => rfl
  | cons line rest ih =>
    have later := ih (fun next member => faithful next (mem_cons_of_mem _ member))
      (fun next member => version next (mem_cons_of_mem _ member)) (number + 1)
    rw [map_cons, parseLines, (faithful line mem_cons_self).reads]
    dsimp only
    rw [if_neg (not_not_intro (version line mem_cons_self)), later]
    rfl

theorem read_journal (one : Transaction txn whole)
    (none : '\n' ∉ part.toList) (fits : (journalText json whole ++ part).utf8ByteSize ≤ maxJournalBytes) :
    read json (textBytes (journalText json whole ++ part)) = .ok (report whole) := by
  unfold read
  rw [if_neg (by rw [textBytes_length]; exact Nat.not_lt.mpr fits), fromUTF8?_textBytes]
  dsimp only
  rw [kept_lines faithful none, parseLines_ok faithful one.version]
  exact one.judged

end

theorem take_textBytes (text : String) (cut : Nat) :
    (⟨((textBytes text).take cut).toArray⟩ : ByteArray) = text.toByteArray.extract 0 cut := by
  apply ByteArray.ext
  unfold textBytes
  rw [ByteArray.data_extract]
  apply Array.ext'
  rw [Array.toList_extract, extract_eq_take_drop, Nat.sub_zero, drop_zero]

theorem journalText_append (first second : List (JournalLine ι)) :
    journalText json (first ++ second) = journalText json first ++ journalText json second := by
  induction first with
  | nil => exact String.empty_append.symm
  | cons line rest ih => rw [cons_append, journalText, ih, journalText, String.append_assoc]

/-- A text that starts the journal and is no shorter than some of its first lines starts with them. -/
theorem before_split (start : whole <+: lines) {before after : String} (split : journalText json lines = before ++ after)
    (longer : (journalText json whole).utf8ByteSize ≤ before.utf8ByteSize) :
    ∃ part, before = journalText json whole ++ part := by
  obtain ⟨rest, rfl⟩ := start
  rw [journalText_append] at split
  have chars := congrArg String.toList split
  rw [String.toList_append, String.toList_append] at chars
  rcases append_eq_append_iff.mp chars with ⟨part, same, _⟩ | ⟨part, same, _⟩
  · refine ⟨String.ofList part, String.toList_inj.mp ?_⟩
    rw [same, String.toList_append, String.toList_ofList]
  have whole : journalText json whole = before ++ String.ofList part := by
    apply String.toList_inj.mp
    rw [same, String.toList_append, String.toList_ofList]
  rw [whole, String.utf8ByteSize_append] at longer
  have empty : String.ofList part = "" := String.utf8ByteSize_eq_zero_iff.mp (by omega)
  exact ⟨"", by rw [whole, empty, String.append_empty, String.append_empty]⟩

theorem read_cut (faithful : ∀ line ∈ lines, json.Faithful line) (one : Transaction txn lines)
    (within : cut ≤ (journalText json lines).utf8ByteSize) :
    read json ((textBytes (journalText json lines)).take cut) = .ok (report (whollyBefore json lines cut)) ↔
      String.Pos.Raw.IsValid (journalText json lines) ⟨cut⟩ ∧ cut ≤ maxJournalBytes := by
  have size : ((textBytes (journalText json lines)).take cut).length = cut := by
    rw [length_take, textBytes_length, Nat.min_eq_left within]
  constructor
  · intro done
    unfold read at done
    rw [size, take_textBytes] at done
    split at done
    · cases done
    rename_i fits
    refine ⟨String.Pos.Raw.isValid_iff_isValidUTF8_extract_zero.mpr ⟨String.Pos.Raw.le_iff.mpr within, ?_⟩,
      Nat.not_lt.mp fits⟩
    split at done
    · cases done
    rename_i text found
    unfold String.fromUTF8? at found
    split at found
    · assumption
    · cases found
  · rintro ⟨between, fits⟩
    obtain ⟨before, after, whole, place⟩ := String.Pos.Raw.isValid_iff_exists_append.mp between
    obtain ⟨torn, same, none⟩ := take_cut faithful cut
    have start := whollyBefore_start json lines cut
    have here : (textBytes (journalText json lines)).take cut = textBytes before := by
      have length : cut = (textBytes before).length := congrArg String.Pos.Raw.byteIdx place
      rw [whole, textBytes_append, length, take_left]
    rw [here] at same ⊢
    have longer : (journalText json (whollyBefore json lines cut)).utf8ByteSize ≤ before.utf8ByteSize := by
      rw [← textBytes_length before, same, length_append]
      exact Nat.le_add_right _ _
    obtain ⟨part, split⟩ := before_split start whole longer
    rw [split, textBytes_append] at same
    have part_torn := append_cancel_left same
    rw [split]
    apply read_journal (fun line member => faithful line (start.subset member)) (one.take start)
    · exact fun member => none (part_torn ▸ newline_mem.mpr member)
    · rw [← split, ← textBytes_length before, ← here, size]
      exact fits

/-- The line that an `append` after `Journal::reopen` writes. -/
def announced (txn lastSeq : Nat) (op : JournalOp ι) : JournalLine ι := ⟨journalSchemaVersion, txn, lastSeq + 1, op⟩

variable (json) in
/-- The cut file tells the lines before the cut, and so does the repaired file with one line more. -/
def Recovers (lines : List (JournalLine ι)) (cut : Nat) (next : JournalLine ι) : Prop :=
  let left := (textBytes (journalText json lines)).take cut
  let whole := whollyBefore json lines cut
  read json left = .ok (report whole) ∧ read json (reopenAppend json left next) = .ok (report (whole ++ [next]))

theorem read_append (faithful : ∀ line ∈ lines, json.Faithful line) {next : JournalLine ι} (readable : json.Faithful next)
    (more : Transaction txn (whollyBefore json lines cut ++ [next])) :
    read json (reopenAppend json ((textBytes (journalText json lines)).take cut) next) =
        .ok (report (whollyBefore json lines cut ++ [next])) ↔
      (journalText json (whollyBefore json lines cut ++ [next])).utf8ByteSize ≤ maxJournalBytes := by
  have start := whollyBefore_start json lines cut
  obtain ⟨torn, same, none⟩ := take_cut faithful cut
  have file : reopenAppend json ((textBytes (journalText json lines)).take cut) next =
      textBytes (journalText json (whollyBefore json lines cut ++ [next]) ++ "") := by
    rw [reopenAppend, same, repaired_cut none, String.append_empty, journalText_append, textBytes_append]
    simp only [journalText, String.append_empty]
  rw [file]
  constructor
  · intro done
    unfold read at done
    split at done
    · cases done
    · rename_i fits
      rw [textBytes_length, String.append_empty] at fits
      exact Nat.not_lt.mp fits
  · intro fits
    refine read_journal ?_ more (by simp) (by rw [String.append_empty]; exact fits)
    intro line member
    rcases mem_append.mp member with old | new
    · exact faithful line (start.subset old)
    · rw [mem_singleton.mp new]
      exact readable

/-- A cut journal recovers exactly when the cut falls between two characters and no file is over the
limit: the reader decodes the whole text before it drops the torn line, and the writer does not. -/
theorem cut_recovers_iff (faithful : ∀ line ∈ lines, json.Faithful line) (one : Transaction txn lines)
    (within : cut ≤ (journalText json lines).utf8ByteSize) {lastSeq : Nat} {op : JournalOp ι}
    (readable : json.Faithful (announced txn lastSeq op))
    (more : Transaction txn (whollyBefore json lines cut ++ [announced txn lastSeq op])) :
    Recovers json lines cut (announced txn lastSeq op) ↔
      String.Pos.Raw.IsValid (journalText json lines) ⟨cut⟩ ∧ cut ≤ maxJournalBytes ∧
        (journalText json (whollyBefore json lines cut ++ [announced txn lastSeq op])).utf8ByteSize ≤ maxJournalBytes := by
  unfold Recovers
  dsimp only
  rw [read_cut faithful one within, read_append faithful readable more, and_assoc]

theorem inside_character (head tail : String) :
    ¬ String.Pos.Raw.IsValid (head ++ ("é" ++ tail)) ⟨head.utf8ByteSize + 1⟩ := by
  intro valid
  obtain ⟨before, after, split, place⟩ := String.Pos.Raw.isValid_iff_exists_append.mp valid
  have size : head.utf8ByteSize + 1 = before.utf8ByteSize := congrArg String.Pos.Raw.byteIdx place
  have chars := congrArg String.toList split
  rw [String.toList_append, String.toList_append, String.toList_append] at chars
  rcases append_eq_append_iff.mp chars with ⟨part, same, rest⟩ | ⟨part, same, _⟩
  · cases part with
    | nil =>
      rw [append_nil] at same
      rw [String.toList_inj.mp same] at size
      omega
    | cons c part =>
      have here : 'é' = c := (List.cons.inj rest).1
      have longer : before = head ++ ("é" ++ String.ofList part) := by
        apply String.toList_inj.mp
        rw [same, String.toList_append, String.toList_append, String.toList_ofList, String.toList_ofList, ← here]
        rfl
      rw [longer, String.utf8ByteSize_append, String.utf8ByteSize_append, show "é".utf8ByteSize = 2 from rfl] at size
      omega
  · have shorter : head = before ++ String.ofList part := by
      apply String.toList_inj.mp
      rw [same, String.toList_append, String.toList_ofList]
    rw [shorter, String.utf8ByteSize_append] at size
    omega

namespace Sample

def head : String :=
  "\x7b\"v\":1,\"txn\":1,\"seq\":0,\"op\":\"begin\",\"intent\":\x7b\"release\":\x7b\"version\":\"0.1.0\",\"name\":\"0.1.0+aaaaaaaaaaaa\",\"kind\":\"release\"\x7d,\"profile\":\"minimal\",\"products\":[\"ferroloop\"],\"layout\":\x7b\"prefix\":\"/"

def tail : String :=
  "\",\"bin_dir\":\"/b\",\"unit_dir\":\"/u\"\x7d,\"artifacts\":[],\"files\":[],\"steps\":[\"begin\",\"commit\"],\"release_existed\":false,\"aliases\":[],\"backups\":[],\"created_dirs\":[],\"lock_created\":false\x7d\x7d"

def staged : String := "\x7b\"v\":1,\"txn\":1,\"seq\":1,\"op\":\"stage\"\x7d"

def beginLine : JournalLine Unit := ⟨1, 1, 0, .begin ()⟩

def stageLine : JournalLine Unit := ⟨1, 1, 1, .stage⟩

def serde : LineJson Unit where
  toString line := if line.seq = 0 then head ++ ("é" ++ tail) else staged
  fromStr text := some (if text = staged then stageLine else beginLine)

theorem begin_text : serde.toString beginLine = head ++ ("é" ++ tail) := by
  simp only [serde, beginLine, ↓reduceIte]

theorem stage_text : serde.toString stageLine = staged := by
  simp only [serde, stageLine, Nat.one_ne_zero, ↓reduceIte]

theorem begin_faithful : serde.Faithful beginLine where
  reads := by
    have differ : head ++ ("é" ++ tail) ≠ staged ++ "" := by
      apply Text.append_ne
      rw [head, staged, String.toList_ofList, String.toList_ofList]
      decide +kernel
    rw [String.append_empty] at differ
    rw [begin_text]
    simp only [serde, differ, ↓reduceIte]
  plain := by
    rw [begin_text, head, tail, String.toList_append, String.toList_append, String.toList_ofList, String.toList_ofList,
      String.toList_ofList]
    refine all_iff_forall_prop.mp ?_
    decide +kernel

theorem stage_faithful : serde.Faithful stageLine where
  reads := by
    rw [stage_text]
    simp only [serde, ↓reduceIte]
  plain := by
    rw [stage_text, staged, String.toList_ofList]
    refine all_iff_forall_prop.mp ?_
    decide +kernel

theorem faithful : ∀ line ∈ [beginLine], serde.Faithful line := by
  intro line member
  rw [mem_singleton.mp member]
  exact begin_faithful

theorem transaction : Transaction 1 [beginLine, stageLine] where
  begins := fun _ held => ⟨(), by cases held; rfl⟩
  version := by decide
  same := by decide
  increasing := by decide

end Sample

open Sample

/-- The journal of a prefix that is not ASCII, cut inside a character of the prefix. -/
theorem torn_character_refused :
    (∀ line ∈ [beginLine], serde.Faithful line) ∧ Transaction 1 [beginLine] ∧
      head.utf8ByteSize + 1 ≤ (journalText serde [beginLine]).utf8ByteSize ∧
      read serde ((textBytes (journalText serde [beginLine])).take (head.utf8ByteSize + 1)) ≠
        .ok (report (whollyBefore serde [beginLine] (head.utf8ByteSize + 1))) := by
  have one : Transaction 1 [beginLine] := transaction.take ⟨[stageLine], rfl⟩
  have text : journalText serde [beginLine] = head ++ ("é" ++ (tail ++ "\n")) := by
    rw [journalText, journalText, JournalLine.toLine, begin_text, String.append_empty, String.append_assoc, String.append_assoc]
  have within : head.utf8ByteSize + 1 ≤ (journalText serde [beginLine]).utf8ByteSize := by
    rw [text, String.utf8ByteSize_append, String.utf8ByteSize_append, show "é".utf8ByteSize = 2 from rfl]
    omega
  refine ⟨faithful, one, within, ?_⟩
  intro done
  have valid := ((read_cut faithful one within).mp done).1
  rw [text] at valid
  exact inside_character head (tail ++ "\n") valid

theorem sample_small : (journalText serde [beginLine, stageLine]).utf8ByteSize ≤ maxJournalBytes := by
  have first : (textBytes head).length ≤ 1000 := by
    decide +kernel
  have second : (textBytes tail).length ≤ 1000 := by
    rw [textBytes_eq, tail, String.toList_ofList]
    decide +kernel
  have third : (textBytes staged).length ≤ 1000 := by
    decide +kernel
  rw [textBytes_length] at first second third
  rw [journalText, journalText, journalText, JournalLine.toLine, JournalLine.toLine, begin_text, stage_text]
  simp only [String.utf8ByteSize_append, show "é".utf8ByteSize = 2 from rfl, show "\n".utf8ByteSize = 1 from rfl,
    String.utf8ByteSize_empty]
  unfold maxJournalBytes
  omega

/-- A crash inside the second line leaves the first, and the second is written again. -/
theorem cut_line_recovers :
    Recovers serde [beginLine, stageLine] ((beginLine.toLine serde).utf8ByteSize + 1) (announced 1 0 .stage) := by
  have longer : 1 < (stageLine.toLine serde).utf8ByteSize := by
    rw [JournalLine.toLine, stage_text]
    decide +kernel
  have text : journalText serde [beginLine, stageLine] = beginLine.toLine serde ++ stageLine.toLine serde := by
    rw [journalText, journalText, journalText, String.append_empty]
  have whole : whollyBefore serde [beginLine, stageLine] ((beginLine.toLine serde).utf8ByteSize + 1) = [beginLine] := by
    rw [whollyBefore, if_pos (Nat.le_succ _), Nat.add_sub_cancel_left, whollyBefore, if_neg (Nat.not_le_of_lt longer)]
  have listed : ∀ line ∈ [beginLine, stageLine], serde.Faithful line := by
    intro line member
    rcases mem_cons.mp member with rfl | second
    · exact begin_faithful
    · rw [mem_singleton.mp second]
      exact stage_faithful
  have small := sample_small
  have within : (beginLine.toLine serde).utf8ByteSize + 1 ≤ (journalText serde [beginLine, stageLine]).utf8ByteSize := by
    rw [text, String.utf8ByteSize_append]
    omega
  refine (cut_recovers_iff listed transaction within stage_faithful (by rw [whole]; exact transaction)).mpr ⟨?_, ?_, ?_⟩
  · obtain ⟨rest, opening⟩ : ∃ rest, stageLine.toLine serde = "\x7b" ++ rest := by
      refine ⟨"\"v\":1,\"txn\":1,\"seq\":1,\"op\":\"stage\"\x7d\n", ?_⟩
      rw [JournalLine.toLine, stage_text]
      decide +kernel
    refine String.Pos.Raw.isValid_iff_exists_append.mpr ⟨beginLine.toLine serde ++ "\x7b", rest, ?_, ?_⟩
    · rw [text, opening, String.append_assoc]
    · ext
      rw [String.byteIdx_rawEndPos, String.utf8ByteSize_append, show "\x7b".utf8ByteSize = 1 from rfl]
  · omega
  · rw [whole]
    exact small

end FerroLoop.Install

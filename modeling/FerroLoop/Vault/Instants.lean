import FerroLoop.Lib.Decimals
import Mathlib.Algebra.Group.Int.Defs

namespace FerroLoop.Vault

open Decimals List

/-- 9999-12-31T23:59:59.999Z, the last instant a four-digit year spells. -/
def maxMillis : Nat := 253402300799999

def daysFromCivil (y m d : Int) : Int :=
  let y := if m ≤ 2 then y - 1 else y
  let era := y / 400
  let yoe := y % 400
  let mp := if m > 2 then m - 3 else m + 9
  let doy := (153 * mp + 2) / 5 + d - 1
  let doe := yoe * 365 + yoe / 4 - yoe / 100 + doy
  era * 146097 + doe - 719468

def civilFromDays (z : Int) : Int × Int × Int :=
  let z := z + 719468
  let era := z / 146097
  let doe := z % 146097
  let yoe := (doe - doe / 1460 + doe / 36524 - doe / 146096) / 365
  let doy := doe - (365 * yoe + yoe / 4 - yoe / 100)
  let mp := (5 * doy + 2) / 153
  let d := doy - (153 * mp + 2) / 5 + 1
  let m := if mp < 10 then mp + 3 else mp - 9
  let y := yoe + era * 400
  let y := if m ≤ 2 then y + 1 else y
  (y, m, d)

/-- `y-m-dTh:min:s.msZ` with zeros in front. -/
def spelled (y m d h min s ms : Nat) : List Char :=
  padded 4 y ++ ('-' :: (padded 2 m ++ ('-' :: (padded 2 d ++ ('T' :: (padded 2 h ++ (':' :: (padded 2 min ++ (':' ::
    (padded 2 s ++ ('.' :: (padded 3 ms ++ ['Z']))))))))))))

def fromUnixMillis (ms : Nat) : String :=
  let ms := min ms maxMillis
  let secs := ms / 1000
  let date := civilFromDays ((secs / 86400 : Nat) : Int)
  let rem := secs % 86400
  String.ofList
    (spelled date.1.toNat date.2.1.toNat date.2.2.toNat (rem / 3600) (rem % 3600 / 60) (rem % 60) (ms % 1000))

/-- What may stand at a position of a spelled time. -/
def fits (i : Nat) (c : Char) : Bool :=
  match i with
  | 4 | 7 => c == '-'
  | 10 => c == 'T'
  | 13 | 16 => c == ':'
  | 19 => c == '.'
  | 23 => c == 'Z'
  | _ => c.isDigit

def rawMillis (s : List Char) : Int :=
  let n (start stop : Nat) : Int := value ((s.take stop).drop start)
  let days := daysFromCivil (n 0 4) (n 5 7) (n 8 10)
  days * 86400000 + n 11 13 * 3600000 + n 14 16 * 60000 + n 17 19 * 1000 + n 20 23

/-- A time in the one spelling, or none. A time before 1970 wraps as the cast to `u64` wraps. -/
def parse (s : String) : Option String :=
  if s.toList.length ≠ 24 then none
  else if !(s.toList.zipIdx.all fun (c, i) => fits i c) then none
  else
    let at_ := fromUnixMillis (rawMillis s.toList % 2 ^ 64).toNat
    if at_ ≠ s then none else some at_

def yearStart (y : Int) : Int := 365 * y + y / 4 - y / 100 + y / 400 - 719468

theorem yearStart_era (era y : Int) : yearStart (y + era * 400) = era * 146097 + yearStart y := by
  unfold yearStart
  omega

theorem yearStart_days (y : Int) :
    yearStart y = y / 400 * 146097 + (y % 400 * 365 + y % 400 / 4 - y % 400 / 100) - 719468 := by
  have split := yearStart_era (y / 400) (y % 400)
  rw [show y % 400 + y / 400 * 400 = y by omega] at split
  unfold yearStart
  omega

theorem yearStart_succ (y : Int) : yearStart y + 365 ≤ yearStart (y + 1) ∧ yearStart (y + 1) ≤ yearStart y + 366 := by
  unfold yearStart
  omega

theorem yearOfEra {doe c q e y : Int} (century : 36524 * c ≤ doe) (centuryEnd : doe < 36524 * c + 36524) (first : 0 ≤ c)
    (cycle : 1460 * q ≤ doe) (cycleEnd : doe < 1460 * q + 1460) (last : 146096 * e ≤ doe) (lastEnd : doe < 146096 * e + 146096)
    (within : doe < 146097) (year : 365 * y ≤ doe - q + c - e) (yearEnd : doe - q + c - e < 365 * y + 365) :
    0 ≤ y ∧ y < 400 ∧ 365 * y + y / 4 - y / 100 ≤ doe ∧
      doe < 365 * (y + 1) + (y + 1) / 4 - (y + 1) / 100 + (y + 1) / 400 := by
  have single : e = 0 ∨ e = 1 := by omega
  have quarter : y / 4 ≤ q := by omega
  -- Only the last day of an era is past its fourth century.
  have centuries : c = 0 ∨ c = 1 ∨ c = 2 ∨ c = 3 ∨ (c = 4 ∧ y = 399) := by omega
  have bounds : 0 ≤ y ∧ y < 400 ∧ 365 * y + y / 4 - y / 100 ≤ doe := by
    rcases centuries with rfl | rfl | rfl | rfl | ⟨rfl, rfl⟩ <;> omega
  have middle : c < 4 → y < 100 * c + 99 → (y + 1) / 100 = c ∧ (y + 1) / 400 = 0 := by omega
  refine ⟨bounds.1, bounds.2.1, bounds.2.2, ?_⟩
  rcases centuries with rfl | rfl | rfl | rfl | ⟨rfl, rfl⟩
  · rcases (by omega : y < 99 ∨ y = 99) with before | rfl <;> omega
  · rcases (by omega : y < 199 ∨ y = 199) with before | rfl <;> omega
  · rcases (by omega : y < 299 ∨ y = 299) with before | rfl <;> omega
  · rcases (by omega : y < 399 ∨ y = 399) with before | rfl <;> omega
  · omega

/-- A date is a year that starts in March, a month counted from March and a day, with the day's number between the first
days of that year and the next. -/
theorem civilFromDays_split (z : Int) :
    ∃ y mp, mp = (5 * (z - yearStart y) + 2) / 153 ∧ yearStart y ≤ z ∧ z < yearStart (y + 1) ∧
      civilFromDays z =
        (if mp < 10 then y else y + 1, if mp < 10 then mp + 3 else mp - 9, z - yearStart y - (153 * mp + 2) / 5 + 1) := by
  have low : 0 ≤ (z + 719468) % 146097 := by omega
  have high : (z + 719468) % 146097 < 146097 := by omega
  obtain ⟨era, isEra⟩ : ∃ era, era = (z + 719468) / 146097 := ⟨_, rfl⟩
  obtain ⟨doe, isDoe⟩ : ∃ doe, doe = (z + 719468) % 146097 := ⟨_, rfl⟩
  rw [← isDoe] at low high
  obtain ⟨yoe, isYoe⟩ : ∃ yoe, yoe = (doe - doe / 1460 + doe / 36524 - doe / 146096) / 365 := ⟨_, rfl⟩
  have year := @yearOfEra doe (doe / 36524) (doe / 1460) (doe / 146096) yoe (by omega) (by omega) (by omega) (by omega)
    (by omega) (by omega) (by omega) high (by omega) (by omega)
  have start : yearStart (yoe + era * 400) + 719468 = 146097 * era + (365 * yoe + yoe / 4 - yoe / 100) := by
    rw [yearStart_era]
    unfold yearStart
    omega
  have next : z < yearStart (yoe + era * 400 + 1) := by
    rw [show yoe + era * 400 + 1 = (yoe + 1) + era * 400 by omega, yearStart_era]
    unfold yearStart
    omega
  have doy : doe - (365 * yoe + yoe / 4 - yoe / 100) = z - yearStart (yoe + era * 400) := by omega
  refine ⟨yoe + era * 400, (5 * (z - yearStart (yoe + era * 400)) + 2) / 153, rfl, by omega, next, ?_⟩
  unfold civilFromDays
  dsimp only
  rw [← isEra, ← isDoe, ← isYoe, doy]
  by_cases early : (5 * (z - yearStart (yoe + era * 400)) + 2) / 153 < 10
  · rw [if_pos early, if_pos early, if_neg (by omega)]
  · rw [if_neg early, if_neg early, if_pos (by omega)]

theorem daysFromCivil_civilFromDays (z : Int) :
    daysFromCivil (civilFromDays z).1 (civilFromDays z).2.1 (civilFromDays z).2.2 = z := by
  obtain ⟨y, mp, isMp, start, stop, date⟩ := civilFromDays_split z
  have yearLength := yearStart_succ y
  rw [date]
  by_cases early : mp < 10
  · rw [if_pos early, if_pos early]
    unfold daysFromCivil
    dsimp only
    rw [if_neg (by omega), if_pos (by omega), show mp + 3 - 3 = mp by omega]
    have days := yearStart_days y
    omega
  · rw [if_neg early, if_neg early]
    unfold daysFromCivil
    dsimp only
    rw [if_pos (by omega), if_neg (by omega), show mp - 9 + 9 = mp by omega, show y + 1 - 1 = y by omega]
    have days := yearStart_days y
    omega

theorem yearStart_mono {y y' : Int} (least : y ≤ y') : yearStart y ≤ yearStart y' := by
  unfold yearStart
  omega

theorem civilFromDays_bounds {z : Int} (first : 0 ≤ z) (last : z ≤ 2932896) :
    (0 ≤ (civilFromDays z).1 ∧ (civilFromDays z).1 < 10000) ∧ (0 ≤ (civilFromDays z).2.1 ∧ (civilFromDays z).2.1 < 100) ∧
      0 ≤ (civilFromDays z).2.2 ∧ (civilFromDays z).2.2 < 100 := by
  obtain ⟨y, mp, isMp, start, stop, date⟩ := civilFromDays_split z
  have yearLength := yearStart_succ y
  have late : 0 ≤ y := by
    rcases Int.lt_or_le y 0 with before | after
    · have bound := yearStart_mono (show y + 1 ≤ 0 by omega)
      have zero : yearStart 0 = -719468 := by decide
      omega
    · exact after
  -- The last year that starts in March has its ten months up to December.
  have early : y < 9999 ∨ (y = 9999 ∧ mp < 10) := by
    rcases Int.lt_or_le y 9999 with before | after
    · exact .inl before
    have bound := yearStart_mono after
    have next := @yearStart_mono 10000 y
    have zero : yearStart 9999 = 2932591 := by decide
    have ends : yearStart 10000 = 2932957 := by decide
    omega
  rw [date]
  dsimp only
  by_cases months : mp < 10
  · omega
  · omega

theorem civilFromDays_ordered {z z' : Int} (least : z ≤ z') :
    (civilFromDays z).1 ≤ (civilFromDays z').1 ∧
      ((civilFromDays z).1 = (civilFromDays z').1 → (civilFromDays z).2.1 ≤ (civilFromDays z').2.1) ∧
      ((civilFromDays z).1 = (civilFromDays z').1 → (civilFromDays z).2.1 = (civilFromDays z').2.1 →
        (civilFromDays z).2.2 ≤ (civilFromDays z').2.2) := by
  obtain ⟨y, mp, isMp, start, stop, date⟩ := civilFromDays_split z
  obtain ⟨y', mp', isMp', start', stop', date'⟩ := civilFromDays_split z'
  have yearLength := yearStart_succ y
  have years : y ≤ y' := by
    rcases Int.lt_or_le y' y with before | after
    · have bound := yearStart_mono (show y' + 1 ≤ y by omega)
      omega
    · exact after
  rw [date, date']
  -- In one year, the months and then the days are in the order of the days passed since its start.
  have months : y = y' → mp ≤ mp' := by
    rintro rfl
    omega
  have days : y = y' → mp = mp' → z - yearStart y ≤ z' - yearStart y' := by
    rintro rfl
    omega
  by_cases early : mp < 10 <;> by_cases early' : mp' < 10 <;> simp only [early, early', if_true, if_false] <;> omega

variable (ms : Nat) {α : Type}

theorem list_four {xs : List α} (length : xs.length = 4) : ∃ a b c d, xs = [a, b, c, d] := by
  match xs, length with
  | [a, b, c, d], _ => exact ⟨a, b, c, d, rfl⟩

theorem list_two {xs : List α} (length : xs.length = 2) : ∃ a b, xs = [a, b] := by
  match xs, length with
  | [a, b], _ => exact ⟨a, b, rfl⟩

theorem list_three {xs : List α} (length : xs.length = 3) : ∃ a b c, xs = [a, b, c] := by
  match xs, length with
  | [a, b, c], _ => exact ⟨a, b, c, rfl⟩

section Spelled

variable {y m d h min s ms : Nat} (year : y < 10 ^ 4) (month : m < 10 ^ 2) (day : d < 10 ^ 2) (hour : h < 10 ^ 2)
  (minute : min < 10 ^ 2) (second : s < 10 ^ 2) (milli : ms < 10 ^ 3)

include year month day hour minute second milli

/-- A spelled time has digits and separators where they belong, and is read as the numbers it was written for. -/
theorem spelled_read :
    (spelled y m d h min s ms).length = 24 ∧ ((spelled y m d h min s ms).zipIdx.all fun (c, i) => fits i c) = true ∧
      rawMillis (spelled y m d h min s ms) =
        daysFromCivil y m d * 86400000 + h * 3600000 + min * 60000 + s * 1000 + ms := by
  obtain ⟨y₁, y₂, y₃, y₄, isYear⟩ := list_four (padded_length (by decide) year)
  obtain ⟨m₁, m₂, isMonth⟩ := list_two (padded_length (by decide) month)
  obtain ⟨d₁, d₂, isDay⟩ := list_two (padded_length (by decide) day)
  obtain ⟨h₁, h₂, isHour⟩ := list_two (padded_length (by decide) hour)
  obtain ⟨min₁, min₂, isMinute⟩ := list_two (padded_length (by decide) minute)
  obtain ⟨s₁, s₂, isSecond⟩ := list_two (padded_length (by decide) second)
  obtain ⟨ms₁, ms₂, ms₃, isMilli⟩ := list_three (padded_length (by decide) milli)
  have digits : ∀ {width n : Nat} {cs : List Char}, padded width n = cs → cs.all Char.isDigit = true := by
    rintro width n cs rfl
    exact all_eq_true.mpr fun c member => isDigit_of_mem_padded member
  have values : ∀ {width n : Nat} {cs : List Char}, padded width n = cs → value cs = n := by
    rintro width n cs rfl
    exact value_padded width n
  have chars : spelled y m d h min s ms = [y₁, y₂, y₃, y₄, '-', m₁, m₂, '-', d₁, d₂, 'T', h₁, h₂, ':', min₁, min₂, ':',
      s₁, s₂, '.', ms₁, ms₂, ms₃, 'Z'] := by
    unfold spelled
    rw [isYear, isMonth, isDay, isHour, isMinute, isSecond, isMilli]
    rfl
  rw [chars]
  refine ⟨rfl, ?_, ?_⟩
  · have yearDigits := digits isYear
    have monthDigits := digits isMonth
    have dayDigits := digits isDay
    have hourDigits := digits isHour
    have minuteDigits := digits isMinute
    have secondDigits := digits isSecond
    have milliDigits := digits isMilli
    simp only [all_cons, all_nil, Bool.and_eq_true, and_true] at *
    simp [zipIdx_cons, fits, yearDigits, monthDigits, dayDigits, hourDigits, minuteDigits, secondDigits, milliDigits]
  · show daysFromCivil (value [y₁, y₂, y₃, y₄]) (value [m₁, m₂]) (value [d₁, d₂]) * 86400000 + value [h₁, h₂] * 3600000 +
      value [min₁, min₂] * 60000 + value [s₁, s₂] * 1000 + value [ms₁, ms₂, ms₃] = _
    rw [values isYear, values isMonth, values isDay, values isHour, values isMinute, values isSecond, values isMilli]

end Spelled

theorem instant_bounds {ms : Nat} (least : ms ≤ maxMillis) :
    (civilFromDays ((ms / 1000 / 86400 : Nat) : Int)).1.toNat < 10 ^ 4 ∧
      (civilFromDays ((ms / 1000 / 86400 : Nat) : Int)).2.1.toNat < 10 ^ 2 ∧
      (civilFromDays ((ms / 1000 / 86400 : Nat) : Int)).2.2.toNat < 10 ^ 2 ∧ ms / 1000 % 86400 / 3600 < 10 ^ 2 ∧
      ms / 1000 % 86400 % 3600 / 60 < 10 ^ 2 ∧ ms / 1000 % 86400 % 60 < 10 ^ 2 ∧ ms % 1000 < 10 ^ 3 := by
  unfold maxMillis at least
  have date := @civilFromDays_bounds ((ms / 1000 / 86400 : Nat) : Int) (by omega) (by omega)
  omega

theorem rawMillis_fromUnixMillis : rawMillis (fromUnixMillis ms).toList = ((min ms maxMillis : Nat) : Int) := by
  unfold fromUnixMillis
  rw [String.toList_ofList]
  have least : min ms maxMillis ≤ maxMillis := Nat.min_le_right ms maxMillis
  generalize min ms maxMillis = instant at *
  obtain ⟨year, month, day, hour, minute, second, milli⟩ := instant_bounds least
  rw [(spelled_read year month day hour minute second milli).2.2]
  unfold maxMillis at least
  have date := @civilFromDays_bounds ((instant / 1000 / 86400 : Nat) : Int) (by omega) (by omega)
  rw [Int.toNat_of_nonneg date.1.1, Int.toNat_of_nonneg date.2.1.1, Int.toNat_of_nonneg date.2.2.1,
    daysFromCivil_civilFromDays]
  omega

theorem fromUnixMillis_min : fromUnixMillis (min ms maxMillis) = fromUnixMillis ms := by
  unfold fromUnixMillis
  rw [Nat.min_assoc, Nat.min_self]

theorem parse_fromUnixMillis : parse (fromUnixMillis ms) = some (fromUnixMillis ms) := by
  have raw := rawMillis_fromUnixMillis ms
  have least : min ms maxMillis ≤ maxMillis := Nat.min_le_right ms maxMillis
  obtain ⟨year, month, day, hour, minute, second, milli⟩ := instant_bounds least
  obtain ⟨length, shape, -⟩ := spelled_read year month day hour minute second milli
  have chars : (fromUnixMillis ms).toList = _ := String.toList_ofList
  rw [← chars] at length shape
  unfold parse
  rw [if_neg (by simp only [length, ne_eq, not_true_eq_false, not_false_eq_true]), if_neg (by rw [shape]; decide)]
  have wrapped : (((min ms maxMillis : Nat) : Int) % 2 ^ 64).toNat = min ms maxMillis := by
    unfold maxMillis at *
    omega
  rw [raw, wrapped, fromUnixMillis_min, if_neg (by simp)]

theorem parse_some {s t : String} (read : parse s = some t) : t = s ∧ s.toList.length = 24 ∧ '|' ∉ s.toList := by
  unfold parse at read
  split at read
  · cases read
  rename_i length
  split at read
  · cases read
  rename_i shape
  dsimp only at read
  split at read
  · cases read
  rename_i same
  rw [Decidable.not_not] at same length
  cases read
  refine ⟨same, length, ?_⟩
  intro bar
  obtain ⟨i, bound, here⟩ := getElem_of_mem bar
  rw [Bool.not_eq_true, Bool.not_eq_false'] at shape
  have held := all_eq_true.mp shape (s.toList[i], i) (mk_mem_zipIdx_iff_getElem?.mpr (getElem?_eq_getElem bound))
  dsimp only at held
  rw [here] at held
  unfold fits at held
  revert held
  split <;> decide

theorem not_cons_lt_cons {c : Char} {rest rest' : List Char} (further : ¬rest' < rest) : ¬c :: rest' < c :: rest := by
  intro before
  rcases cons_lt_cons_iff.mp before with less | ⟨_, later⟩
  · exact absurd less (Char.lt_irrefl c)
  · exact further later

/-- The time of day of a later instant of one day is not earlier, hour by hour, then minute by minute and so on. -/
theorem timeOfDay_ordered {a b : Nat} (least : a ≤ b) (sameDay : a / 1000 / 86400 = b / 1000 / 86400) :
    a / 1000 % 86400 / 3600 ≤ b / 1000 % 86400 / 3600 ∧
      (a / 1000 % 86400 / 3600 = b / 1000 % 86400 / 3600 →
        a / 1000 % 86400 % 3600 / 60 ≤ b / 1000 % 86400 % 3600 / 60 ∧
          (a / 1000 % 86400 % 3600 / 60 = b / 1000 % 86400 % 3600 / 60 →
            a / 1000 % 86400 % 60 ≤ b / 1000 % 86400 % 60 ∧
              (a / 1000 % 86400 % 60 = b / 1000 % 86400 % 60 → a % 1000 ≤ b % 1000))) := by
  refine ⟨by omega, fun hours => ⟨by omega, fun minutes => ⟨by omega, fun seconds => by omega⟩⟩⟩

theorem date_ordered {i j : Nat} (least : i ≤ j) (last : j ≤ 2932896) :
    (civilFromDays i).1.toNat ≤ (civilFromDays j).1.toNat ∧
      ((civilFromDays i).1.toNat = (civilFromDays j).1.toNat →
        (civilFromDays i).2.1.toNat ≤ (civilFromDays j).2.1.toNat ∧
          ((civilFromDays i).2.1.toNat = (civilFromDays j).2.1.toNat →
            (civilFromDays i).2.2.toNat ≤ (civilFromDays j).2.2.toNat ∧
              ((civilFromDays i).2.2.toNat = (civilFromDays j).2.2.toNat → i = j))) := by
  have date := @civilFromDays_bounds (i : Int) (by omega) (by omega)
  obtain ⟨years, months, days⟩ := @civilFromDays_ordered (i : Int) (j : Int) (by omega)
  have there := daysFromCivil_civilFromDays (i : Int)
  have there' := daysFromCivil_civilFromDays (j : Int)
  generalize civilFromDays (i : Int) = first at *
  generalize civilFromDays (j : Int) = second at *
  obtain ⟨y, m, d⟩ := first
  obtain ⟨y', m', d'⟩ := second
  dsimp only at *
  refine ⟨by omega, fun sameY => ?_⟩
  have oneYear : y = y' := by omega
  refine ⟨by have := months oneYear; omega, fun sameM => ?_⟩
  have oneMonth : m = m' := by omega
  refine ⟨by have := days oneYear oneMonth; omega, fun sameD => ?_⟩
  have oneDay : d = d' := by omega
  rw [oneYear, oneMonth, oneDay, there'] at there
  omega

theorem fromUnixMillis_ordered {ms ms' : Nat} (least : ms ≤ ms') : ¬fromUnixMillis ms' < fromUnixMillis ms := by
  have held : min ms maxMillis ≤ min ms' maxMillis := by omega
  have bound : min ms maxMillis ≤ maxMillis := Nat.min_le_right ms maxMillis
  have bound' : min ms' maxMillis ≤ maxMillis := Nat.min_le_right ms' maxMillis
  unfold fromUnixMillis
  generalize min ms maxMillis = a at *
  generalize min ms' maxMillis = b at *
  rw [String.lt_iff, String.toList_ofList, String.toList_ofList]
  obtain ⟨year, month, day, hour, minute, second, milli⟩ := instant_bounds bound
  obtain ⟨year', month', day', hour', minute', second', milli'⟩ := instant_bounds bound'
  have last : b / 1000 / 86400 ≤ 2932896 := by
    unfold maxMillis at bound'
    omega
  obtain ⟨years, months⟩ := date_ordered (show a / 1000 / 86400 ≤ b / 1000 / 86400 by omega) last
  have times := @timeOfDay_ordered a b held
  refine not_padded_lt (by decide) year year' years fun sameY => not_cons_lt_cons ?_
  obtain ⟨months, days⟩ := months sameY
  refine not_padded_lt (by decide) month month' months fun sameM => not_cons_lt_cons ?_
  obtain ⟨days, one⟩ := days sameM
  refine not_padded_lt (by decide) day day' days fun sameD => not_cons_lt_cons ?_
  obtain ⟨hours, minutes⟩ := times (one sameD)
  refine not_padded_lt (by decide) hour hour' hours fun sameH => not_cons_lt_cons ?_
  obtain ⟨minutes, seconds⟩ := minutes sameH
  refine not_padded_lt (by decide) minute minute' minutes fun sameMin => not_cons_lt_cons ?_
  obtain ⟨seconds, millis⟩ := seconds sameMin
  refine not_padded_lt (by decide) second second' seconds fun sameS => not_cons_lt_cons ?_
  exact not_padded_lt (by decide) milli milli' (millis sameS) fun _ => List.lt_irrefl _

end FerroLoop.Vault

import FerroLoop.Vault.Instants

/-!
A spelled time against the calendar, day after day from 1970-01-01.
-/

namespace FerroLoop.Vault

def leapYear (y : Int) : Bool := y % 4 = 0 && (y % 100 ≠ 0 || y % 400 = 0)

def monthLength (y m : Int) : Int :=
  if m = 2 then if leapYear y then 29 else 28
  else if m = 4 ∨ m = 6 ∨ m = 9 ∨ m = 11 then 30
  else 31

/-- The day after a date of the Gregorian calendar. -/
def nextDay (date : Int × Int × Int) : Int × Int × Int :=
  if date.2.2 < monthLength date.1 date.2.1 then (date.1, date.2.1, date.2.2 + 1)
  else if date.2.1 < 12 then (date.1, date.2.1 + 1, 1)
  else (date.1 + 1, 1, 1)

/-- The date so many days after 1970-01-01. -/
def gregorian : Nat → Int × Int × Int
  | 0 => (1970, 1, 1)
  | days + 1 => nextDay (gregorian days)

/-- A year that starts in March ends with the February of the next. -/
theorem yearStart_leap (y : Int) : yearStart (y + 1) = yearStart y + if leapYear (y + 1) then 366 else 365 := by
  have quarters : (y + 1) / 4 = y / 4 + if (y + 1) % 4 = 0 then 1 else 0 := by split <;> omega
  have centuries : (y + 1) / 100 = y / 100 + if (y + 1) % 100 = 0 then 1 else 0 := by split <;> omega
  have eras : (y + 1) / 400 = y / 400 + if (y + 1) % 400 = 0 then 1 else 0 := by split <;> omega
  have leap : leapYear (y + 1) = true ↔ (y + 1) % 4 = 0 ∧ ((y + 1) % 100 ≠ 0 ∨ (y + 1) % 400 = 0) := by simp [leapYear]
  unfold yearStart
  rw [quarters, centuries, eras]
  by_cases long : leapYear (y + 1) = true
  · have facts := leap.mp long
    repeat' split
    all_goals omega
  · rw [if_neg long]
    rw [leap] at long
    repeat' split
    all_goals omega

/-- The months from March on, by the days that start them. -/
theorem monthLength_march (y : Int) {mp : Int} (first : 0 ≤ mp) (last : mp ≤ 11) :
    monthLength (if mp < 10 then y else y + 1) (if mp < 10 then mp + 3 else mp - 9) =
      if mp < 11 then (153 * (mp + 1) + 2) / 5 - (153 * mp + 2) / 5 else yearStart (y + 1) - yearStart y - 337 := by
  have month : mp = 0 ∨ mp = 1 ∨ mp = 2 ∨ mp = 3 ∨ mp = 4 ∨ mp = 5 ∨ mp = 6 ∨ mp = 7 ∨ mp = 8 ∨ mp = 9 ∨ mp = 10 ∨
      mp = 11 := by omega
  rcases month with rfl | rfl | rfl | rfl | rfl | rfl | rfl | rfl | rfl | rfl | rfl | rfl
  case inr.inr.inr.inr.inr.inr.inr.inr.inr.inr.inr =>
    have length := yearStart_leap y
    change (if leapYear (y + 1) then 29 else 28) = yearStart (y + 1) - yearStart y - 337
    rw [length]
    split <;> omega
  all_goals rfl

/-- A day lies between the starts of its month and of the next. -/
theorem month_bounds {day mp : Int} (month : mp = (5 * day + 2) / 153) :
    (153 * mp + 2) / 5 ≤ day ∧ day < (153 * (mp + 1) + 2) / 5 := by
  have least : 153 * mp ≤ 5 * day + 2 := by omega
  have most : 5 * day + 2 < 153 * (mp + 1) := by omega
  omega

theorem civilFromDays_succ (z : Int) : civilFromDays (z + 1) = nextDay (civilFromDays z) := by
  obtain ⟨y, mp, isMp, start, stop, date⟩ := civilFromDays_split z
  obtain ⟨y', mp', isMp', start', stop', date'⟩ := civilFromDays_split (z + 1)
  have length := yearStart_succ y
  have year : y' = y ∨ y' = y + 1 ∧ z + 1 = yearStart (y + 1) := by
    have before := @yearStart_mono (y' + 1) y
    have after := @yearStart_mono (y + 1 + 1) y'
    have more := yearStart_succ (y + 1)
    have same := @yearStart_mono (y + 1) y'
    omega
  have last : mp ≤ 11 := by omega
  have within := month_bounds isMp
  rw [date', date]
  unfold nextDay
  dsimp only
  rw [monthLength_march y (by omega) last]
  rcases year with rfl | ⟨rfl, turn⟩
  · have later : mp' = mp ∨ mp' = mp + 1 := by omega
    rcases later with rfl | rfl
    · have same : z - yearStart y' - (153 * mp' + 2) / 5 + 1 <
          if mp' < 11 then (153 * (mp' + 1) + 2) / 5 - (153 * mp' + 2) / 5 else yearStart (y' + 1) - yearStart y' - 337 := by
        split
        · omega
        · obtain rfl : mp' = 11 := by omega
          omega
      rw [if_pos same]
      simp only [Prod.mk.injEq, true_and]
      omega
    · have ends : ¬z - yearStart y' - (153 * mp + 2) / 5 + 1 < (153 * (mp + 1) + 2) / 5 - (153 * mp + 2) / 5 := by omega
      rw [if_pos (show mp < 11 by omega), if_neg ends]
      by_cases early : mp < 9
      · simp only [show mp < 10 by omega, show mp + 1 < 10 by omega, show mp + 3 < 12 by omega, if_true, Prod.mk.injEq,
          true_and]
        omega
      by_cases turn : mp = 9
      · subst turn
        simp only [Int.reduceLT, Int.reduceAdd, Int.reduceSub, if_true, if_false, Prod.mk.injEq, true_and]
        omega
      · simp only [show ¬mp < 10 by omega, show ¬mp + 1 < 10 by omega, show mp - 9 < 12 by omega, if_true, if_false,
          Prod.mk.injEq, true_and]
        omega
  · obtain rfl : mp = 11 := by omega
    obtain rfl : mp' = 0 := by omega
    have ends : ¬z - yearStart y - (153 * 11 + 2) / 5 + 1 < yearStart (y + 1) - yearStart y - 337 := by omega
    rw [if_neg (show ¬(11 : Int) < 11 by decide), if_neg ends]
    simp only [Int.reduceLT, Int.reduceAdd, Int.reduceSub, if_true, if_false, Prod.mk.injEq, true_and]
    omega

theorem civilFromDays_gregorian (days : Nat) : civilFromDays days = gregorian days := by
  induction days with
  | zero => decide
  | succ days ih =>
    rw [gregorian, ← ih, ← civilFromDays_succ]
    rfl

def unixMillis (at_ : String) : Nat := (rawMillis at_.toList % 2 ^ 64).toNat

/-- A time names its day of the calendar and its time of day; parsing and ordering times are those of the numbers. -/
theorem timestamps_exact :
    (∀ ms ≤ maxMillis, ∃ y m d h min s milli : Nat, fromUnixMillis ms = String.ofList (spelled y m d h min s milli) ∧
      gregorian (ms / 86400000) = (↑y, ↑m, ↑d) ∧ h < 24 ∧ min < 60 ∧ s < 60 ∧ milli < 1000 ∧
      ms = ms / 86400000 * 86400000 + h * 3600000 + min * 60000 + s * 1000 + milli) ∧
    (∀ ms ≤ maxMillis, unixMillis (fromUnixMillis ms) = ms) ∧
    (∀ text, (parse text).isSome ↔ ∃ ms ≤ maxMillis, text = fromUnixMillis ms) ∧
    ∀ a ≤ maxMillis, ∀ b ≤ maxMillis, fromUnixMillis a < fromUnixMillis b ↔ a < b := by
  have back : ∀ ms ≤ maxMillis, unixMillis (fromUnixMillis ms) = ms := by
    intro ms least
    rw [unixMillis, rawMillis_fromUnixMillis, Nat.min_eq_left least]
    unfold maxMillis at least
    omega
  refine ⟨?_, back, ?_, ?_⟩
  · intro ms least
    have day : ms / 1000 / 86400 = ms / 86400000 := Nat.div_div_eq_div_mul _ _ _
    obtain ⟨first, month, date⟩ := @civilFromDays_bounds ((ms / 86400000 : Nat) : Int) (by omega)
      (by unfold maxMillis at least; omega)
    rw [civilFromDays_gregorian] at first month date
    refine ⟨(gregorian (ms / 86400000)).1.toNat, (gregorian (ms / 86400000)).2.1.toNat,
      (gregorian (ms / 86400000)).2.2.toNat, ms / 1000 % 86400 / 3600, ms / 1000 % 86400 % 3600 / 60,
      ms / 1000 % 86400 % 60, ms % 1000, ?_, ?_, by omega⟩
    · unfold fromUnixMillis
      dsimp only
      rw [Nat.min_eq_left least, day, civilFromDays_gregorian]
    · rw [Int.toNat_of_nonneg first.1, Int.toNat_of_nonneg month.1, Int.toNat_of_nonneg date.1]
  · intro text
    constructor
    · intro read
      unfold parse at read
      split at read
      · cases read
      split at read
      · cases read
      dsimp only at read
      split at read
      · cases read
      rename_i same
      rw [Decidable.not_not] at same
      exact ⟨_, Nat.min_le_right _ maxMillis, (same.symm.trans (fromUnixMillis_min _).symm)⟩
    · rintro ⟨ms, _, rfl⟩
      rw [parse_fromUnixMillis]
      rfl
  · intro a small b small'
    constructor
    · intro before
      rcases Nat.lt_or_ge a b with less | more
      · exact less
      · exact absurd before (fromUnixMillis_ordered more)
    · intro less
      have after := fromUnixMillis_ordered (Nat.le_of_lt less)
      rcases Std.lt_trichotomy (fromUnixMillis a) (fromUnixMillis b) with before | same | behind
      · exact before
      · have one := back a small
        rw [same, back b small'] at one
        omega
      · exact absurd behind after

end FerroLoop.Vault

import Keyring.Time.Instant
import Mathlib.Tactic.IntervalCases

/-!
# The calendar there and back

Each day has one date, a date of the calendar, and the date leads back to the day.
-/

namespace Keyring.Time

/-! ## The day of an era

Four hundred years are four centuries, the last of which is a day longer, and a
century is a row of four-year cycles. -/

/-- The day of an era by its year and the day of that year, years counted from March. -/
structure IsYearOfEra (dayOfEra year dayOfYear : Int) : Prop where
  day : dayOfEra = 365 * year + year / 4 - year / 100 + dayOfYear
  year_nonneg : 0 ≤ year
  year_lt : year < 400
  day_nonneg : 0 ≤ dayOfYear
  day_le : dayOfYear ≤ 365
  /-- Only the year before a leap day has one more day. -/
  leap : dayOfYear = 365 → (year + 1) % 4 = 0 ∧ ((year + 1) % 100 ≠ 0 ∨ (year + 1) % 400 = 0)

theorem isYearOfEra {dayOfEra year : Int} (nonneg : 0 ≤ dayOfEra) (lt : dayOfEra < 146097)
    (is : year = (dayOfEra - dayOfEra / 1460 + dayOfEra / 36524 - dayOfEra / 146096) / 365) :
    IsYearOfEra dayOfEra year (dayOfEra - (365 * year + year / 4 - year / 100)) := by
  by_cases last : dayOfEra = 146096
  · -- the last day of an era would start a fifth century
    subst last
    have : year = 399 := by rw [is]; rfl
    subst this
    constructor <;> decide
  · obtain ⟨century, first, next, which⟩ : ∃ century, 36524 * century ≤ dayOfEra ∧
        dayOfEra < 36524 * century + 36524 ∧ dayOfEra / 36524 - dayOfEra / 146096 = century :=
      ⟨dayOfEra / 36524, by omega, by omega, by omega⟩
    obtain ⟨cycle, cycleStart, cycleEnd, cycleIs⟩ : ∃ cycle, 1460 * cycle ≤ dayOfEra ∧
        dayOfEra < 1460 * cycle + 1460 ∧ dayOfEra / 1460 = cycle :=
      ⟨dayOfEra / 1460, by omega, by omega, rfl⟩
    have yearStart : 365 * year ≤ dayOfEra - cycle + century := by omega
    have yearEnd : dayOfEra - cycle + century < 365 * year + 365 := by omega
    have four : century = 0 ∨ century = 1 ∨ century = 2 ∨ century = 3 := by omega
    clear is which cycleIs
    have inCentury : year / 100 = century := by
      rcases four with rfl | rfl | rfl | rfl <;> omega
    have inCycle : cycle - 1 ≤ year / 4 ∧ year / 4 ≤ cycle := by
      rcases four with rfl | rfl | rfl | rfl <;> omega
    refine ⟨by omega, by omega, by omega, by omega, by omega, fun long => ?_⟩
    have nextCycle : cycle = year / 4 + 1 := by omega
    subst nextCycle
    have ends : year % 4 = 3 := by omega
    exact ⟨by omega, by omega⟩

theorem isLeapYear_iff {y : Int} : isLeapYear y = true ↔ y % 4 = 0 ∧ (y % 100 ≠ 0 ∨ y % 400 = 0) := by
  simp [isLeapYear]

/-- The months from March to January, the last but one of the year that ends with February. -/
theorem daysInMonth_of_lt (year : Int) {fromMarch : Nat} (lt : fromMarch < 11) :
    daysInMonth year (if fromMarch < 10 then fromMarch + 3 else fromMarch - 9) =
      (153 * (fromMarch + 1) + 2) / 5 - (153 * fromMarch + 2) / 5 := by
  interval_cases fromMarch <;> rfl

theorem daysInMonth_le (year : Int) (month : Nat) : daysInMonth year month ≤ 31 := by
  unfold daysInMonth
  split
  · split <;> omega
  all_goals omega

theorem daysInMonth_two (year : Int) : daysInMonth year 2 = if isLeapYear year then 29 else 28 := rfl

/-- The date of a day of a year, both counted from the first of March. -/
def Date.ofMarch (year dayOfYear : Int) : Date :=
  let fromMarch := (5 * dayOfYear + 2) / 153
  { year := if fromMarch < 10 then year else year + 1
    month := (if fromMarch < 10 then fromMarch + 3 else fromMarch - 9).toNat
    dayOfMonth := (dayOfYear - (153 * fromMarch + 2) / 5 + 1).toNat }

theorem Date.day_ofMarch {year dayOfYear : Int} (nonneg : 0 ≤ dayOfYear) (le : dayOfYear ≤ 365) :
    (Date.ofMarch year dayOfYear).day = year / 400 * 146097 +
      (year % 400 * 365 + year % 400 / 4 - year % 400 / 100 + dayOfYear) - 719468 := by
  rw [ofMarch, day]
  dsimp only
  obtain ⟨m, small, fromMarch⟩ : ∃ m : Nat, m < 12 ∧ (5 * dayOfYear + 2) / 153 = m :=
    ⟨((5 * dayOfYear + 2) / 153).toNat, by omega, by omega⟩
  rw [fromMarch]
  split
  · rw [if_neg (by omega), if_neg (by omega)]
    omega
  · rw [if_pos (by omega), if_pos (by omega), show year + 1 - 1 = year by omega]
    omega

theorem Date.month_ofMarch {year dayOfYear : Int} (nonneg : 0 ≤ dayOfYear) (le : dayOfYear ≤ 365) :
    1 ≤ (Date.ofMarch year dayOfYear).month ∧ (Date.ofMarch year dayOfYear).month ≤ 12 := by
  rw [ofMarch]
  dsimp only
  omega

theorem Date.dayOfMonth_ofMarch {year dayOfYear : Int} (nonneg : 0 ≤ dayOfYear) (le : dayOfYear ≤ 365)
    (leap : dayOfYear = 365 → isLeapYear (year + 1) = true) : 1 ≤ (Date.ofMarch year dayOfYear).dayOfMonth ∧
      (Date.ofMarch year dayOfYear).dayOfMonth ≤
        daysInMonth (Date.ofMarch year dayOfYear).year (Date.ofMarch year dayOfYear).month := by
  obtain ⟨m, small, fromMarch⟩ : ∃ m : Nat, m < 12 ∧ (5 * dayOfYear + 2) / 153 = m :=
    ⟨((5 * dayOfYear + 2) / 153).toNat, by omega, by omega⟩
  rw [ofMarch]
  dsimp only
  rw [fromMarch]
  refine ⟨by omega, ?_⟩
  by_cases february : m = 11
  · subst february
    have month : (if ((11 : Nat) : Int) < 10 then ((11 : Nat) : Int) + 3 else ((11 : Nat) : Int) - 9).toNat = 2 := rfl
    rw [if_neg (by decide), month, daysInMonth_two]
    split
    · omega
    · rename_i common
      have short : dayOfYear ≠ 365 := fun long => common (leap long)
      omega
  · have month : (if (m : Int) < 10 then (m : Int) + 3 else (m : Int) - 9).toNat =
        if m < 10 then m + 3 else m - 9 := by
      split <;> split <;> omega
    have before : (153 * (m : Int) + 2) / 5 = ((153 * m + 2) / 5 : Nat) := by omega
    rw [month, daysInMonth_of_lt _ (by omega), before]
    omega

theorem Date.ofDay_eq_ofMarch (n : Int) : ∃ year dayOfYear, Date.ofDay n = Date.ofMarch year dayOfYear ∧
    0 ≤ dayOfYear ∧ dayOfYear ≤ 365 ∧ (dayOfYear = 365 → isLeapYear (year + 1) = true) ∧
    n = year / 400 * 146097 + (year % 400 * 365 + year % 400 / 4 - year % 400 / 100 + dayOfYear) - 719468 := by
  have part := @isYearOfEra ((n + 719468) % 146097) _ (by omega) (by omega) rfl
  rw [Date.ofDay]
  generalize ((n + 719468) % 146097 - (n + 719468) % 146097 / 1460 + (n + 719468) % 146097 / 36524 -
    (n + 719468) % 146097 / 146096) / 365 = yearOfEra at part ⊢
  generalize (n + 719468) % 146097 - (365 * yearOfEra + yearOfEra / 4 - yearOfEra / 100) = dayOfYear at part ⊢
  have day := part.day
  have nonneg := part.year_nonneg
  have lt := part.year_lt
  refine ⟨(n + 719468) / 146097 * 400 + yearOfEra, dayOfYear, ?_, part.day_nonneg, part.day_le, fun long => ?_, ?_⟩
  · rw [ofMarch]
    congr 1
    have := part.day_nonneg
    have := part.day_le
    split <;> split <;> omega
  · rw [isLeapYear_iff]
    have := part.leap long
    omega
  · rw [show ((n + 719468) / 146097 * 400 + yearOfEra) / 400 = (n + 719468) / 146097 by omega,
      show ((n + 719468) / 146097 * 400 + yearOfEra) % 400 = yearOfEra by omega]
    omega

theorem Date.day_ofDay (n : Int) : (Date.ofDay n).day = n := by
  obtain ⟨year, dayOfYear, shape, nonneg, le, _, total⟩ := ofDay_eq_ofMarch n
  rw [shape, day_ofMarch nonneg le, ← total]

theorem Date.month_ofDay (n : Int) : 1 ≤ (Date.ofDay n).month ∧ (Date.ofDay n).month ≤ 12 := by
  obtain ⟨year, dayOfYear, shape, nonneg, le, -⟩ := ofDay_eq_ofMarch n
  rw [shape]
  exact month_ofMarch nonneg le

theorem Date.dayOfMonth_ofDay (n : Int) : 1 ≤ (Date.ofDay n).dayOfMonth ∧
    (Date.ofDay n).dayOfMonth ≤ daysInMonth (Date.ofDay n).year (Date.ofDay n).month := by
  obtain ⟨year, dayOfYear, shape, nonneg, le, leap, -⟩ := ofDay_eq_ofMarch n
  rw [shape]
  exact dayOfMonth_ofMarch nonneg le leap

theorem Date.valid_ofDay {n : Int} (first : Instant.firstDay ≤ n) (last : n ≤ Instant.lastDay) :
    (Date.ofDay n).Valid := by
  obtain ⟨monthPos, monthLe⟩ := month_ofDay n
  obtain ⟨dayPos, dayLe⟩ := dayOfMonth_ofDay n
  obtain ⟨year, dayOfYear, shape, nonneg, le, -, total⟩ := ofDay_eq_ofMarch n
  have from_ : Instant.firstDay = -96465292 := by decide
  have to_ : Instant.lastDay = 95026236 := by decide
  rw [from_] at first
  rw [to_] at last
  refine ⟨?_, ?_, monthPos, monthLe, dayPos, dayLe⟩
  all_goals rw [shape]
  · -- the first day kept is the first of January, the 306th day of its year
    have early : -262144 < year ∨ year = -262144 ∧ 306 ≤ dayOfYear := by
      have era : -656 ≤ year / 400 := by omega
      rcases Int.lt_or_eq_of_le era with later | first_
      · omega
      · rw [← first_] at total
        omega
    rw [ofMarch, firstYear]
    dsimp only
    split <;> omega
  · have late : year < 262142 ∨ year = 262142 ∧ dayOfYear ≤ 305 := by
      have era : year / 400 ≤ 655 := by omega
      rcases Int.lt_or_eq_of_le era with earlier | last_
      · omega
      · rw [last_] at total
        omega
    rw [ofMarch, lastYear]
    dsimp only
    split <;> omega

end Keyring.Time

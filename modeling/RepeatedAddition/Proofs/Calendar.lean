import Mathlib.Order.Monotone.Basic
import Mathlib.Tactic.IntervalCases
import RepeatedAddition.Timestamp

/-!
# The Gregorian calendar

The date of a day is computed in a few divisions: by eras of 400 years, counted from March so that
the leap day comes last.  Here the calendar is stated as it is known, by the lengths of its months
and the rule for leap years, and the divisions are shown to follow it for every day number, before
the year 0 and after the year 9999 as well.

* `Date.IsLeap`, `Date.monthLength`, `Date.daysBefore`, `Date.yearStart`: the calendar.
* `Date.yearStart_succ`: a year has the days of its months.
* `Date.Valid`, `Date.number`: the dates that there are, and their day numbers.
* `Date.EraDay`: a day of an era by centuries, cycles of four years, years and days.
* `Date.ofDays_eq_iff`: the date of a day number is the one valid date that has this number.
-/

namespace RepeatedAddition
namespace Date

/-! ## The calendar -/

/-- Every fourth year has a leap day, but of the hundredth ones only every fourth. -/
def IsLeap (year : Int) : Prop := year % 4 = 0 ∧ (year % 100 ≠ 0 ∨ year % 400 = 0)

instance (year : Int) : Decidable (IsLeap year) :=
  inferInstanceAs (Decidable (year % 4 = 0 ∧ (year % 100 ≠ 0 ∨ year % 400 = 0)))

/-- The days of a month.  There are twelve months. -/
def monthLength (year : Int) : Nat → Nat
  | 1 => 31
  | 2 => if IsLeap year then 29 else 28
  | 3 => 31
  | 4 => 30
  | 5 => 31
  | 6 => 30
  | 7 => 31
  | 8 => 31
  | 9 => 30
  | 10 => 31
  | 11 => 30
  | 12 => 31
  | _ => 0

/-- The days of a year before a month. -/
def daysBefore (year : Int) : Nat → Nat
  | 0 => 0
  | month + 1 => daysBefore year month + monthLength year month

/-- The leap years before a year, counted from the year 1; for years before it they are taken
off. -/
def leapsBefore (year : Int) : Int := (year - 1) / 4 - (year - 1) / 100 + (year - 1) / 400

/-- The number of the first day of a year: 365 for each year since 1970, and one for each leap
year. -/
def yearStart (year : Int) : Int := 365 * (year - 1970) + (leapsBefore year - leapsBefore 1970)

/-- The month is one of twelve, and it has that day. -/
structure Valid (d : Date) : Prop where
  first : 1 ≤ d.day
  last : d.day ≤ monthLength d.year d.month

instance (d : Date) : Decidable d.Valid :=
  decidable_of_iff (1 ≤ d.day ∧ d.day ≤ monthLength d.year d.month) ⟨fun h => ⟨h.1, h.2⟩,
    fun h => ⟨h.1, h.2⟩⟩

/-- The day number of a date. -/
def number (d : Date) : Int := yearStart d.year + daysBefore d.year d.month + (d.day - 1)

/-! ## Years -/

theorem leapsBefore_succ (year : Int) :
    leapsBefore (year + 1) = leapsBefore year + if IsLeap year then 1 else 0 := by
  unfold leapsBefore
  by_cases h : IsLeap year
  · rw [if_pos h]
    unfold IsLeap at h
    omega
  · rw [if_neg h]
    unfold IsLeap at h
    omega

theorem daysBefore_thirteen (year : Int) :
    daysBefore year 13 = 365 + if IsLeap year then 1 else 0 := by
  simp only [daysBefore, monthLength]
  split <;> rfl

/-- **A year has the days of its months.** -/
theorem yearStart_succ (year : Int) :
    yearStart (year + 1) = yearStart year + daysBefore year 13 := by
  rw [yearStart, yearStart, leapsBefore_succ, daysBefore_thirteen]
  split <;> push_cast <;> omega

example : yearStart 1970 = 0 := by decide

theorem yearStart_mono {y y' : Int} (h : y ≤ y') : yearStart y ≤ yearStart y' := by
  unfold yearStart leapsBefore
  omega

/-! ## Valid dates -/

theorem monthLength_eq_zero {year : Int} {month : Nat} (h : 12 < month) :
    monthLength year month = 0 := by
  obtain ⟨k, rfl⟩ : ∃ k, month = k + 13 := ⟨month - 13, by omega⟩
  rfl

theorem daysBefore_mono (year : Int) : Monotone (daysBefore year) :=
  monotone_nat_of_le_succ fun _ => Nat.le_add_right _ _

theorem Valid.month_le {d : Date} (h : d.Valid) : d.month ≤ 12 := by
  by_contra hmonth
  have hzero : monthLength d.year d.month = 0 := monthLength_eq_zero (Nat.lt_of_not_le hmonth)
  have hfirst := h.first
  have hlast := h.last
  omega

theorem Valid.day_le {d : Date} (h : d.Valid) : d.day ≤ 31 := by
  have hlength : monthLength d.year d.month ≤ 31 := by
    unfold monthLength
    split
    case h_2 => split <;> decide
    all_goals decide
  exact h.last.trans hlength

/-- A date lies in its year. -/
theorem Valid.bounds {d : Date} (h : d.Valid) :
    yearStart d.year ≤ d.number ∧ d.number < yearStart (d.year + 1) := by
  have hfirst := h.first
  have hlast := h.last
  have hmonth : daysBefore d.year (d.month + 1) ≤ daysBefore d.year 13 :=
    daysBefore_mono d.year (Nat.succ_le_succ h.month_le)
  rw [daysBefore] at hmonth
  rw [yearStart_succ, number]
  omega

/-- **A day number has one valid date.** -/
theorem Valid.eq_of_number {d d' : Date} (h : d.Valid) (h' : d'.Valid)
    (hnumber : d.number = d'.number) : d = d' := by
  have hyear : d.year = d'.year := by
    -- of two different years the later one starts behind the earlier one
    have hbounds := h.bounds
    have hbounds' := h'.bounds
    rcases Int.lt_trichotomy d.year d'.year with hlt | heq | hlt
    · have hle := yearStart_mono (show d.year + 1 ≤ d'.year by omega)
      omega
    · exact heq
    · have hle := yearStart_mono (show d'.year + 1 ≤ d.year by omega)
      omega
  have hfirst := h.first
  have hfirst' := h'.first
  have hlast := h.last
  have hlast' := h'.last
  rw [number, number, ← hyear] at hnumber
  rw [← hyear] at hlast'
  have hmonth : d.month = d'.month := by
    rcases Nat.lt_trichotomy d.month d'.month with hlt | heq | hlt
    · have hle := daysBefore_mono d.year (show d.month + 1 ≤ d'.month by omega)
      rw [daysBefore] at hle
      omega
    · exact heq
    · have hle := daysBefore_mono d.year (show d'.month + 1 ≤ d.month by omega)
      rw [daysBefore] at hle
      omega
  have hday : d.day = d'.day := by
    rw [hmonth] at hnumber
    omega
  cases d
  cases d'
  simp_all

/-! ## Years from March on -/

/-- The number of the first of March of a year. -/
def marchStart (year : Int) : Int := yearStart year + daysBefore year 3

/-- Up to March all leap days of the years so far are over, so that they need not be told apart. -/
theorem marchStart_eq (year : Int) :
    marchStart year = 365 * (year - 1970) + (year / 4 - year / 100 + year / 400) - 418 := by
  have hmarch : daysBefore year 3 = 59 + if IsLeap year then 1 else 0 := by
    simp only [daysBefore, monthLength]
    split <;> rfl
  have hleaps : leapsBefore (year + 1) = year / 4 - year / 100 + year / 400 := by
    rw [leapsBefore, Int.add_sub_cancel]
  have hepoch : leapsBefore 1970 = 477 := rfl
  rw [leapsBefore_succ] at hleaps
  rw [marchStart, yearStart, hmarch, hepoch, ← hleaps]
  push_cast
  omega

/-- The date of a day of a year that is counted from the first of March. -/
def ofMarch (year : Int) (dayOfYear : Nat) : Date :=
  let fromMarch := (5 * dayOfYear + 2) / 153
  let month := if fromMarch < 10 then fromMarch + 3 else fromMarch - 9
  { year := year + (if month ≤ 2 then 1 else 0)
    month := month
    day := dayOfYear - (153 * fromMarch + 2) / 5 + 1 }

/-- The days between the first of March and the first of a later month, or between two months. -/
def line (m : Nat) : Nat := (153 * m + 2) / 5

/-- The months up to December follow the line. -/
theorem daysBefore_add_three (year : Int) {m : Nat} (h : m ≤ 10) :
    daysBefore year (m + 3) = daysBefore year 3 + line m := by
  induction m with
  | zero => rfl
  | succ m ih =>
    have hm : m ≤ 9 := Nat.le_of_succ_le_succ h
    have hlength : monthLength year (m + 3) = line (m + 1) - line m ∧ line m ≤ line (m + 1) := by
      interval_cases m <;> exact ⟨rfl, by decide⟩
    rw [show m + 1 + 3 = m + 3 + 1 from rfl, daysBefore, ih (by omega)]
    omega

theorem monthLength_add_three (year : Int) {m : Nat} (h : m ≤ 9) :
    monthLength year (m + 3) = line (m + 1) - line m := by
  have hnext := daysBefore_add_three year (m := m + 1) (by omega)
  rw [show m + 1 + 3 = m + 3 + 1 from rfl, daysBefore,
    daysBefore_add_three year (by omega)] at hnext
  omega

/-- A day lies in its month, as long as the line is followed. -/
theorem line_bounds {d m : Nat} (hm : m = (5 * d + 2) / 153) : line m ≤ d ∧ d < line (m + 1) := by
  unfold line
  omega

/-- **Days of a year from March on.**  The last day is there in leap years only. -/
theorem ofMarch_spec (year : Int) {d : Nat} (hd : d ≤ 365) (hleap : d = 365 → IsLeap (year + 1)) :
    (ofMarch year d).Valid ∧ (ofMarch year d).number = marchStart year + d := by
  obtain ⟨m, hm⟩ : ∃ m, m = (5 * d + 2) / 153 := ⟨_, rfl⟩
  obtain ⟨hfirst, hlast⟩ := line_bounds hm
  have hsucc := yearStart_succ year
  have hyear : daysBefore year 13 = daysBefore year 3 + line 10 :=
    daysBefore_add_three year (Nat.le_refl 10)
  have hdate : ofMarch year d =
      ⟨year + if (if m < 10 then m + 3 else m - 9) ≤ 2 then 1 else 0,
        if m < 10 then m + 3 else m - 9, d - line m + 1⟩ := by
    rw [ofMarch, hm]
    rfl
  by_cases hmonth : m < 10
  · rw [hdate, if_pos hmonth, if_neg (by omega), Int.add_zero]
    have hbefore := daysBefore_add_three year (Nat.le_of_lt hmonth)
    have hlength := monthLength_add_three year (Nat.le_of_lt_succ hmonth)
    refine ⟨⟨by simp, ?_⟩, ?_⟩
    · show d - line m + 1 ≤ monthLength year (m + 3)
      omega
    · show yearStart year + daysBefore year (m + 3) + ((d - line m + 1 : Nat) - 1 : Int) =
        marchStart year + d
      rw [marchStart]
      omega
  · -- January and February are in the next year
    rw [hdate, if_neg hmonth, if_pos (by omega)]
    have hstart : ∀ (month k : Nat), daysBefore (year + 1) month = line k - line 10 →
        line 10 ≤ line k → line k ≤ d →
        number ⟨year + 1, month, d - line k + 1⟩ = marchStart year + d := by
      intro month k hbefore hle hk
      show yearStart (year + 1) + daysBefore (year + 1) month + ((d - line k + 1 : Nat) - 1 : Int) =
        marchStart year + d
      rw [marchStart]
      omega
    obtain rfl | rfl : m = 10 ∨ m = 11 := by omega
    · refine ⟨⟨by simp, ?_⟩, hstart 1 10 rfl (Nat.le_refl _) hfirst⟩
      show d - 306 + 1 ≤ 31
      change d < 337 at hlast
      omega
    · refine ⟨⟨by simp, ?_⟩, hstart 2 11 rfl (by decide) hfirst⟩
      show d - 337 + 1 ≤ if IsLeap (year + 1) then 29 else 28
      by_cases hday : d = 365
      · rw [if_pos (hleap hday)]
        omega
      · split <;> omega

/-! ## Eras -/

/-- A day of an era, by the centuries, cycles of four years, years and days before it, from March
on.  Only the fourth year of a cycle has a leap day, and of the last cycles of the centuries only
the last one. -/
structure EraDay (century cycle year day n : Nat) : Prop where
  century_le : century ≤ 3
  cycle_le : cycle ≤ 24
  year_le : year ≤ 3
  day_le : day ≤ 365
  leap : day = 365 → year = 3 ∧ (cycle < 24 ∨ century = 3)
  eq : n = 36524 * century + 1461 * cycle + 365 * year + day

theorem exists_eraDay {n : Nat} (h : n < 146097) : ∃ a b c d, EraDay a b c d n := by
  -- the last day of an era, of a cycle and so on would be the first of a fifth one
  obtain ⟨a, ha⟩ : ∃ a, a = min (n / 36524) 3 := ⟨_, rfl⟩
  obtain ⟨r, hr⟩ : ∃ r, r = n - 36524 * a := ⟨_, rfl⟩
  obtain ⟨c, hc⟩ : ∃ c, c = min (r % 1461 / 365) 3 := ⟨_, rfl⟩
  refine ⟨a, r / 1461, c, r % 1461 - 365 * c, ?_, ?_, ?_, ?_, ?_, ?_⟩ <;> omega

namespace EraDay

variable {a b c d n : Nat}

/-- The last day of an era is counted as that of a fifth century, and taken back. -/
theorem centuries (h : EraDay a b c d n) : n / 36524 = a + n / 146096 := by
  obtain ⟨ha, hb, hc, hd, hleap, hn⟩ := h
  by_cases hlast : n = 146096
  · subst hlast
    omega
  · have hless : 1461 * b + 365 * c + d < 36524 := by omega
    have hzero : n / 146096 = 0 := by omega
    rw [hzero, hn]
    omega

/-- **The years of an era that are over.** -/
theorem yearOfEra_eq (h : EraDay a b c d n) : yearOfEra n = 100 * a + 4 * b + c := by
  have hcenturies := h.centuries
  obtain ⟨ha, hb, hc, hd, hleap, hn⟩ := h
  -- what the cycles of 1460 days are too short adds up to less than one of them
  obtain ⟨f, hf⟩ : ∃ f, f = (24 * a + b + 365 * c + d) / 1460 := ⟨_, rfl⟩
  have hcycles : n / 1460 = 25 * a + b + f := by
    have hsplit : n = 1460 * (25 * a + b) + (24 * a + b + 365 * c + d) := by omega
    rw [hsplit, hf, Nat.mul_add_div (by decide)]
  have hshort : f ≤ d ∧ d - f < 365 := by
    clear hcenturies hcycles hn
    by_cases hday : d = 365
    · obtain ⟨rfl, -⟩ := hleap hday
      omega
    · omega
  have hyears : n - n / 1460 + n / 36524 - n / 146096 = 365 * (100 * a + 4 * b + c) + (d - f) := by
    rw [hcycles, hcenturies]
    clear hcenturies hcycles hf hleap
    omega
  rw [yearOfEra, hyears]
  clear hyears hcenturies hcycles hf hleap hn
  omega

/-- The days of the years that are over. -/
theorem dayOfYear_eq (h : EraDay a b c d n) {y : Nat} (hy : y = 100 * a + 4 * b + c) :
    n - (365 * y + y / 4 - y / 100) = d := by
  obtain ⟨ha, hb, hc, -, -, hn⟩ := h
  have hcycles : y / 4 = 25 * a + b := by omega
  have hcenturies : y / 100 = a := by omega
  rw [hcycles, hcenturies, hn, hy]
  omega

theorem marchStart_add_day (h : EraDay a b c d n) (era : Int) :
    marchStart ((100 * a + 4 * b + c : Nat) + era * 400) + d = era * 146097 + n - 719468 := by
  obtain ⟨ha, hb, hc, -, -, hn⟩ := h
  obtain ⟨y, hy⟩ : ∃ y : Int, y = (100 * a + 4 * b + c : Nat) + era * 400 := ⟨_, rfl⟩
  have hcycles : y / 4 = 25 * a + b + 100 * era := by omega
  have hcenturies : y / 100 = a + 4 * era := by omega
  have heras : y / 400 = era := by omega
  rw [← hy, marchStart_eq, hcycles, hcenturies, heras]
  omega

theorem isLeap_of_last (h : EraDay a b c d n) (hd : d = 365) (era : Int) :
    IsLeap ((100 * a + 4 * b + c : Nat) + era * 400 + 1) := by
  obtain ⟨ha, hb, -, -, hleap, -⟩ := h
  obtain ⟨rfl, hcycle⟩ := hleap hd
  unfold IsLeap
  omega

end EraDay

/-! ## Dates of day numbers -/

theorem ofDays_eq_ofMarch (n : Int) {a b c d : Nat}
    (h : EraDay a b c d ((n + 719468) % 146097).toNat) :
    ofDays n = ofMarch ((100 * a + 4 * b + c : Nat) + (n + 719468) / 146097 * 400) d := by
  have hera : Int.fdiv (n + 719468) 146097 = (n + 719468) / 146097 :=
    Int.fdiv_eq_ediv_of_nonneg _ (by decide)
  have hday : n + 719468 - (n + 719468) / 146097 * 146097 = (n + 719468) % 146097 := by omega
  simp only [ofDays, ofMarch, hera, hday, h.yearOfEra_eq, h.dayOfYear_eq rfl]

/-- **The date of a day number is the one valid date that has this number.** -/
theorem ofDays_eq_iff {n : Int} {d : Date} : ofDays n = d ↔ d.Valid ∧ d.number = n := by
  have hspec : (ofDays n).Valid ∧ (ofDays n).number = n := by
    obtain ⟨a, b, c, k, h⟩ := exists_eraDay (n := ((n + 719468) % 146097).toNat) (by omega)
    rw [ofDays_eq_ofMarch n h]
    obtain ⟨hvalid, hnumber⟩ := ofMarch_spec _ h.day_le fun hk => h.isLeap_of_last hk _
    refine ⟨hvalid, ?_⟩
    rw [hnumber, h.marchStart_add_day]
    omega
  constructor
  · rintro rfl
    exact hspec
  · rintro ⟨hvalid, hnumber⟩
    exact hspec.1.eq_of_number hvalid (hspec.2.trans hnumber.symm)

end Date
end RepeatedAddition

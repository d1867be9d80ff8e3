/-!
# The civil calendar

Dates of the proleptic Gregorian calendar and their numbers, counted in days from 1970-01-01.
The count goes by eras of 400 years that start on the first of March: then the leap day is the
last day of its year, and centuries, groups of four years and years are cut off one by one.

## Main statements

* `dayNumber_ofDayNumber` — a day number belongs to the date that is computed from it;
* `exists_ofDayNumber` — the date that is computed exists in the calendar.
-/

namespace Backlog

/-- A calendar date, perhaps one that does not exist. -/
structure CivilDate where
  year : Int
  month : Nat
  day : Nat
  deriving DecidableEq, Repr

namespace CivilDate

/-- Whether a year has a leap day. -/
def isLeapYear (y : Int) : Bool := y % 4 = 0 && (y % 100 ≠ 0 || y % 400 = 0)

/-- The number of days of a month. -/
def monthLength (y : Int) (m : Nat) : Nat :=
  if m = 2 then (if isLeapYear y then 29 else 28)
  else if m = 4 ∨ m = 6 ∨ m = 9 ∨ m = 11 then 30
  else 31

/-- Whether the date exists in the calendar. -/
def Exists (d : CivilDate) : Prop :=
  1 ≤ d.month ∧ d.month ≤ 12 ∧ 1 ≤ d.day ∧ d.day ≤ monthLength d.year d.month

instance (d : CivilDate) : Decidable d.Exists := inferInstanceAs (Decidable (_ ∧ _ ∧ _ ∧ _))

/-- The days of 400 years. -/
def eraDays : Int := 146097

/-- The day number of the first of March of the year zero, negated. -/
def eraStart : Int := 719468

/-- The days of a year before a month, for years that start in March. -/
def daysBefore (monthIndex : Int) : Int := (153 * monthIndex + 2) / 5

/-- The days of an era before one of its years. -/
def daysBeforeYear (y : Int) : Int := 365 * y + y / 4 - y / 100

/-- The number of a date, counted from 1970-01-01. -/
def dayNumber (d : CivilDate) : Int :=
  let m : Int := d.month
  -- January and February belong to the year that began in March before
  let y := if m ≤ 2 then d.year - 1 else d.year
  let index := if m ≤ 2 then m + 9 else m - 3
  y / 400 * eraDays + daysBeforeYear (y % 400) + daysBefore index + d.day - 1 - eraStart

/-- The year within an era and the day within that year of a day of an era. -/
def yearAndDay (dayOfEra : Int) : Int × Int :=
  -- the last century of an era, and the last year of a group, are one day longer
  let century := min (dayOfEra / 36524) 3
  let inCentury := dayOfEra - 36524 * century
  let group := inCentury / 1461
  let inGroup := inCentury - 1461 * group
  let year := min (inGroup / 365) 3
  (100 * century + 4 * group + year, inGroup - 365 * year)

/-- The date of a day number. -/
def ofDayNumber (n : Int) : CivilDate :=
  let z := n + eraStart
  let era := z / eraDays
  let (yearOfEra, dayOfYear) := yearAndDay (z % eraDays)
  let index := (5 * dayOfYear + 2) / 153
  let day := dayOfYear - daysBefore index + 1
  let month := if index < 10 then index + 3 else index - 9
  let year := yearOfEra + 400 * era + (if month ≤ 2 then 1 else 0)
  ⟨year, month.toNat, day.toNat⟩

/-! ## Dates and numbers -/

theorem isLeapYear_iff {y : Int} :
    isLeapYear y = true ↔ y % 4 = 0 ∧ (y % 100 ≠ 0 ∨ y % 400 = 0) := by
  simp [isLeapYear]

/-- What the split of an era's day satisfies: the parts add up, the year lies in the era, and
only a leap year has a day 365. -/
theorem yearAndDay_facts {n : Int} (h0 : 0 ≤ n) (h1 : n < eraDays) :
    daysBeforeYear (yearAndDay n).1 + (yearAndDay n).2 = n ∧
      0 ≤ (yearAndDay n).1 ∧ (yearAndDay n).1 < 400 ∧
      0 ≤ (yearAndDay n).2 ∧ (yearAndDay n).2 ≤ 365 ∧
      ((yearAndDay n).2 = 365 → isLeapYear ((yearAndDay n).1 + 1) = true) := by
  unfold eraDays at h1
  unfold yearAndDay daysBeforeYear
  simp only
  -- each quotient gets a name and its bounds, so that the rest is linear
  generalize hc : min (n / 36524) 3 = c
  have hc0 : 0 ≤ c ∧ c ≤ 3 ∧ 36524 * c ≤ n ∧ (c < 3 → n < 36524 * c + 36524) := by omega
  generalize hr : n - 36524 * c = r
  have hr0 : 0 ≤ r ∧ r ≤ 36524 ∧ (c < 3 → r < 36524) := by omega
  generalize hq : r / 1461 = q
  have hq0 : 0 ≤ q ∧ q ≤ 24 ∧ 1461 * q ≤ r ∧ r < 1461 * q + 1461 := by omega
  generalize hs : r - 1461 * q = s
  have hs0 : 0 ≤ s ∧ s < 1461 ∧ (q = 24 → c < 3 → s < 1460) := by omega
  generalize ha : min (s / 365) 3 = a
  have ha0 : 0 ≤ a ∧ a ≤ 3 ∧ 365 * a ≤ s ∧ (a < 3 → s < 365 * a + 365) ∧ s ≤ 365 * a + 365 := by
    omega
  have h4 : (100 * c + 4 * q + a) / 4 = 25 * c + q := by omega
  have h100 : (100 * c + 4 * q + a) / 100 = c := by omega
  rw [h4, h100]
  refine ⟨by omega, by omega, by omega, by omega, by omega, fun h => ?_⟩
  -- day 365 only comes at the end of a group, and not in the last one of a short century
  have ha3 : a = 3 := by omega
  have hs3 : s = 1460 := by omega
  have hqc : q < 24 ∨ c = 3 := by omega
  subst ha3
  rw [isLeapYear_iff]
  omega

/-- A day number belongs to the date that is computed from it. -/
theorem dayNumber_ofDayNumber (n : Int) : (ofDayNumber n).dayNumber = n := by
  have hm0 : 0 ≤ (n + eraStart) % eraDays := Int.emod_nonneg _ (by decide)
  have hm1 : (n + eraStart) % eraDays < eraDays := Int.emod_lt_of_pos _ (by decide)
  obtain ⟨hsum, hy0, hy1, hd0, hd1, -⟩ := yearAndDay_facts hm0 hm1
  have hz := Int.emod_add_ediv_mul (n + eraStart) eraDays
  unfold ofDayNumber dayNumber
  simp only
  generalize (n + eraStart) / eraDays = era at *
  generalize (n + eraStart) % eraDays = doe at *
  generalize hyd : yearAndDay doe = yd at *
  obtain ⟨y, d⟩ := yd
  simp only at *
  generalize hi : (5 * d + 2) / 153 = i
  have hi0 : 0 ≤ i ∧ i ≤ 11 := by omega
  have hdb : daysBefore i ≤ d := by unfold daysBefore; omega
  by_cases h10 : i < 10
  -- March to December
  · have h2 : ¬ (i + 3 ≤ 2) := by omega
    have hmonth : ((i + 3).toNat : Int) = i + 3 := by omega
    simp only [h10, if_true, hmonth, h2, if_false]
    have e1 : (y + 400 * era + 0) / 400 = era := by omega
    have e2 : (y + 400 * era + 0) % 400 = y := by omega
    have e3 : i + 3 - 3 = i := by omega
    rw [e1, e2, e3]
    omega
  -- January and February, which show the next year
  · have h2 : i - 9 ≤ 2 := by omega
    have hmonth : ((i - 9).toNat : Int) = i - 9 := by omega
    simp only [h10, if_false, hmonth, h2, if_true]
    have e1 : (y + 400 * era + 1 - 1) / 400 = era := by omega
    have e2 : (y + 400 * era + 1 - 1) % 400 = y := by omega
    have e3 : i - 9 + 9 = i := by omega
    rw [e1, e2, e3]
    omega

/-- The date that is computed from a day number exists. -/
theorem exists_ofDayNumber (n : Int) : (ofDayNumber n).Exists := by
  have hm0 : 0 ≤ (n + eraStart) % eraDays := Int.emod_nonneg _ (by decide)
  have hm1 : (n + eraStart) % eraDays < eraDays := Int.emod_lt_of_pos _ (by decide)
  obtain ⟨-, hy0, hy1, hd0, hd1, hleap⟩ := yearAndDay_facts hm0 hm1
  unfold ofDayNumber Exists
  simp only
  generalize (n + eraStart) / eraDays = era at *
  generalize (n + eraStart) % eraDays = doe at *
  generalize hyd : yearAndDay doe = yd at *
  obtain ⟨y, d⟩ := yd
  simp only at *
  generalize hi : (5 * d + 2) / 153 = i
  have hi0 : 0 ≤ i ∧ i ≤ 11 := by omega
  have hday : d - daysBefore i + 1 = d - (153 * i + 2) / 5 + 1 := rfl
  rw [hday]
  -- one month after the other; only February depends on the year
  have cases12 : i = 0 ∨ i = 1 ∨ i = 2 ∨ i = 3 ∨ i = 4 ∨ i = 5 ∨ i = 6 ∨ i = 7 ∨ i = 8 ∨ i = 9 ∨
      i = 10 ∨ i = 11 := by omega
  rcases cases12 with h | h | h | h | h | h | h | h | h | h | h | h
  case _ | _ | _ | _ | _ | _ | _ | _ | _ | _ | _ =>
    subst h
    simp [monthLength]
    omega
  -- February
  · subst h
    simp only [monthLength]
    by_cases h365 : d = 365
    · have hl := hleap h365
      have hl' : isLeapYear (y + 400 * era + 1) = true := by
        rw [isLeapYear_iff] at *
        omega
      simp [hl']
      omega
    · simp
      split <;> omega

end CivilDate

end Backlog

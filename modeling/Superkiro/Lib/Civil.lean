import Mathlib

-- Dates of the Gregorian calendar, and the days that they count to.
namespace Civil

def isLeap (year : Nat) : Bool := year % 4 = 0 && (year % 100 ≠ 0 || year % 400 = 0)

def yearLength (year : Nat) : Nat := if isLeap year then 366 else 365

def monthLength (year : Nat) : Nat → Nat
  | 2              => if isLeap year then 29 else 28
  | 4 | 6 | 9 | 11 => 30
  | _              => 31

def daysBeforeYear (year : Nat) : Nat := ((List.range year).map yearLength).sum

def daysBeforeMonth (year month : Nat) : Nat :=
  ((List.range' 1 (month - 1)).map (monthLength year)).sum

-- Days since the start of the year 0.
def dayNumber (year month day : Nat) : Nat :=
  daysBeforeYear year + daysBeforeMonth year month + (day - 1)

end Civil

structure Date where
  year        : Nat
  month       : Nat
  day         : Nat
  valid_month : 1 ≤ month ∧ month ≤ 12
  valid_day   : 1 ≤ day ∧ day ≤ Civil.monthLength year month

namespace Civil

variable {year month day : Nat}

theorem yearLength_eq : yearLength year = 365 + if isLeap year then 1 else 0 := by
  rw [yearLength]
  split <;> rfl

theorem isLeap_iff : isLeap year ↔ 4 ∣ year ∧ (100 ∣ year → 400 ∣ year) := by
  simp only [isLeap, Bool.and_eq_true, Bool.or_eq_true, decide_eq_true_eq, Nat.dvd_iff_mod_eq_zero]
  tauto

variable (year) in
theorem daysBeforeYear_add_one :
    daysBeforeYear (year + 1) = daysBeforeYear year + yearLength year := by
  rw [daysBeforeYear, List.range_succ, List.map_append, List.sum_append]
  simp [daysBeforeYear]

theorem daysBeforeYear_mono : Monotone daysBeforeYear :=
  monotone_nat_of_le_succ fun year => daysBeforeYear_add_one year ▸ Nat.le_add_right _ _

-- There's a leap year every four years, but in three out of four centuries.
theorem daysBeforeYear_succ : daysBeforeYear (year + 1) =
    365 * (year + 1) + year / 4 - year / 100 + year / 400 + 1 := by
  induction year
  case zero => decide
  case succ year hi =>
    have hc : year / 100 ≤ year / 4 := Nat.div_le_div_left (by decide) (by decide)
    rw [daysBeforeYear_add_one, hi, yearLength_eq, Nat.succ_div (b := 4), Nat.succ_div (b := 100),
      Nat.succ_div (b := 400)]
    by_cases hl : isLeap (year + 1)
    case pos =>
      have ⟨h₄, h₁⟩ := isLeap_iff.mp hl
      rw [if_pos hl, if_pos h₄]
      split_ifs <;> omega
    case neg =>
      have hn := mt isLeap_iff.mpr hl
      rw [if_neg hl]
      split_ifs <;> omega

theorem monthLength_le : monthLength year month ≤ 31 := by
  unfold monthLength
  split
  case h_1 => split <;> decide
  all_goals decide

-- The months of a year that starts in March are counted from 0.
def ofMarch (k : Nat) : Nat := if k < 10 then k + 3 else k - 9

def marchYear (year k : Nat) : Nat := year + if ofMarch k ≤ 2 then 1 else 0

theorem ofMarch_mem {k : Nat} (h : k < 12) : 1 ≤ ofMarch k ∧ ofMarch k ≤ 12 := by
  rw [ofMarch]
  split <;> omega

variable (year) in
theorem daysBeforeYear_march : daysBeforeYear year + 59 + (if isLeap year then 1 else 0) =
    60 + 365 * year + year / 4 - year / 100 + year / 400 := by
  have hs := daysBeforeYear_add_one year
  have hc : year / 100 ≤ year / 4 := Nat.div_le_div_left (by decide) (by decide)
  rw [daysBeforeYear_succ, yearLength_eq] at hs
  omega

theorem daysBeforeMonth_march {k : Nat} (h : k < 10) : daysBeforeMonth year (k + 3) =
    59 + (if isLeap year then 1 else 0) + (153 * k + 2) / 5 := by
  interval_cases k
  all_goals
    simp [daysBeforeMonth, List.range', monthLength]
    split <;> rfl

-- The lengths of the months, counted from March, follow a line.
variable (year day) in
theorem dayNumber_march {k : Nat} (h : k < 12) : dayNumber (marchYear year k) (ofMarch k) day =
    60 + (365 * year + year / 4 - year / 100 + year / 400) + (153 * k + 2) / 5 + (day - 1) := by
  have hc : year / 100 ≤ year / 4 := Nat.div_le_div_left (by decide) (by decide)
  rw [dayNumber, marchYear, ofMarch]
  by_cases hk : k < 10
  case pos =>
    have := daysBeforeYear_march year
    rw [if_pos hk, if_neg (by omega), Nat.add_zero, daysBeforeMonth_march hk]
    omega
  case neg =>
    rw [if_neg hk, if_pos (by omega), daysBeforeYear_succ]
    obtain rfl | rfl : k = 10 ∨ k = 11 := by omega
    · rw [show daysBeforeMonth (year + 1) (10 - 9) = 0 from rfl]
      omega
    · rw [show daysBeforeMonth (year + 1) (11 - 9) = 31 from rfl]
      omega

theorem monthLength_march {k : Nat} (h : k < 11) : monthLength (marchYear year k) (ofMarch k) =
    (153 * (k + 1) + 2) / 5 - (153 * k + 2) / 5 := by
  interval_cases k <;> rfl

-- A date comes before the years after its own.
theorem dayNumber_lt (d : Date) : dayNumber d.year d.month d.day < daysBeforeYear (d.year + 1) := by
  have ⟨hm, hm'⟩ := d.valid_month
  have ⟨hd, hd'⟩ := d.valid_day
  have hl : daysBeforeMonth d.year d.month + monthLength d.year d.month ≤ yearLength d.year := by
    generalize d.month = month at *
    interval_cases month
    all_goals
      simp [daysBeforeMonth, List.range', monthLength, yearLength]
      try split <;> decide
  rw [dayNumber, daysBeforeYear_add_one]
  omega

theorem year_lt_of_dayNumber_lt {d : Date}
    (h : dayNumber d.year d.month d.day < daysBeforeYear year) : d.year < year := by
  by_contra hy
  have := daysBeforeYear_mono (Nat.not_lt.mp hy)
  rw [dayNumber] at h
  omega

theorem le_year_of_le_dayNumber {d : Date}
    (h : daysBeforeYear year ≤ dayNumber d.year d.month d.day) : year ≤ d.year := by
  by_contra hy
  have hl : daysBeforeYear (d.year + 1) ≤ daysBeforeYear year :=
    daysBeforeYear_mono (Nat.not_le.mp hy)
  have := dayNumber_lt d
  omega

-- A day of 400 years that start in March: the year of them, and the day of that year. Only a leap
-- year ends with a 366th day.
structure EraDay (yoe doy : Nat) : Prop where
  year_lt : yoe < 400
  day_le  : doy ≤ 365
  leap    : doy = 365 → isLeap (yoe + 1)

def EraDay.number (yoe doy : Nat) : Nat := 365 * yoe + yoe / 4 - yoe / 100 + doy

theorem eraDay_centuries {c b a doy : Nat} (hc : c < 4) (hb : b < 25) (ha : a < 4) (hd : doy ≤ 365)
    (hl : doy = 365 → a = 3 ∧ (b = 24 → c = 3)) : EraDay (100 * c + 4 * b + a) doy where
  year_lt := by omega
  day_le  := hd
  leap    := fun h => by
    have ⟨ha, hb⟩ := hl h
    rw [isLeap_iff]
    omega

theorem EraDay.centuries {yoe doy : Nat} (h : EraDay yoe doy) : ∃ c b a, c < 4 ∧ b < 25 ∧ a < 4 ∧
    yoe = 100 * c + 4 * b + a ∧ (doy = 365 → a = 3 ∧ (b = 24 → c = 3)) := by
  have := h.year_lt
  refine ⟨yoe / 100, yoe % 100 / 4, yoe % 4, by omega, by omega, by omega, by omega, fun hd => ?_⟩
  have := isLeap_iff.mp (h.leap hd)
  omega

theorem number_centuries {c b a doy : Nat} (hb : b < 25) (ha : a < 4) :
    EraDay.number (100 * c + 4 * b + a) doy = 36524 * c + 1461 * b + 365 * a + doy := by
  rw [EraDay.number]
  omega

theorem EraDay.number_lt {yoe doy : Nat} (h : EraDay yoe doy) : EraDay.number yoe doy < 146097 := by
  have ⟨c, b, a, hc, hb, ha, he, hl⟩ := h.centuries
  have := h.day_le
  rw [he, number_centuries hb ha]
  omega

-- Every day of the 146097 is one of a year.
theorem exists_eraDay {doe : Nat} (h : doe < 146097) :
    ∃ yoe doy, EraDay yoe doy ∧ EraDay.number yoe doy = doe := by
  let c := min (doe / 36524) 3
  let r := doe - 36524 * c
  let a := min (r % 1461 / 365) 3
  have hc : c = min (doe / 36524) 3 := rfl
  have hr : r = doe - 36524 * c := rfl
  have ha : a = min (r % 1461 / 365) 3 := rfl
  clear_value c r a
  refine ⟨100 * c + 4 * (r / 1461) + a, r % 1461 - 365 * a, ?_, ?_⟩
  · exact eraDay_centuries (by omega) (by omega) (by omega) (by omega) (by omega)
  · rw [number_centuries (by omega) (by omega)]
    omega

-- The year is the number of days, less the leap days, by 365.
theorem EraDay.year_eq {yoe doy : Nat} (h : EraDay yoe doy) : let doe := EraDay.number yoe doy
    (doe - doe / 1460 + doe / 36524 - doe / 146096) / 365 = yoe := by
  have ⟨c, b, a, hc, hb, ha, he, hl⟩ := h.centuries
  have := h.day_le
  rw [he, number_centuries hb ha]
  intro doe
  have hd : doe = 36524 * c + 1461 * b + 365 * a + doy := rfl
  clear_value doe
  have hg : doe / 1460 = 25 * c + b ∧ doy < 365 ∨ doe / 1460 = 25 * c + b + 1 ∧ 0 < doy := by omega
  have hr : 1461 * b + 365 * a + doy < 36524 ∨ doe = 146096 := by omega
  cases hr
  case inl hr =>
    have : doe / 36524 = c := by omega
    have : doe / 146096 = 0 := by omega
    omega
  case inr hr =>
    subst hr
    omega

-- The month and the day of a day of a year.
theorem EraDay.valid {yoe doy : Nat} (h : EraDay yoe doy) (era : Nat) :
    let k := (5 * doy + 2) / 153
    k < 12 ∧ (153 * k + 2) / 5 ≤ doy ∧ doy - (153 * k + 2) / 5 + 1 ≤
      monthLength (marchYear (yoe + era * 400) k) (ofMarch k) := by
  intro k
  have hk : k = (5 * doy + 2) / 153 := rfl
  clear_value k
  have := h.day_le
  refine ⟨by omega, by omega, ?_⟩
  by_cases hf : k < 11
  case pos =>
    rw [monthLength_march hf]
    omega
  case neg =>
    obtain rfl : k = 11 := by omega
    change _ ≤ monthLength (yoe + era * 400 + 1) 2
    rw [monthLength]
    split
    case isTrue => omega
    case isFalse hl =>
      have hd : doy ≠ 365 := by
        intro hd
        have := isLeap_iff.mp (h.leap hd)
        exact hl (isLeap_iff.mpr (by omega))
      omega

theorem EraDay.dayNumber_eq {yoe doy : Nat} (h : EraDay yoe doy) (era : Nat) :
    let k := (5 * doy + 2) / 153
    dayNumber (marchYear (yoe + era * 400) k) (ofMarch k) (doy - (153 * k + 2) / 5 + 1) =
      60 + 146097 * era + EraDay.number yoe doy := by
  intro k
  have ⟨hk, hd, _⟩ := h.valid era
  have := h.year_lt
  have : (yoe + era * 400) / 4 = yoe / 4 + 100 * era := by omega
  have : (yoe + era * 400) / 100 = yoe / 100 + 4 * era := by omega
  have : (yoe + era * 400) / 400 = era := by omega
  rw [dayNumber_march _ _ hk, EraDay.number]
  change (153 * k + 2) / 5 ≤ doy at hd
  omega

end Civil

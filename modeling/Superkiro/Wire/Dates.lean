import Superkiro.Lib.Civil
import Superkiro.Lib.Decimal

namespace Wire.Dates

open Text

def formatEpochToIso8601 (epochSecs : Nat) : String :=
  let days := epochSecs / 86400
  let remSecs := epochSecs % 86400
  let hours := remSecs / 3600
  let minutes := remSecs % 3600 / 60
  let seconds := remSecs % 60
  let z : Int := days + 719468
  let era := (if 0 ≤ z then z else z - 146096).tdiv 146097
  let doe := (z - era * 146097).toNat
  let yoe := (doe - doe / 1460 + doe / 36524 - doe / 146096) / 365
  let y : Int := yoe + era * 400
  let doy := doe - (365 * yoe + yoe / 4 - yoe / 100)
  let mp := (5 * doy + 2) / 153
  let d := doy - (153 * mp + 2) / 5 + 1
  let m := if mp < 10 then mp + 3 else mp - 9
  let y := if m ≤ 2 then y + 1 else y
  padded 4 y.toNat ++ "-" ++ padded 2 m ++ "-" ++ padded 2 d ++ "T" ++ padded 2 hours ++ ":" ++
    padded 2 minutes ++ ":" ++ padded 2 seconds ++ "Z"

-- The date of a day since 1970.
def utcDate (days : Nat) : String :=
  let z : Int := days + 719468
  let era := z.tdiv 146097
  let doe := z - era * 146097
  let yoe := (doe - doe.tdiv 1460 + doe.tdiv 36524 - doe.tdiv 146096).tdiv 365
  let year := yoe + era * 400
  let doy := doe - (365 * yoe + yoe.tdiv 4 - yoe.tdiv 100)
  let mp := (5 * doy + 2).tdiv 153
  let day := doy - (153 * mp + 2).tdiv 5 + 1
  let month := mp + if mp < 10 then 3 else -9
  let year := year + if month ≤ 2 then 1 else 0
  padded 4 year.toNat ++ "-" ++ padded 2 month.toNat ++ "-" ++ padded 2 day.toNat

-- Days since 1970, where the months are counted from March.
def daysFromCivil (year : Int) (month day : Nat) : Int :=
  let y := if month ≤ 2 then year - 1 else year
  let m := if month ≤ 2 then month + 9 else month - 3
  let era := (if 0 ≤ y then y else y - 399).tdiv 400
  let yoe := (y - era * 400).toNat
  let doy := (153 * m + 2) / 5 + day - 1
  let doe := yoe * 365 + yoe / 4 - yoe / 100 + doy
  era * 146097 + doe - 719468

-- What `parse` takes for an unsigned number. The parts of a date are too short to overflow.
def parseU64 : List Char → Option Nat
  | '+' :: cs => Decimal.digits? cs
  | cs        => Decimal.digits? cs

def parseI64 : List Char → Option Int
  | '-' :: cs => (Decimal.digits? cs).map fun n => -n
  | '+' :: cs => (Decimal.digits? cs).map (↑)
  | cs        => (Decimal.digits? cs).map (↑)

def slice (cs : List Char) (start stop : Nat) : List Char := (cs.drop start).take (stop - start)

-- The hours and minutes behind a sign, as seconds. Those that aren't numbers count for nothing.
def zoneSecs (zone : List Char) : Nat :=
  match parseU64 (slice zone 0 2), parseU64 (slice zone 3 5) with
  | some oh, some om => oh * 3600 + om * 60
  | _, _             => 0

def shifted (total : Nat) (rest : List Char) : Option Nat :=
  match rest.dropWhile (· ≠ '+') with
  | _ :: zone => if zone.length < 5 then none else some (total - zoneSecs zone)
  | []        =>
    match rest.dropWhile (· ≠ '-') with
    | _ :: zone => if zone.length < 5 then none else some (total + zoneSecs zone)
    | []        => some total

def parseIso8601ToEpoch (s : String) : Option Nat := do
  let cs := s.toList
  if ¬cs.all (·.toNat < 128) ∨ cs.length < 19 ∨ cs[10]? ≠ some 'T' then none
  let year ← parseI64 (slice cs 0 4)
  let month ← parseU64 (slice cs 5 7)
  let day ← parseU64 (slice cs 8 10)
  let hour ← parseU64 (slice cs 11 13)
  let minute ← parseU64 (slice cs 14 16)
  let second ← parseU64 (slice cs 17 19)
  if ¬(1 ≤ month ∧ month ≤ 12) ∨ ¬(1 ≤ day ∧ day ≤ 31) ∨ 23 < hour ∨ 59 < minute ∨ 60 < second then
    none
  let days := daysFromCivil year month day
  if days < 0 then none
  shifted (days.toNat * 86400 + hour * 3600 + minute * 60 + second) (cs.drop 19)

variable {days era yoe doy year month day : Nat}

-- The date of a day, in the code's terms.
theorem exists_eraDay_of_days (days : Nat) : ∃ era yoe doy, Civil.EraDay yoe doy ∧
    days + 719468 = 146097 * era + Civil.EraDay.number yoe doy := by
  have ⟨yoe, doy, h, he⟩ := Civil.exists_eraDay (Nat.mod_lt (days + 719468) (by decide : 0 < 146097))
  exact ⟨(days + 719468) / 146097, yoe, doy, h, by rw [he, Nat.div_add_mod]⟩

def dateText (d : Date) : String :=
  padded 4 d.year ++ "-" ++ padded 2 d.month ++ "-" ++ padded 2 d.day

def clockText (hour minute second : Nat) : String :=
  padded 2 hour ++ ":" ++ padded 2 minute ++ ":" ++ padded 2 second

theorem number_sub :
    Civil.EraDay.number yoe doy - (365 * yoe + yoe / 4 - yoe / 100) = doy :=
  Nat.add_sub_cancel_left ..

-- The date that a day since 1970 falls on.
def ofEraDay (h : Civil.EraDay yoe doy) (era : Nat) : Date :=
  let k := (5 * doy + 2) / 153
  have hv := h.valid era
  ⟨Civil.marchYear (yoe + era * 400) k, Civil.ofMarch k, doy - (153 * k + 2) / 5 + 1,
    Civil.ofMarch_mem hv.left, Nat.le_add_left _ _, hv.right.right⟩

theorem isoUtc_eq (h : Civil.EraDay yoe doy) {secs : Nat}
    (hs : secs / 86400 + 719468 = 146097 * era + Civil.EraDay.number yoe doy) :
    isoUtc secs = dateText (ofEraDay h era) ++ "T" ++
      clockText (secs % 86400 / 3600) (secs % 86400 % 3600 / 60) (secs % 86400 % 60) ++ "Z" := by
  have hn := h.number_lt
  have he : (146097 * era + Civil.EraDay.number yoe doy) / 146097 = era := by omega
  have hd : (146097 * era + Civil.EraDay.number yoe doy) % 146097 =
      Civil.EraDay.number yoe doy := by
    omega
  rw [isoUtc, hs, he, hd, h.year_eq, number_sub]
  simp only [String.append_assoc, dateText, clockText, ofEraDay, Civil.marchYear, Civil.ofMarch]
  rfl

theorem tdiv_era (h : Civil.EraDay yoe doy)
    (hd : days + 719468 = 146097 * era + Civil.EraDay.number yoe doy) :
    ((days : Int) + 719468).tdiv 146097 = era ∧
      (days : Int) + 719468 - era * 146097 = Civil.EraDay.number yoe doy := by
  have hn := h.number_lt
  rw [Int.tdiv_eq_ediv_of_nonneg (by omega)]
  omega

theorem formatEpochToIso8601_eq (h : Civil.EraDay yoe doy) {secs : Nat}
    (hs : secs / 86400 + 719468 = 146097 * era + Civil.EraDay.number yoe doy) :
    formatEpochToIso8601 secs = dateText (ofEraDay h era) ++ "T" ++
      clockText (secs % 86400 / 3600) (secs % 86400 % 3600 / 60) (secs % 86400 % 60) ++ "Z" := by
  have ⟨he, hd⟩ := tdiv_era h hs
  have hy : ∀ m : Nat, (if m ≤ 2 then ((yoe : Int) + era * 400) + 1 else yoe + era * 400).toNat =
      yoe + era * 400 + if m ≤ 2 then 1 else 0 := by
    intro m
    split <;> omega
  have hz : (0 : Int) ≤ ((secs / 86400 : Nat) : Int) + 719468 := by omega
  simp only [formatEpochToIso8601]
  rw [if_pos hz, he, hd, Int.toNat_natCast, h.year_eq, number_sub, hy]
  simp only [String.append_assoc, dateText, clockText, ofEraDay, Civil.marchYear, Civil.ofMarch]
  rfl

theorem utcDate_eq (h : Civil.EraDay yoe doy)
    (hd : days + 719468 = 146097 * era + Civil.EraDay.number yoe doy) :
    utcDate days = dateText (ofEraDay h era) := by
  obtain ⟨he, hd⟩ := tdiv_era h hd
  have hy : ((Civil.EraDay.number yoe doy : Int) - (Civil.EraDay.number yoe doy : Int).tdiv 1460 +
      (Civil.EraDay.number yoe doy : Int).tdiv 36524 -
      (Civil.EraDay.number yoe doy : Int).tdiv 146096).tdiv 365 = yoe := by
    have hy := congrArg (Nat.cast (R := Int)) h.year_eq
    rw [← hy]
    generalize Civil.EraDay.number yoe doy = n
    simp only [Int.natCast_tdiv_eq_ediv]
    rw [Int.tdiv_eq_ediv_of_nonneg (by omega)]
    omega
  have hn : (Civil.EraDay.number yoe doy : Int) -
      (365 * yoe + (yoe : Int).tdiv 4 - (yoe : Int).tdiv 100) = doy := by
    simp only [Civil.EraDay.number, Int.natCast_tdiv_eq_ediv]
    omega
  have hk : (5 * (doy : Int) + 2).tdiv 153 = ((5 * doy + 2) / 153 : Nat) := by
    rw [Int.tdiv_eq_ediv_of_nonneg (by omega)]
    omega
  have hd' : (153 * ((5 * doy + 2) / 153 : Nat) + 2 : Int).tdiv 5 =
      ((153 * ((5 * doy + 2) / 153) + 2) / 5 : Nat) := by
    rw [Int.tdiv_eq_ediv_of_nonneg (by omega)]
    omega
  obtain ⟨hk', hv, _⟩ := h.valid era
  simp only [utcDate, he, hd, hy, hn, hk, hd', dateText, ofEraDay, Civil.marchYear]
  generalize (5 * doy + 2) / 153 = k at *
  have hm : ((k : Int) + if (k : Int) < 10 then 3 else -9) = (Civil.ofMarch k : Int) := by
    rw [Civil.ofMarch]
    split_ifs <;> omega
  have hy' : ∀ m : Nat, ((yoe : Int) + era * 400 + if (m : Int) ≤ 2 then 1 else 0).toNat =
      yoe + era * 400 + if m ≤ 2 then 1 else 0 := by
    intro m
    split_ifs <;> omega
  have hd'' : ((doy : Int) - ((153 * k + 2) / 5 : Nat) + 1).toNat =
      doy - (153 * k + 2) / 5 + 1 := by
    omega
  rw [hm, hy', hd'', Int.toNat_natCast]

theorem dayNumber_epoch : Civil.dayNumber 1970 1 1 = 719528 := by
  rw [Civil.dayNumber, Civil.daysBeforeYear_succ]
  rfl

variable (month day) in
theorem epoch_le_dayNumber (h : 1970 ≤ year) : 719528 ≤ Civil.dayNumber year month day := by
  have hm := Civil.daysBeforeYear_mono h
  rw [Civil.daysBeforeYear_succ] at hm
  rw [Civil.dayNumber]
  omega

theorem daysFromCivil_eq (hy : 1 ≤ year) (hm : 1 ≤ month ∧ month ≤ 12) (hd : 1 ≤ day) :
    daysFromCivil year month day = (Civil.dayNumber year month day : Int) - 719528 := by
  let y := if month ≤ 2 then year - 1 else year
  let k := if month ≤ 2 then month + 9 else month - 3
  have he : (if month ≤ 2 then (year : Int) - 1 else year) = (y : Int) := by
    simp only [y]
    split <;> omega
  have hk : Civil.ofMarch k = month ∧ k < 12 := by
    simp only [k, Civil.ofMarch]
    split_ifs <;> omega
  have hs : Civil.marchYear y k = year := by
    simp only [Civil.marchYear, hk.left, y]
    split <;> omega
  have hn := Civil.dayNumber_march y day hk.right
  rw [hs, hk.left] at hn
  have hz : (0 : Int) ≤ y := by omega
  simp only [daysFromCivil, he]
  rw [if_pos hz, Int.tdiv_eq_ediv_of_nonneg hz]
  change _ + ((_ + ((153 * k + 2) / 5 + day - 1) : Nat) : Int) - _ = _
  have hq : ((y : Int) - (y : Int) / 400 * 400).toNat = y % 400 := by omega
  rw [hq, hn]
  have : y / 4 = y / 400 * 100 + y % 400 / 4 := by omega
  have : y / 100 = y / 400 * 4 + y % 400 / 100 := by omega
  omega

-- Years before 1970 are over before it.
theorem daysFromCivil_neg {year : Int} (hy : year < 1970) (hm : month ≤ 12) (hd : day ≤ 31) :
    daysFromCivil year month day < 0 := by
  have he : ∀ y : Int, (if 0 ≤ y then y else y - 399).tdiv 400 = y / 400 := by
    intro y
    split
    case isTrue h => exact Int.tdiv_eq_ediv_of_nonneg h
    case isFalse h =>
      rw [← neg_sub, Int.neg_tdiv, Int.tdiv_eq_ediv_of_nonneg (by omega)]
      omega
  simp only [daysFromCivil, he]
  split_ifs with h
  case pos => omega
  case neg => omega

-- The parts that are read of a text, where they are in range.
structure Parsed (cs : List Char) (year : Int) (month day hour minute second : Nat) : Prop where
  ascii  : cs.all (·.toNat < 128) = true
  length : 19 ≤ cs.length
  t      : cs[10]? = some 'T'
  year   : parseI64 (slice cs 0 4) = some year
  month  : parseU64 (slice cs 5 7) = some month ∧ 1 ≤ month ∧ month ≤ 12
  day    : parseU64 (slice cs 8 10) = some day ∧ 1 ≤ day ∧ day ≤ 31
  hour   : parseU64 (slice cs 11 13) = some hour ∧ hour ≤ 23
  minute : parseU64 (slice cs 14 16) = some minute ∧ minute ≤ 59
  second : parseU64 (slice cs 17 19) = some second ∧ second ≤ 60

theorem parse_eq_some {s : String} {n : Nat} : parseIso8601ToEpoch s = some n ↔
    ∃ year month day hour minute second, Parsed s.toList year month day hour minute second ∧
      0 ≤ daysFromCivil year month day ∧
      shifted ((daysFromCivil year month day).toNat * 86400 + hour * 3600 + minute * 60 + second)
        (s.toList.drop 19) = some n := by
  simp only [parseIso8601ToEpoch, Option.bind_eq_bind, Option.bind_none, Option.bind_eq_some_iff,
    Option.ite_none_left_eq_some]
  constructor
  case mp =>
    intro ⟨hc, year, hy, month, hm, day, hd, hour, hh, minute, hn, second, hs, hr, hp, ht⟩
    simp only [not_or, not_not, ne_eq, Nat.not_lt] at hc hr
    have ⟨ha, hl, ht'⟩ := hc
    have ⟨hm', hd', hh', hn', hs'⟩ := hr
    exact ⟨year, month, day, hour, minute, second,
      ⟨ha, hl, ht', hy, ⟨hm, hm'⟩, ⟨hd, hd'⟩, ⟨hh, hh'⟩, ⟨hn, hn'⟩, hs, hs'⟩, Int.not_lt.mp hp, ht⟩
  case mpr =>
    intro ⟨year, month, day, hour, minute, second, hp, hd, hs⟩
    refine ⟨?_, year, hp.year, month, hp.month.left, day, hp.day.left, hour, hp.hour.left, minute,
      hp.minute.left, second, hp.second.left, ?_, Int.not_lt.mpr hd, hs⟩
    · simp only [not_or, not_not, ne_eq, Nat.not_lt]
      exact ⟨hp.ascii, hp.length, hp.t⟩
    · simp only [not_or, not_not, Nat.not_lt]
      exact ⟨hp.month.right, hp.day.right, hp.hour.right, hp.minute.right, hp.second.right⟩

-- How far a timestamp's clock is ahead of the universal one.
inductive Zone
  | utc
  | ahead (hour minute : Nat) (valid : hour < 24 ∧ minute < 60)
  | behind (hour minute : Nat) (valid : hour < 24 ∧ minute < 60)

namespace Zone

def secs : Zone → Int
  | utc                  => 0
  | ahead hour minute _  => hour * 3600 + minute * 60
  | behind hour minute _ => -(hour * 3600 + minute * 60)

def text : Zone → String
  | utc                  => "Z"
  | ahead hour minute _  => "+" ++ padded 2 hour ++ ":" ++ padded 2 minute
  | behind hour minute _ => "-" ++ padded 2 hour ++ ":" ++ padded 2 minute

end Zone

-- What RFC 3339 has for a timestamp. There is a second 60 where a minute has a leap second.
structure Timestamp where
  date         : Date
  hour         : Nat
  minute       : Nat
  second       : Nat
  fraction     : List Char
  zone         : Zone
  valid_year   : date.year ≤ 9999
  valid_clock  : hour ≤ 23 ∧ minute ≤ 59 ∧ second ≤ 60
  valid_digits : ∀ c ∈ fraction, c.isDigit

namespace Timestamp

variable (t : Timestamp)

def fractionText : String := if t.fraction = [] then "" else "." ++ .ofList t.fraction

def text : String :=
  dateText t.date ++ "T" ++ clockText t.hour t.minute t.second ++ t.fractionText ++ t.zone.text

-- Seconds since 1970, of its own clock.
def localSecs : Int :=
  (Civil.dayNumber t.date.year t.date.month t.date.day - Civil.dayNumber 1970 1 1 : Int) * 86400 +
    t.hour * 3600 + t.minute * 60 + t.second

-- Seconds since 1970.
def instant : ℚ :=
  t.localSecs + (Nat.ofDigitChars 10 t.fraction 0 : ℚ) / 10 ^ t.fraction.length - t.zone.secs

variable {t}

theorem floor_instant : ⌊t.instant⌋ = t.localSecs - t.zone.secs := by
  have hl := Decimal.ofDigitChars_lt (n := 0) t.valid_digits
  have hp : (0 : ℚ) < 10 ^ t.fraction.length := by positivity
  have hf : (Nat.ofDigitChars 10 t.fraction 0 : ℚ) / 10 ^ t.fraction.length < 1 := by
    rw [div_lt_one hp]
    exact_mod_cast (by simpa using hl)
  have hn : (0 : ℚ) ≤ (Nat.ofDigitChars 10 t.fraction 0 : ℚ) / 10 ^ t.fraction.length := by
    positivity
  rw [Int.floor_eq_iff, instant]
  push_cast
  constructor <;> linarith

end Timestamp

theorem parseU64_digits {cs : List Char} (h : ∀ c ∈ cs, c.isDigit) :
    parseU64 cs = Decimal.digits? cs := by
  unfold parseU64
  split
  case h_1 => exact absurd (h '+' List.mem_cons_self) (by decide)
  case h_2 => rfl

theorem parseI64_digits {cs : List Char} (h : ∀ c ∈ cs, c.isDigit) :
    parseI64 cs = (Decimal.digits? cs).map (↑) := by
  unfold parseI64
  split
  case h_1 => exact absurd (h '-' List.mem_cons_self) (by decide)
  case h_2 => exact absurd (h '+' List.mem_cons_self) (by decide)
  case h_3 => rfl

theorem parseU64_lt {cs : List Char} {n : Nat} (h : parseU64 cs = some n) : n < 10 ^ cs.length := by
  have hd : ∀ {cs : List Char}, Decimal.digits? cs = some n → n < 10 ^ cs.length := by
    intro cs h
    rw [Decimal.digits?] at h
    split_ifs at h with hc
    cases h
    simpa using Decimal.ofDigitChars_lt (n := 0) (List.all_eq_true.mp hc.right)
  unfold parseU64 at h
  split at h
  case h_1 => exact (hd h).trans (Nat.pow_lt_pow_right (by decide) (Nat.lt_succ_self _))
  case h_2 => exact hd h

theorem zoneSecs_le (zone : List Char) : zoneSecs zone ≤ 99 * 3600 + 99 * 60 := by
  have hl : ∀ {start n : Nat}, parseU64 (slice zone start (start + 2)) = some n → n ≤ 99 := by
    intro start n h
    have hl : (slice zone start (start + 2)).length ≤ 2 := by
      rw [slice, Nat.add_sub_cancel_left]
      exact List.length_take_le _ _
    have := Nat.pow_le_pow_right (n := 10) (by decide) hl
    have := parseU64_lt h
    omega
  rw [zoneSecs]
  split
  case h_1 oh om hh hm =>
    have := hl hh
    have := hl hm
    omega
  case h_2 => exact Nat.zero_le _

theorem of_shifted {total n : Nat} {rest : List Char} (h : shifted total rest = some n) :
    ∃ zone : Int, |zone| ≤ 99 * 3600 + 99 * 60 ∧ n = ((total : Int) - zone).toNat := by
  rw [shifted] at h
  split at h
  case h_1 _ zone _ =>
    split_ifs at h
    have := zoneSecs_le zone
    exact ⟨zoneSecs zone, by rw [abs_of_nonneg (by omega)]; omega, by cases h; omega⟩
  case h_2 =>
    split at h
    case h_1 _ zone _ =>
      split_ifs at h
      have := zoneSecs_le zone
      exact ⟨-zoneSecs zone, by rw [abs_neg, abs_of_nonneg (by omega)]; omega, by cases h; omega⟩
    case h_2 => exact ⟨0, by decide, by cases h; omega⟩

theorem parse_padded {width n : Nat} (h : n < 10 ^ width) (hw : 0 < width) :
    parseU64 (padded width n).toList = some n ∧
      parseI64 (padded width n).toList = some (n : Int) := by
  have hd := Decimal.isDigit_padded h hw
  rw [parseU64_digits hd, parseI64_digits hd, (Decimal.digits?_padded h hw).left]
  exact ⟨rfl, rfl⟩

-- The parts of a date and time stand where they are read.
theorem slices {year month day hour minute second : List Char} (rest : List Char) (hy : year.length = 4)
    (hm : month.length = 2) (hd : day.length = 2) (hh : hour.length = 2) (hn : minute.length = 2)
    (hs : second.length = 2) : let cs := year ++ '-' :: (month ++ '-' :: (day ++ 'T' :: (hour ++
      ':' :: (minute ++ ':' :: (second ++ rest)))))
    slice cs 0 4 = year ∧ slice cs 5 7 = month ∧ slice cs 8 10 = day ∧ slice cs 11 13 = hour ∧
      slice cs 14 16 = minute ∧ slice cs 17 19 = second ∧ cs.drop 19 = rest ∧
      cs[10]? = some 'T' ∧ 19 ≤ cs.length := by
  match year, month, day, hour, minute, second, hy, hm, hd, hh, hn, hs with
  | [_, _, _, _], [_, _], [_, _], [_, _], [_, _], [_, _], _, _, _, _, _, _ =>
    refine ⟨rfl, rfl, rfl, rfl, rfl, rfl, rfl, rfl, ?_⟩
    simp only [List.cons_append, List.nil_append, List.length_cons]
    omega

theorem zoneSecs_text {hour minute : Nat} (h : hour < 24 ∧ minute < 60) :
    zoneSecs ((padded 2 hour).toList ++ ':' :: (padded 2 minute).toList) =
      hour * 3600 + minute * 60 ∧
    ((padded 2 hour).toList ++ ':' :: (padded 2 minute).toList).length = 5 := by
  have hl₁ := (Decimal.digits?_padded (by omega : hour < 10 ^ 2) (by decide)).right
  have hl₂ := (Decimal.digits?_padded (by omega : minute < 10 ^ 2) (by decide)).right
  have hp₁ := (parse_padded (by omega : hour < 10 ^ 2) (by decide)).left
  have hp₂ := (parse_padded (by omega : minute < 10 ^ 2) (by decide)).left
  have h₁ : slice ((padded 2 hour).toList ++ ':' :: (padded 2 minute).toList) 0 2 =
      (padded 2 hour).toList := List.take_left' hl₁
  have h₂ : slice ((padded 2 hour).toList ++ ':' :: (padded 2 minute).toList) 3 5 =
      (padded 2 minute).toList := by
    rw [slice, ← List.singleton_append, ← List.append_assoc, List.drop_left' (by simp [hl₁])]
    exact List.take_of_length_le hl₂.le
  rw [zoneSecs, h₁, h₂, hp₁, hp₂]
  exact ⟨rfl, by simp [hl₁, hl₂]⟩

namespace Timestamp

variable {t : Timestamp}

-- No sign comes before that of the zone.
theorem dropWhile_fraction {sign : Char} (h : sign = '+' ∨ sign = '-') (rest : List Char) :
    (t.fractionText.toList ++ rest).dropWhile (· ≠ sign) = rest.dropWhile (· ≠ sign) := by
  refine List.dropWhile_append_of_pos fun c hc => ?_
  rw [decide_eq_true_eq]
  rintro rfl
  rw [fractionText] at hc
  split at hc
  case isTrue => cases hc
  case isFalse =>
    rw [String.toList_append, String.toList_ofList, List.mem_append] at hc
    cases hc
    case inl hc =>
      obtain rfl | rfl := h <;> revert hc <;> decide
    case inr hc =>
      have hd := t.valid_digits _ (by simpa using hc)
      obtain rfl | rfl := h <;> revert hd <;> decide

theorem toList_zone {hour minute : Nat} (sign : String) :
    (sign ++ padded 2 hour ++ ":" ++ padded 2 minute).toList =
      sign.toList ++ ((padded 2 hour).toList ++ ':' :: (padded 2 minute).toList) := by
  simp only [String.toList_append, List.append_assoc]
  rfl

theorem shifted_zone {total : Nat} : shifted total (t.fractionText.toList ++ t.zone.text.toList) =
    some ((total : Int) - t.zone.secs).toNat := by
  rw [shifted, dropWhile_fraction (.inl rfl), dropWhile_fraction (.inr rfl)]
  cases t.zone
  case utc => rw [Zone.secs, Int.sub_zero, Int.toNat_natCast]; rfl
  case ahead hour minute h =>
    have ⟨hz, hl⟩ := zoneSecs_text h
    rw [Zone.text, toList_zone, Zone.secs]
    generalize (padded 2 hour).toList ++ ':' :: (padded 2 minute).toList = zone at hz hl
    change (if zone.length < 5 then none else some (total - zoneSecs zone)) = _
    rw [hz, hl, if_neg (by decide)]
    congr 1
    omega
  case behind hour minute h =>
    have ⟨hz, hl⟩ := zoneSecs_text h
    have hd : ∀ c ∈ (padded 2 hour).toList ++ ':' :: (padded 2 minute).toList, c ≠ '+' := by
      have hh := Decimal.isDigit_padded (by omega : hour < 10 ^ 2) (by decide)
      have hm := Decimal.isDigit_padded (by omega : minute < 10 ^ 2) (by decide)
      rintro c hc rfl
      simp only [List.mem_append, List.mem_cons] at hc
      obtain hc | hc | hc := hc
      · exact absurd (hh _ hc) (by decide)
      · exact absurd hc (by decide)
      · exact absurd (hm _ hc) (by decide)
    rw [Zone.text, toList_zone, Zone.secs]
    generalize (padded 2 hour).toList ++ ':' :: (padded 2 minute).toList = zone at hz hl hd
    have he : ('-' :: zone).dropWhile (· ≠ '+') = [] := by
      rw [List.dropWhile_eq_nil_iff]
      exact List.forall_mem_cons.mpr ⟨by decide, fun c hc => decide_eq_true (hd c hc)⟩
    change (match ('-' :: zone).dropWhile (· ≠ '+') with
      | _ :: zone => if zone.length < 5 then none else some (total - zoneSecs zone)
      | []        => if zone.length < 5 then none else some (total + zoneSecs zone)) = _
    rw [he]
    dsimp only
    rw [hz, hl, if_neg (by decide)]
    congr 1
    omega

def rest (t : Timestamp) : List Char := t.fractionText.toList ++ t.zone.text.toList

theorem toList_text : t.text.toList = (padded 4 t.date.year).toList ++ '-' ::
    ((padded 2 t.date.month).toList ++ '-' :: ((padded 2 t.date.day).toList ++ 'T' ::
      ((padded 2 t.hour).toList ++ ':' :: ((padded 2 t.minute).toList ++ ':' ::
        ((padded 2 t.second).toList ++ t.rest))))) := by
  have hs : "-".toList = ['-'] ∧ "T".toList = ['T'] ∧ ":".toList = [':'] := ⟨rfl, rfl, rfl⟩
  simp only [text, dateText, clockText, rest, String.toList_append, List.append_assoc, hs,
    List.cons_append, List.nil_append]

def ascii (c : Char) : Bool := c.toNat < 128

theorem ascii_of_isDigit {cs : List Char} (h : ∀ c ∈ cs, c.isDigit) : cs.all ascii = true := by
  rw [List.all_eq_true]
  intro c hc
  have hd := h c hc
  simp only [Char.isDigit, ge_iff_le, Bool.and_eq_true, decide_eq_true_eq] at hd
  have := UInt32.le_iff_toNat_le.mp hd.right
  change c.toNat ≤ 57 at this
  rw [ascii, decide_eq_true_eq]
  omega

theorem ascii_padded {width n : Nat} (h : n < 10 ^ width) (hw : 0 < width) :
    (padded width n).toList.all ascii = true := ascii_of_isDigit (Decimal.isDigit_padded h hw)

theorem ascii_rest : t.rest.all ascii = true := by
  rw [rest, List.all_append, fractionText]
  rw [Bool.and_eq_true]
  constructor
  case left =>
    split
    case isTrue => rfl
    case isFalse =>
      have hf : (String.ofList t.fraction).toList = t.fraction := String.toList_ofList
      rw [String.toList_append, List.all_append, hf, ascii_of_isDigit t.valid_digits]
      rfl
  case right =>
    cases t.zone
    case utc => rfl
    case ahead hour minute h =>
      rw [Zone.text, toList_zone, List.all_append, List.all_append, List.all_cons,
        ascii_padded (by omega) (by decide), ascii_padded (by omega) (by decide)]
      rfl
    case behind hour minute h =>
      rw [Zone.text, toList_zone, List.all_append, List.all_append, List.all_cons,
        ascii_padded (by omega) (by decide), ascii_padded (by omega) (by decide)]
      rfl

theorem lt_parts (t : Timestamp) : t.date.year < 10 ^ 4 ∧ t.date.month < 10 ^ 2 ∧
    t.date.day < 10 ^ 2 ∧ t.hour < 10 ^ 2 ∧ t.minute < 10 ^ 2 ∧ t.second < 10 ^ 2 := by
  have := t.valid_year
  have := t.valid_clock
  have := t.date.valid_month
  have := t.date.valid_day
  have : Civil.monthLength t.date.year t.date.month ≤ 31 := Civil.monthLength_le
  omega

theorem ascii_text : t.text.toList.all ascii = true := by
  have ⟨h₁, h₂, h₃, h₄, h₅, h₆⟩ := t.lt_parts
  simp only [toList_text, List.all_append, List.all_cons, ascii_rest, ascii_padded h₁ (by decide),
    ascii_padded h₂ (by decide), ascii_padded h₃ (by decide), ascii_padded h₄ (by decide),
    ascii_padded h₅ (by decide), ascii_padded h₆ (by decide)]
  rfl

theorem parsed : Parsed t.text.toList t.date.year t.date.month t.date.day t.hour t.minute
    t.second := by
  have ⟨h₁, h₂, h₃, h₄, h₅, h₆⟩ := t.lt_parts
  have ⟨s₁, s₂, s₃, s₄, s₅, s₆, _, s₈, s₉⟩ := slices t.rest
    (Decimal.digits?_padded h₁ (by decide)).right (Decimal.digits?_padded h₂ (by decide)).right
    (Decimal.digits?_padded h₃ (by decide)).right (Decimal.digits?_padded h₄ (by decide)).right
    (Decimal.digits?_padded h₅ (by decide)).right (Decimal.digits?_padded h₆ (by decide)).right
  have hd : t.date.day ≤ 31 := t.date.valid_day.right.trans Civil.monthLength_le
  refine ⟨ascii_text, ?_, ?_, ?_, ⟨?_, t.date.valid_month⟩, ⟨?_, t.date.valid_day.left, hd⟩,
    ⟨?_, t.valid_clock.left⟩, ⟨?_, t.valid_clock.right.left⟩, ?_, t.valid_clock.right.right⟩
  all_goals rw [toList_text]
  · exact s₉
  · exact s₈
  · rw [s₁]; exact (parse_padded h₁ (by decide)).right
  · rw [s₂]; exact (parse_padded h₂ (by decide)).left
  · rw [s₃]; exact (parse_padded h₃ (by decide)).left
  · rw [s₄]; exact (parse_padded h₄ (by decide)).left
  · rw [s₅]; exact (parse_padded h₅ (by decide)).left
  · rw [s₆]; exact (parse_padded h₆ (by decide)).left

theorem drop_text : t.text.toList.drop 19 = t.rest := by
  have ⟨h₁, h₂, h₃, h₄, h₅, h₆⟩ := t.lt_parts
  rw [toList_text]
  exact (slices t.rest (Decimal.digits?_padded h₁ (by decide)).right
    (Decimal.digits?_padded h₂ (by decide)).right (Decimal.digits?_padded h₃ (by decide)).right
    (Decimal.digits?_padded h₄ (by decide)).right (Decimal.digits?_padded h₅ (by decide)).right
    (Decimal.digits?_padded h₆ (by decide)).right).right.right.right.right.right.right.left

-- A timestamp is read as its instant, which isn't before 1970 unless its own date is.
theorem parse_text (hy : 1970 ≤ t.date.year) :
    parseIso8601ToEpoch t.text = some ⌊t.instant⌋.toNat := by
  have hd := daysFromCivil_eq (Nat.le_trans (by decide) hy) t.date.valid_month t.date.valid_day.left
  have hn := epoch_le_dayNumber t.date.month t.date.day hy
  refine parse_eq_some.mpr ⟨_, _, _, _, _, _, t.parsed, by omega, ?_⟩
  rw [drop_text, rest, shifted_zone, floor_instant, localSecs, dayNumber_epoch]
  congr 2
  omega

end Timestamp

-- The timestamp of a time, of the universal clock.
def ofSecs (h : Civil.EraDay yoe doy) (era secs : Nat) (hy : (ofEraDay h era).year ≤ 9999) :
    Timestamp where
  date         := ofEraDay h era
  hour         := secs % 86400 / 3600
  minute       := secs % 86400 % 3600 / 60
  second       := secs % 86400 % 60
  fraction     := []
  zone         := .utc
  valid_year   := hy
  valid_clock  := by omega
  valid_digits := nofun

theorem text_ofSecs {h : Civil.EraDay yoe doy} {secs : Nat} {hy : (ofEraDay h era).year ≤ 9999} :
    (ofSecs h era secs hy).text = dateText (ofEraDay h era) ++ "T" ++
      clockText (secs % 86400 / 3600) (secs % 86400 % 3600 / 60) (secs % 86400 % 60) ++ "Z" := by
  have hf : (ofSecs h era secs hy).fractionText = "" := rfl
  rw [Timestamp.text, hf, String.append_empty]
  rfl

def year10000 : Nat := (Civil.dayNumber 10000 1 1 - Civil.dayNumber 1970 1 1) * 86400

theorem daysBeforeYear_1970 : Civil.daysBeforeYear 1970 = 719528 := by
  rw [Civil.daysBeforeYear_succ]

theorem daysBeforeYear_10000 : Civil.daysBeforeYear 10000 = 3652425 := by
  rw [Civil.daysBeforeYear_succ]

theorem dayNumber_10000 : Civil.dayNumber 10000 1 1 = 3652425 := by
  rw [Civil.dayNumber, Civil.daysBeforeYear_succ]
  rfl

theorem year10000_eq : year10000 = (3652425 - 719528) * 86400 := by
  unfold year10000
  rw [dayNumber_10000, dayNumber_epoch]

-- What's written is a timestamp, of the time that it's written of.
theorem exists_timestamp {secs : Nat} (h : secs < year10000) : ∃ t : Timestamp,
    t.text = formatEpochToIso8601 secs ∧ t.text = isoUtc secs ∧
      dateText t.date = utcDate (secs / 86400) ∧ 1970 ≤ t.date.year ∧ t.instant = secs := by
  have ⟨era, yoe, doy, hd, hs⟩ := exists_eraDay_of_days (secs / 86400)
  have hn := hd.dayNumber_eq era
  change Civil.dayNumber (ofEraDay hd era).year (ofEraDay hd era).month
    (ofEraDay hd era).day = _ at hn
  have hy : (ofEraDay hd era).year < 10000 := by
    refine Civil.year_lt_of_dayNumber_lt ?_
    rw [hn, daysBeforeYear_10000]
    rw [year10000_eq] at h
    omega
  have hy' : 1970 ≤ (ofEraDay hd era).year := by
    refine Civil.le_year_of_le_dayNumber ?_
    rw [hn, daysBeforeYear_1970]
    omega
  refine ⟨ofSecs hd era secs (Nat.le_of_lt_succ hy), ?_, ?_, (utcDate_eq hd hs).symm, hy', ?_⟩
  · rw [formatEpochToIso8601_eq hd hs]
    exact text_ofSecs
  · rw [isoUtc_eq hd hs]
    exact text_ofSecs
  · have hl : (ofSecs hd era secs (Nat.le_of_lt_succ hy)).localSecs = secs := by
      rw [Timestamp.localSecs, dayNumber_epoch]
      simp only [ofSecs, hn]
      omega
    rw [Timestamp.instant, hl]
    simp [ofSecs, Zone.secs]

-- Dates survive the wire. A text is read as the time that its parts count to, whatever stands
-- between them, and only if they are in range.
theorem dates_survive :
    (∀ secs < year10000, parseIso8601ToEpoch (formatEpochToIso8601 secs) = some secs ∧
      isoUtc secs = formatEpochToIso8601 secs ∧
      ∃ clock, formatEpochToIso8601 secs = utcDate (secs / 86400) ++ "T" ++ clock) ∧
    (∀ t : Timestamp, 1970 ≤ t.date.year → 0 ≤ t.instant →
      ∃ n, parseIso8601ToEpoch t.text = some n ∧ (n : Int) = ⌊t.instant⌋) ∧
    ∀ s n, parseIso8601ToEpoch s = some n → ∃ (year month day hour minute second : Nat) (zone : Int),
      Parsed s.toList year month day hour minute second ∧ 1970 ≤ year ∧
      |zone| ≤ 99 * 3600 + 99 * 60 ∧
      n = ((Civil.dayNumber year month 1 + (day - 1) - Civil.dayNumber 1970 1 1 : Int) * 86400 +
        hour * 3600 + minute * 60 + second - zone).toNat := by
  refine ⟨fun secs h => ?_, fun t hy h₀ => ?_, fun s n h => ?_⟩
  · have ⟨t, hf, hi, hd, hy, he⟩ := exists_timestamp h
    refine ⟨?_, hi.symm.trans hf, ?_⟩
    · rw [← hf, t.parse_text hy, he, Int.floor_natCast, Int.toNat_natCast]
    · refine ⟨clockText t.hour t.minute t.second ++ t.fractionText ++ t.zone.text, ?_⟩
      rw [← hf, ← hd, Timestamp.text]
      simp only [String.append_assoc]
  · exact ⟨_, t.parse_text hy, Int.toNat_of_nonneg (Int.floor_nonneg.mpr h₀)⟩
  · have ⟨year, month, day, hour, minute, second, hp, hd, hs⟩ := parse_eq_some.mp h
    have hy : 1970 ≤ year := by
      by_contra hy
      have := daysFromCivil_neg (Int.not_le.mp hy) hp.month.right.right hp.day.right.right
      omega
    obtain ⟨year, rfl⟩ := Int.eq_ofNat_of_zero_le (by omega : 0 ≤ year)
    have ⟨zone, hz, hn⟩ := of_shifted hs
    have he : daysFromCivil year month day = (Civil.dayNumber year month day : Int) - 719528 :=
      daysFromCivil_eq (by omega) hp.month.right hp.day.right.left
    have hd' : Civil.dayNumber year month day = Civil.dayNumber year month 1 + (day - 1) := rfl
    have := hp.day.right.left
    refine ⟨year, month, day, hour, minute, second, zone, hp, by omega, hz, ?_⟩
    rw [hn, dayNumber_epoch]
    congr 1
    omega

-- Half past five in the morning of the second day, and half a second, in India.
def secondDay : Timestamp where
  date         := ⟨1970, 1, 2, by decide, by decide⟩
  hour         := 5
  minute       := 30
  second       := 0
  fraction     := ['5']
  zone         := .ahead 5 30 (by decide)
  valid_year   := by decide
  valid_clock  := by decide
  valid_digits := fun c hc => List.mem_singleton.mp hc ▸ rfl

theorem dates_survive_sample : parseIso8601ToEpoch (formatEpochToIso8601 1767225600) =
    some 1767225600 ∧ (∃ n, parseIso8601ToEpoch secondDay.text = some n ∧ (n : Int) = 86400) := by
  have hm : Civil.daysBeforeMonth 1970 1 = 0 := rfl
  have hd : Civil.dayNumber 1970 1 2 = 719529 := by
    simp only [Civil.dayNumber, daysBeforeYear_1970, hm]
  have hl : secondDay.localSecs = 106200 := by
    simp only [Timestamp.localSecs, dayNumber_epoch, secondDay, hd]
    decide
  have hf : ⌊secondDay.instant⌋ = 86400 := by
    rw [Timestamp.floor_instant, hl]
    decide
  have hs := dates_survive
  have hi : 0 ≤ secondDay.instant := Int.floor_nonneg.mp (hf ▸ by decide)
  refine ⟨(hs.left 1767225600 (by rw [year10000_eq]; decide)).left, ?_⟩
  exact hf ▸ hs.right.left secondDay (by decide) hi

-- Half an hour into 1970, an hour behind.
def lastHour : Timestamp where
  date         := ⟨1969, 12, 31, by decide, by decide⟩
  hour         := 23
  minute       := 30
  second       := 0
  fraction     := []
  zone         := .behind 1 0 (by decide)
  valid_year   := by decide
  valid_clock  := by decide
  valid_digits := nofun

-- The 30th of February is read, and a time of 1970 isn't where it's still 1969.
theorem february_30_is_read :
    ((parseIso8601ToEpoch "2026-02-30T00:00:00Z").isSome ∧
      ∀ t : Timestamp, t.text ≠ "2026-02-30T00:00:00Z") ∧
    ∃ t : Timestamp, 0 ≤ t.instant ∧ parseIso8601ToEpoch t.text = none := by
  refine ⟨⟨by decide +kernel, fun t ht => ?_⟩, ?_⟩
  · have hp := t.parsed
    rw [ht] at hp
    have hy : (2026 : Int) = t.date.year := Option.some_inj.mp hp.year
    have hm : 2 = t.date.month := Option.some_inj.mp hp.month.left
    have hd : 30 = t.date.day := Option.some_inj.mp hp.day.left
    have hv := t.date.valid_day.right
    rw [← hm, ← hd, ← Int.ofNat_inj.mp hy] at hv
    exact absurd hv (by decide)
  · have hd : Civil.dayNumber 1969 12 31 = 719527 := by
      rw [Civil.dayNumber, Civil.daysBeforeYear_succ]
      rfl
    have hl : lastHour.localSecs = -1800 := by
      simp only [Timestamp.localSecs, dayNumber_epoch, lastHour, hd]
      decide
    refine ⟨lastHour, Int.floor_nonneg.mp ?_, by decide +kernel⟩
    rw [Timestamp.floor_instant, hl]
    decide

end Wire.Dates

import Mathlib.Tactic
import Q9OS.Date.Calendar
import Q9OS.Lib.Word

/-!
# Day numbers

The conversions of `q9kernel_date.c` on 32-bit words. A day number counts from
midnight, one below the astronomical day number.
-/

namespace Q9OS.Date

def eBpaddr : UInt16 := 0x00D2

/-- First Gregorian day number, 15 October 1582. -/
def julianGregorianStart : UInt32 := 2299160

def dateIsGregorian (year month day : UInt32) : Bool :=
  if year != 1582 then year > 1582
  else if month != 10 then month > 10
  else day ≥ 15

/-- Day number of a date; 0 for a month or a day out of range. -/
def julianFromDate (year month day : UInt32) : UInt32 :=
  if month < 1 || month > 12 || day < 1 || day > 31 then 0
  else
    let a := (14 - month) / 12
    let y := year + 4800 - a
    let m := month + 12 * a - 3
    if dateIsGregorian year month day then
      day + (153 * m + 2) / 5 + 365 * y + y / 4 - y / 100 + y / 400 - 32045 - 1
    else
      day + (153 * m + 2) / 5 + 365 * y + y / 4 - 32083 - 1

/-- Year, month and day of a day number. -/
def dateFromJulian (julian : UInt32) : UInt32 × UInt32 × UInt32 :=
  let julian := julian + 1
  if julian ≥ julianGregorianStart + 1 then
    let l := julian + 68569
    let n := (4 * l) / 146097
    let l := l - (146097 * n + 3) / 4
    let i := (4000 * (l + 1)) / 1461001
    let l := l - (1461 * i) / 4 + 31
    let j := (80 * l) / 2447
    let day := l - (2447 * j) / 80
    let l := j / 11
    let month := j + 2 - 12 * l
    let year := 100 * (n - 49) + i + l
    (year, month, day)
  else
    let j := julian + 1402
    let k := (j - 1) / 1461
    let l := j - 1461 * k
    let n := (l - 1) / 365 - l / 1461
    let i := l - 365 * n + 30
    let j := (80 * i) / 2447
    let day := i - (2447 * j) / 80
    let i := j / 11
    let month := j + 2 - 12 * i
    let year := 4 * k + n + i - 4716
    (year, month, day)

/-- F$Julian: packed time and date to seconds since midnight and day number. -/
def procJulian (packedTime packedDate : UInt32) : Except UInt16 (UInt32 × UInt32) :=
  let year := (packedDate >>> 16) &&& 0xFFFF
  let month := (packedDate >>> 8) &&& 0xFF
  let day := packedDate &&& 0xFF
  let hour := (packedTime >>> 16) &&& 0xFF
  let min := (packedTime >>> 8) &&& 0xFF
  let sec := packedTime &&& 0xFF
  if hour > 23 || min > 59 || sec > 59 then .error eBpaddr
  else
    let julian := julianFromDate year month day
    if julian = 0 then .error eBpaddr
    else .ok (hour * 3600 + min * 60 + sec, julian)

/-- F$Gregor: seconds since midnight and day number to packed time and date. -/
def procGregor (seconds julian : UInt32) : Except UInt16 (UInt32 × UInt32) :=
  if julian = 0 || seconds ≥ 24 * 3600 then .error eBpaddr
  else
    let (year, month, day) := dateFromJulian julian
    .ok (((seconds / 3600) <<< 16) ||| (((seconds / 60) % 60) <<< 8) ||| (seconds % 60),
      (year <<< 16) ||| (month <<< 8) ||| day)

/-! ### The conversions in natural numbers -/

/-- Days from 1 March to the first day of month `m`, March counted as 0. -/
def monthDays (m : Nat) : Nat := (153 * m + 2) / 5

/-- Years and months counted from March, four-thousand-eight-hundred years early. -/
def marchYear (year month : Nat) : Nat := year + 4800 - (14 - month) / 12

def marchMonth (month : Nat) : Nat := month + 12 * ((14 - month) / 12) - 3

/-- The day number that `julianFromDate` computes, without the machine words. -/
def dayNumber (year month day : Nat) : Nat :=
  let y := marchYear year month
  let days := day + monthDays (marchMonth month) + 365 * y + y / 4
  if year > 1582 ∨ year = 1582 ∧ (month > 10 ∨ month = 10 ∧ day ≥ 15)
  then days - y / 100 + y / 400 - 32046
  else days - 32084

theorem dateIsGregorian_toNat (year month day : UInt32) :
    dateIsGregorian year month day = true ↔
      year.toNat > 1582 ∨ year.toNat = 1582 ∧
        (month.toNat > 10 ∨ month.toNat = 10 ∧ day.toNat ≥ 15) := by
  unfold dateIsGregorian
  have yearEq : year = 1582 ↔ year.toNat = 1582 := by rw [← UInt32.toNat_inj]; rfl
  have monthEq : month = 10 ↔ month.toNat = 10 := by rw [← UInt32.toNat_inj]; rfl
  simp only [bne_iff_ne, ne_eq, yearEq, monthEq, gt_iff_lt, ge_iff_le, UInt32.lt_iff_toNat_lt,
    UInt32.le_iff_toNat_le, UInt32.reduceToNat]
  split
  · simp; omega
  · split
    · simp; omega
    · simp; omega

theorem marchYear_le {year : Nat} (month : Nat) (yearLe : year ≤ 65536) :
    marchYear year month ≤ 70336 := by
  unfold marchYear
  omega

theorem marchYear_ge {year month : Nat} (yearPos : 1 ≤ year) (monthPos : 1 ≤ month) :
    4800 ≤ marchYear year month := by
  unfold marchYear
  omega

theorem marchMonth_le {month : Nat} (monthPos : 1 ≤ month) (monthLe : month ≤ 12) :
    marchMonth month ≤ 11 := by
  unfold marchMonth
  omega

theorem shift_toNat {month : UInt32} (monthLe : month.toNat ≤ 12) :
    ((14 - month) / 12).toNat = (14 - month.toNat) / 12 :=
  Word.toNat_div (Word.toNat_sub rfl rfl (le_trans monthLe (by decide))) rfl

theorem marchYear_toNat {year month : UInt32} (yearLe : year.toNat ≤ 65536)
    (monthLe : month.toNat ≤ 12) :
    (year + 4800 - (14 - month) / 12).toNat = marchYear year.toNat month.toNat := by
  have years : (year + 4800).toNat = year.toNat + 4800 := Word.toNat_add rfl rfl (by omega)
  exact Word.toNat_sub years (shift_toNat monthLe) (by omega)

theorem marchMonth_toNat {month : UInt32} (monthPos : 1 ≤ month.toNat) (monthLe : month.toNat ≤ 12) :
    (month + 12 * ((14 - month) / 12) - 3).toNat = marchMonth month.toNat := by
  have year : (12 * ((14 - month) / 12)).toNat = 12 * ((14 - month.toNat) / 12) :=
    Word.toNat_mul rfl (shift_toNat monthLe) (by omega)
  have months : (month + 12 * ((14 - month) / 12)).toNat =
      month.toNat + 12 * ((14 - month.toNat) / 12) := Word.toNat_add rfl year (by omega)
  exact Word.toNat_sub months rfl (by omega)

theorem monthDays_toNat {m : UInt32} (monthLe : m.toNat ≤ 11) :
    ((153 * m + 2) / 5).toNat = monthDays m.toNat := by
  have product : (153 * m).toNat = 153 * m.toNat := Word.toNat_mul rfl rfl (by omega)
  exact Word.toNat_div (Word.toNat_add product rfl (by omega)) rfl

theorem monthDays_le {m : Nat} (monthLe : m ≤ 11) : monthDays m ≤ 337 := by
  unfold monthDays
  omega

/-- The part both calendars share: days since 1 March of the year -4800. -/
theorem days_toNat {day m y : UInt32} (dayLe : day.toNat ≤ 31) (monthLe : m.toNat ≤ 11)
    (yearLe : y.toNat ≤ 70336) :
    (day + (153 * m + 2) / 5 + 365 * y + y / 4).toNat =
      day.toNat + monthDays m.toNat + 365 * y.toNat + y.toNat / 4 := by
  have monthBound := monthDays_le monthLe
  have inYear := Word.toNat_add (a := day) rfl (monthDays_toNat monthLe) (by omega)
  have years : (365 * y).toNat = 365 * y.toNat := Word.toNat_mul rfl rfl (by omega)
  have leaps : (y / 4).toNat = y.toNat / 4 := Word.toNat_div rfl rfl
  exact Word.toNat_add (Word.toNat_add inYear years (by omega)) leaps (by omega)

/-- On the months and days it accepts, `julianFromDate` never wraps. -/
theorem julianFromDate_toNat {year month day : UInt32} (yearPos : 1 ≤ year.toNat)
    (yearLe : year.toNat ≤ 65536) (monthPos : 1 ≤ month.toNat) (monthLe : month.toNat ≤ 12)
    (dayPos : 1 ≤ day.toNat) (dayLe : day.toNat ≤ 31) :
    (julianFromDate year month day).toNat = dayNumber year.toNat month.toNat day.toNat := by
  have accepted : (month < 1 || month > 12 || day < 1 || day > 31) = false := by
    simp [UInt32.lt_iff_toNat_lt]
    omega
  have years := marchYear_toNat yearLe monthLe
  have months := marchMonth_toNat monthPos monthLe
  have yearsLe := marchYear_le month.toNat yearLe
  have yearsGe := marchYear_ge yearPos monthPos
  have monthsLe := marchMonth_le monthPos monthLe
  unfold julianFromDate dayNumber
  rw [if_neg (by rw [accepted]; exact Bool.false_ne_true)]
  extract_lets a y m y' days
  have days_eq : (day + (153 * m + 2) / 5 + 365 * y + y / 4).toNat = days := by
    rw [days_toNat dayLe (months.le.trans monthsLe) (years.le.trans yearsLe), months, years]
  have daysGe : 365 * 4800 ≤ days := by omega
  have daysLe : days ≤ 30000000 := by
    have := monthDays_le monthsLe
    omega
  have century : (y / 100).toNat = y' / 100 := Word.toNat_div years rfl
  have leapCentury : (y / 400).toNat = y' / 400 := Word.toNat_div years rfl
  have gregorian := dateIsGregorian_toNat year month day
  by_cases holds : dateIsGregorian year month day = true
  · rw [if_pos holds, if_pos (gregorian.mp holds)]
    have less := Word.toNat_sub days_eq century (by omega)
    have more := Word.toNat_add less leapCentury (by omega)
    have noon := Word.toNat_sub (b := 32045) (y := 32045) more rfl (by omega)
    rw [Word.toNat_sub (y := 1) noon rfl (by omega), Nat.sub_sub]
  · rw [if_neg holds, if_neg (fun is => holds (gregorian.mpr is))]
    have noon := Word.toNat_sub (b := 32083) (y := 32083) days_eq rfl (by omega)
    rw [Word.toNat_sub (y := 1) noon rfl (by omega), Nat.sub_sub]

/-! ### Back from a day number -/

/-- Day `d` of month `m` in a year that starts in March. -/
structure IsMarchDate (m d : Nat) : Prop where
  m_le : m ≤ 11
  d_pos : 1 ≤ d
  fits : monthDays m + d ≤ monthDays (m + 1)

/-- Both branches of `dateFromJulian` end alike: month and day from the day of the year. -/
theorem marchDate_fields {i : UInt32} {m d : Nat} (date : IsMarchDate m d)
    (value : i.toNat = monthDays m + d + 30) :
    (80 * i / 2447).toNat = m + 1 ∧ (i - 2447 * (80 * i / 2447) / 80).toNat = d := by
  obtain ⟨m_le, d_pos, fits⟩ := date
  unfold monthDays at fits value
  have product : (80 * i).toNat = 80 * ((153 * m + 2) / 5 + d + 30) := by
    rw [← value]
    exact Word.toNat_mul rfl rfl (by omega)
  have month : (80 * i / 2447).toNat = m + 1 := by
    rw [Word.toNat_div (y := 2447) product rfl]
    interval_cases m <;> omega
  have before : (2447 * (80 * i / 2447) / 80).toNat = 2447 * (m + 1) / 80 :=
    Word.toNat_div (Word.toNat_mul rfl month (by omega)) rfl
  refine ⟨month, ?_⟩
  rw [Word.toNat_sub value before (by interval_cases m <;> omega)]
  interval_cases m <;> omega

theorem marchDate_month {j : UInt32} {m : Nat} (mLe : m ≤ 11) (value : j.toNat = m + 1) :
    (j / 11).toNat = m / 10 ∧ (j + 2 - 12 * (j / 11)).toNat = m + 3 - 12 * (m / 10) := by
  have turn : (j / 11).toNat = m / 10 := by
    rw [Word.toNat_div (y := 11) value rfl]
    omega
  have sum : (j + 2).toNat = m + 1 + 2 := Word.toNat_add value rfl (by omega)
  have back : (12 * (j / 11)).toNat = 12 * (m / 10) := Word.toNat_mul rfl turn (by omega)
  exact ⟨turn, Word.toNat_sub sum back (by omega)⟩

/-- The Gregorian branch on day `d` of month `m` of year `z` of century `c`, all
counted from March of the year -4800. -/
theorem dateFromJulian_gregorian {julian : UInt32} {c z m d : Nat} (date : IsMarchDate m d)
    (centuryGe : 48 ≤ c) (centuryLe : c ≤ 704) (yearLe : z ≤ 99)
    (inYear : monthDays m + d ≤ 366) (leap : monthDays m + d = 366 → z % 4 = 3)
    (leapCentury : monthDays m + d = 366 → z = 99 → c % 4 = 3)
    (start : 2299160 ≤ julian.toNat)
    (value : julian.toNat + 32046 = 36524 * c + c / 4 + (365 * z + z / 4) + monthDays m + d) :
    (dateFromJulian julian).1.toNat = 100 * (c - 48) + z + m / 10 ∧
      (dateFromJulian julian).2.1.toNat = m + 3 - 12 * (m / 10) ∧
      (dateFromJulian julian).2.2.toNat = d := by
  have dPos := date.d_pos
  have noon : (julian + 1).toNat = julian.toNat + 1 := Word.toNat_add rfl rfl (by omega)
  have branch : julian + 1 ≥ julianGregorianStart + 1 := by
    rw [ge_iff_le, UInt32.le_iff_toNat_le, noon]
    exact Nat.succ_le_succ start
  unfold dateFromJulian
  extract_lets julian' l n l₁ i l₂ j day l₃ month year
  rw [if_pos branch]
  have l_eq : l.toNat = julian.toNat + 1 + 68569 := Word.toNat_add noon rfl (by omega)
  have n_eq : n.toNat = c + 1 := by
    have product := Word.toNat_mul (a := 4) (x := 4) rfl l_eq (by omega)
    rw [Word.toNat_div (y := 146097) product rfl]
    omega
  have l₁_eq : l₁.toNat = 365 * z + z / 4 + monthDays m + d - 1 := by
    have product : (146097 * n).toNat = 146097 * (c + 1) := Word.toNat_mul rfl n_eq (by omega)
    have sum := Word.toNat_add (b := 3) (y := 3) product rfl (by omega)
    rw [Word.toNat_sub l_eq (Word.toNat_div (y := 4) sum rfl) (by omega)]
    omega
  have i_eq : i.toNat = z := by
    have sum := Word.toNat_add (b := 1) (y := 1) l₁_eq rfl (by omega)
    have product := Word.toNat_mul (a := 4000) (x := 4000) rfl sum (by omega)
    rw [Word.toNat_div (y := 1461001) product rfl]
    omega
  have l₂_eq : l₂.toNat = monthDays m + d + 30 := by
    have product := Word.toNat_mul (a := 1461) (x := 1461) rfl i_eq (by omega)
    have rest := Word.toNat_sub l₁_eq (Word.toNat_div (b := 4) (y := 4) product rfl) (by omega)
    rw [Word.toNat_add (y := 31) rest rfl (by omega)]
    omega
  obtain ⟨j_eq, day_eq⟩ := marchDate_fields date l₂_eq
  obtain ⟨turn, month_eq⟩ := marchDate_month date.m_le j_eq
  refine ⟨?_, month_eq, day_eq⟩
  have hundreds := Word.toNat_mul (a := 100) (x := 100) rfl
    (Word.toNat_sub (b := 49) (y := 49) n_eq rfl (by omega)) (by omega)
  have sum := Word.toNat_add hundreds i_eq (by omega)
  have turnLe := date.m_le
  rw [Word.toNat_add sum turn (by omega)]
  omega

/-- The Julian branch on day `d` of month `m` of year `y`, counted from March of
the year -4800. -/
theorem dateFromJulian_julian {julian : UInt32} {y m d : Nat} (date : IsMarchDate m d)
    (yearGe : 4800 ≤ y) (inYear : monthDays m + d ≤ 366)
    (leap : monthDays m + d = 366 → y % 4 = 3) (before : julian.toNat < 2299160)
    (value : julian.toNat + 32084 = 365 * y + y / 4 + monthDays m + d) :
    (dateFromJulian julian).1.toNat = y - 4800 + m / 10 ∧
      (dateFromJulian julian).2.1.toNat = m + 3 - 12 * (m / 10) ∧
      (dateFromJulian julian).2.2.toNat = d := by
  have dPos := date.d_pos
  have mLe := date.m_le
  have noon : (julian + 1).toNat = julian.toNat + 1 := Word.toNat_add rfl rfl (by omega)
  have branch : ¬ julian + 1 ≥ julianGregorianStart + 1 := by
    rw [ge_iff_le, UInt32.le_iff_toNat_le, noon, not_le]
    exact Nat.succ_lt_succ before
  unfold dateFromJulian
  rw [if_neg branch]
  extract_lets j k l n i j₁ day i₁ month year
  have j_eq : j.toNat = julian.toNat + 1 + 1402 := Word.toNat_add noon rfl (by omega)
  have k_eq : k.toNat = (julian.toNat + 1402) / 1461 :=
    Word.toNat_div (Word.toNat_sub (y := 1) j_eq rfl (by omega)) rfl
  have cycles : (julian.toNat + 1402) / 1461 = y / 4 - 21 := by omega
  rw [cycles] at k_eq
  have l_eq : l.toNat = 365 * (y % 4) + monthDays m + d := by
    have product := Word.toNat_mul (a := 1461) (x := 1461) rfl k_eq (by omega)
    rw [Word.toNat_sub j_eq product (by omega)]
    omega
  have n_eq : n.toNat = y % 4 := by
    have years := Word.toNat_div (b := 365) (y := 365)
      (Word.toNat_sub (b := 1) (y := 1) l_eq rfl (by omega)) rfl
    rw [Word.toNat_sub years (Word.toNat_div (y := 1461) l_eq rfl) (by omega)]
    omega
  have i_eq : i.toNat = monthDays m + d + 30 := by
    have product := Word.toNat_mul (a := 365) (x := 365) rfl n_eq (by omega)
    rw [Word.toNat_add (y := 30) (Word.toNat_sub l_eq product (by omega)) rfl (by omega)]
    omega
  obtain ⟨j₁_eq, day_eq⟩ := marchDate_fields date i_eq
  obtain ⟨turn, month_eq⟩ := marchDate_month date.m_le j₁_eq
  refine ⟨?_, month_eq, day_eq⟩
  have fours := Word.toNat_mul (a := 4) (x := 4) rfl k_eq (by omega)
  have sum := Word.toNat_add (Word.toNat_add fours n_eq (by omega)) turn (by omega)
  rw [Word.toNat_sub (y := 4716) sum rfl (by omega)]
  omega

end Q9OS.Date

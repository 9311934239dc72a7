import Mathlib.Tactic
import Q9OS.Date.Calendar
import Q9OS.Date.Julian

/-!
# The conversions are inverse

`julianFromDate` numbers the days of the civil calendar one after another, and
`dateFromJulian` undoes it.
-/

namespace Q9OS.Date

/-- The date's fields as the words the kernel passes around. -/
def CivilDate.words (date : CivilDate) : UInt32 × UInt32 × UInt32 :=
  (date.year.toUInt32, date.month.toUInt32, date.day.toUInt32)

def CivilDate.julian (date : CivilDate) : UInt32 :=
  julianFromDate date.year.toUInt32 date.month.toUInt32 date.day.toUInt32

/-- Packed date word: year in the upper half, then month and day. -/
def CivilDate.packed (date : CivilDate) : UInt32 :=
  (date.year.toUInt32 <<< 16) ||| (date.month.toUInt32 <<< 8) ||| date.day.toUInt32

/-- Packed time word `00hhmmss`. -/
def packedTime (hour min sec : Nat) : UInt32 :=
  (hour.toUInt32 <<< 16) ||| (min.toUInt32 <<< 8) ||| sec.toUInt32

theorem toUInt32_toNat {n : Nat} (fits : n < 4294967296) : n.toUInt32.toNat = n := by
  rw [Nat.toUInt32_eq, UInt32.toNat_ofNat']
  exact Nat.mod_eq_of_lt fits

theorem CivilDate.julian_toNat (date : CivilDate) (yearLe : date.year ≤ 65536) :
    date.julian.toNat = dayNumber date.year date.month date.day := by
  have monthLe := date.month_le
  have dayLe := date.day_le_31
  have year := toUInt32_toNat (n := date.year) (by omega)
  have month := toUInt32_toNat (n := date.month) (by omega)
  have day := toUInt32_toNat (n := date.day) (by omega)
  rw [CivilDate.julian, julianFromDate_toNat (by rw [year]; exact date.year_pos) (by rw [year]; exact yearLe)
    (by rw [month]; exact date.month_pos) (by rw [month]; exact monthLe)
    (by rw [day]; exact date.day_pos) (by rw [day]; exact dayLe), year, month, day]

/-! ### Civil dates counted from March -/

/-- The switch as the calendar sees it. -/
def CivilDate.isGregorian (date : CivilDate) : Prop :=
  date.year > 1582 ∨ date.year = 1582 ∧ (date.month > 10 ∨ date.month = 10 ∧ date.day ≥ 15)

instance (date : CivilDate) : Decidable date.isGregorian :=
  inferInstanceAs (Decidable (_ ∨ _ ∧ (_ ∨ _ ∧ _)))

theorem CivilDate.dayNumber_gregorian (date : CivilDate) (is : date.isGregorian) :
    dayNumber date.year date.month date.day =
      date.day + monthDays (marchMonth date.month) + 365 * marchYear date.year date.month
        + marchYear date.year date.month / 4 - marchYear date.year date.month / 100
        + marchYear date.year date.month / 400 - 32046 :=
  if_pos is

theorem CivilDate.dayNumber_julian (date : CivilDate) (isNot : ¬ date.isGregorian) :
    dayNumber date.year date.month date.day =
      date.day + monthDays (marchMonth date.month) + 365 * marchYear date.year date.month
        + marchYear date.year date.month / 4 - 32084 :=
  if_neg isNot

theorem CivilDate.isMarchDate (date : CivilDate) : IsMarchDate (marchMonth date.month) date.day := by
  obtain ⟨year, month, day, yearPos, monthPos, monthLe, dayPos, dayLe, notSkipped⟩ := date
  have february : (if isLeap year then 29 else 28) ≤ 29 := by split <;> omega
  unfold daysInMonth at dayLe
  refine ⟨marchMonth_le monthPos monthLe, dayPos, ?_⟩
  unfold monthDays marchMonth
  simp only at dayLe ⊢
  interval_cases month <;> simp at dayLe ⊢ <;> omega

theorem CivilDate.inYear (date : CivilDate) :
    monthDays (marchMonth date.month) + date.day ≤ 366 := by
  obtain ⟨year, month, day, yearPos, monthPos, monthLe, dayPos, dayLe, notSkipped⟩ := date
  have february : (if isLeap year then 29 else 28) ≤ 29 := by split <;> omega
  unfold daysInMonth at dayLe
  unfold monthDays marchMonth
  simp only at dayLe ⊢
  interval_cases month <;> simp at dayLe ⊢ <;> omega

/-- Only 29 February is the last day of a long year from March. -/
theorem CivilDate.last_is_leap (date : CivilDate)
    (last : monthDays (marchMonth date.month) + date.day = 366) :
    date.month = 2 ∧ isLeap date.year = true := by
  obtain ⟨year, month, day, yearPos, monthPos, monthLe, dayPos, dayLe, notSkipped⟩ := date
  unfold daysInMonth at dayLe
  unfold monthDays marchMonth at last
  simp only at dayLe last ⊢
  by_cases february : month = 2
  · subst february
    refine ⟨rfl, ?_⟩
    by_contra common
    simp [common] at dayLe last
    omega
  · interval_cases month <;> simp at dayLe last february <;> omega

theorem isLeap_four {year : Nat} (leap : isLeap year = true) : year % 4 = 0 := by
  unfold isLeap at leap
  split at leap
  · simpa using leap
  · simp at leap
    exact leap.1

theorem isLeap_century {year : Nat} (after : 1582 < year) (leap : isLeap year = true)
    (century : year % 100 = 0) : year % 400 = 0 := by
  unfold isLeap at leap
  rw [if_neg (by omega)] at leap
  simp [century] at leap
  exact leap.2

theorem marchMonth_back {month : Nat} (monthPos : 1 ≤ month) (monthLe : month ≤ 12) :
    marchMonth month + 3 - 12 * (marchMonth month / 10) = month := by
  unfold marchMonth
  omega

theorem marchYear_back {year month : Nat} (yearPos : 1 ≤ year) (monthPos : 1 ≤ month) (monthLe : month ≤ 12) :
    marchYear year month - 4800 + marchMonth month / 10 = year := by
  unfold marchYear marchMonth
  omega

theorem CivilDate.gregorian_from (date : CivilDate) (is : date.isGregorian) :
    2299160 ≤ dayNumber date.year date.month date.day := by
  rw [date.dayNumber_gregorian is]
  obtain ⟨year, month, day, yearPos, monthPos, monthLe, dayPos, dayLe, notSkipped⟩ := date
  unfold CivilDate.isGregorian at is
  unfold marchYear marchMonth monthDays
  simp only at is ⊢
  interval_cases month <;> omega

theorem CivilDate.julian_until (date : CivilDate) (isNot : ¬ date.isGregorian) :
    dayNumber date.year date.month date.day < 2299160 := by
  have february := date.day_le_31
  rw [date.dayNumber_julian isNot]
  obtain ⟨year, month, day, yearPos, monthPos, monthLe, dayPos, dayLe, notSkipped⟩ := date
  unfold CivilDate.isGregorian at isNot
  unfold isSkipped at notSkipped
  unfold marchYear marchMonth monthDays
  simp only at isNot february ⊢
  interval_cases month <;> omega

/-! ### There and back -/

/-- The Gregorian day count of a year, split into centuries. -/
theorem gregorianDays_century {y : Nat} (days : Nat) (yearGe : 4800 ≤ y) :
    days + 365 * y + y / 4 - y / 100 + y / 400 =
      36524 * (y / 100) + y / 100 / 4 + (365 * (y % 100) + y % 100 / 4) + days := by
  have leaps : y / 4 = 25 * (y / 100) + y % 100 / 4 := by omega
  have fourths : y / 400 = y / 100 / 4 := by rw [Nat.div_div_eq_div_mul]
  have split : y = 100 * (y / 100) + y % 100 := by omega
  rw [leaps, fourths]
  generalize y / 100 = c at *
  generalize y % 100 = z at *
  omega

theorem century_back {y : Nat} (yearGe : 4800 ≤ y) : 100 * (y / 100 - 48) + y % 100 = y - 4800 := by
  omega

theorem CivilDate.dateFromJulian_toNat (date : CivilDate) (yearLe : date.year ≤ 65535) :
    (dateFromJulian date.julian).1.toNat = date.year ∧
      (dateFromJulian date.julian).2.1.toNat = date.month ∧
      (dateFromJulian date.julian).2.2.toNat = date.day := by
  have number := date.julian_toNat (by omega)
  have years := marchYear_back date.year_pos date.month_pos date.month_le
  have months := marchMonth_back date.month_pos date.month_le
  have yearGe := marchYear_ge date.year_pos date.month_pos
  have yearBound := marchYear_le date.month (yearLe.trans (by decide))
  have leapYear : monthDays (marchMonth date.month) + date.day = 366 →
      marchYear date.year date.month % 4 = 3 := by
    intro last
    obtain ⟨february, leap⟩ := date.last_is_leap last
    have four := isLeap_four leap
    unfold marchYear
    have := date.year_pos
    omega
  by_cases is : date.isGregorian
  · have value := date.dayNumber_gregorian is
    have start := date.gregorian_from is
    rw [← number] at value start
    have leapCentury : monthDays (marchMonth date.month) + date.day = 366 →
        marchYear date.year date.month % 100 = 99 → marchYear date.year date.month / 100 % 4 = 3 := by
      intro last century
      obtain ⟨february, leap⟩ := date.last_is_leap last
      have after : 1582 < date.year := by
        unfold CivilDate.isGregorian at is
        omega
      have fourth := isLeap_century after leap
      unfold marchYear at century ⊢
      omega
    rw [gregorianDays_century _ yearGe] at value
    have fields := dateFromJulian_gregorian (c := marchYear date.year date.month / 100)
      (z := marchYear date.year date.month % 100) date.isMarchDate (by omega) (by omega) (by omega)
      date.inYear (fun last => by have := leapYear last; omega) leapCentury start (by omega)
    rw [century_back yearGe, years] at fields
    exact ⟨fields.1, fields.2.1.trans months, fields.2.2⟩
  · have value := date.dayNumber_julian is
    have before := date.julian_until is
    rw [← number] at value before
    have fields := dateFromJulian_julian date.isMarchDate yearGe date.inYear leapYear before (by omega)
    exact ⟨fields.1.trans years, fields.2.1.trans months, fields.2.2⟩

theorem CivilDate.dateFromJulian_julian (date : CivilDate) (yearLe : date.year ≤ 65535) :
    dateFromJulian date.julian = date.words := by
  obtain ⟨year, month, day⟩ := date.dateFromJulian_toNat yearLe
  have monthLe := date.month_le
  have dayLe := date.day_le_31
  refine Prod.ext ?_ (Prod.ext ?_ ?_)
  · rw [← UInt32.toNat_inj, year]
    exact (toUInt32_toNat (by omega)).symm
  · rw [← UInt32.toNat_inj, month]
    exact (toUInt32_toNat (by omega)).symm
  · rw [← UInt32.toNat_inj, day]
    exact (toUInt32_toNat (by omega)).symm

/-! ### The next day -/

theorem isLeap_or_short (year : Nat) :
    isLeap year = true ∧ year % 4 = 0 ∧ (1582 < year → year % 100 = 0 → year % 400 = 0) ∨
      isLeap year = false ∧ (year % 4 ≠ 0 ∨ 1582 < year ∧ year % 100 = 0 ∧ year % 400 ≠ 0) := by
  unfold isLeap
  split
  · by_cases four : year % 4 = 0
    · exact .inl ⟨by simpa using four, four, fun after => by omega⟩
    · exact .inr ⟨by simpa using four, .inl four⟩
  · next after =>
    by_cases four : year % 4 = 0
    · by_cases century : year % 100 = 0
      · by_cases fourth : year % 400 = 0
        · exact .inl ⟨by simp [four, fourth], four, fun _ _ => fourth⟩
        · exact .inr ⟨by simp [century, fourth], .inr ⟨by omega, century, fourth⟩⟩
      · exact .inl ⟨by simp [four, century], four, fun _ century' => absurd century' century⟩
    · exact .inr ⟨by simp [four], .inl four⟩

/-- A year from March is as long as the February that ends it. -/
theorem julianDays_next {year : Nat} (yearPos : 1 ≤ year) (until1582 : year ≤ 1582) :
    365 * (year + 4800) + (year + 4800) / 4 =
      365 * (year + 4799) + (year + 4799) / 4 + 337 + daysInMonth year 2 := by
  unfold daysInMonth
  rcases isLeap_or_short year with ⟨leap, four, -⟩ | ⟨short, rule⟩
  · simp only [leap, if_true]
    omega
  · simp only [short, if_true, Bool.false_eq_true, if_false]
    omega

theorem gregorianDays_next {year : Nat} (after : 1582 < year) :
    365 * (year + 4800) + (year + 4800) / 4 - (year + 4800) / 100 + (year + 4800) / 400 =
      365 * (year + 4799) + (year + 4799) / 4 - (year + 4799) / 100 + (year + 4799) / 400
        + 337 + daysInMonth year 2 := by
  have small : (year + 4799) / 100 ≤ year + 4799 := Nat.div_le_self _ _
  have fours := Nat.succ_div (a := year + 4799) (b := 4)
  have hundreds := Nat.succ_div (a := year + 4799) (b := 100)
  have fourHundreds := Nat.succ_div (a := year + 4799) (b := 400)
  simp only [Nat.add_assoc, Nat.reduceAdd, Nat.dvd_iff_mod_eq_zero] at fours hundreds fourHundreds
  rw [fours, hundreds, fourHundreds]
  unfold daysInMonth
  generalize (year + 4799) / 4 = q₄ at *
  generalize (year + 4799) / 100 = q₁₀₀ at *
  generalize (year + 4799) / 400 = q₄₀₀ at *
  rcases isLeap_or_short year with ⟨leap, four, century⟩ | ⟨short, rule⟩
  · simp only [leap, if_true]
    rw [if_pos (by omega)]
    by_cases hundred : year % 100 = 0
    · have fourth := century after hundred
      rw [if_pos (by omega), if_pos (by omega)]
      omega
    · rw [if_neg (by omega), if_neg (by omega)]
      omega
  · simp only [short, if_true, Bool.false_eq_true, if_false]
    rcases rule with notFour | ⟨-, hundred, notFourth⟩
    · rw [if_neg (by omega), if_neg (by omega), if_neg (by omega)]
      omega
    · rw [if_pos (by omega), if_pos (by omega), if_neg (by omega)]
      omega

theorem dayNumber_month_end {year month : Nat} (yearPos : 1 ≤ year) (monthPos : 1 ≤ month)
    (monthLt : month < 12) :
    dayNumber year (month + 1) 1 = dayNumber year month (daysInMonth year month) + 1 := by
  have years := julianDays_next yearPos
  have centuries : 1582 < year → _ := gregorianDays_next
  by_cases february : month = 2
  · subst february
    unfold dayNumber marchYear marchMonth monthDays
    by_cases after : 1582 < year
    · have next := centuries after
      simp [after]
      omega
    · have next := years (by omega)
      simp [after]
      omega
  · unfold dayNumber marchYear marchMonth monthDays daysInMonth
    interval_cases month <;> simp at february ⊢ <;> split <;> omega

theorem CivilDate.dayNumber_next (date : CivilDate) :
    dayNumber date.next.year date.next.month date.next.day =
      dayNumber date.year date.month date.day + 1 := by
  unfold CivilDate.next
  split
  · next switch =>
    obtain ⟨year, month, day⟩ := switch
    rw [year, month, day]
    decide
  · next noSwitch =>
    have notSkipped := date.not_skipped
    unfold isSkipped at notSkipped
    have yearGe := marchYear_ge date.year_pos date.month_pos
    split
    · unfold dayNumber
      simp only
      split <;> split <;> omega
    · next last =>
      have dayIs : date.day = daysInMonth date.year date.month := by
        have := date.day_le
        omega
      split
      · next turn => rw [dayNumber_month_end date.year_pos date.month_pos turn, dayIs]
      · have december : date.month = 12 := by
          have := date.month_le
          omega
        have day31 : date.day = 31 := by rw [dayIs, december]; rfl
        rw [december, day31]
        unfold dayNumber marchYear marchMonth monthDays
        simp only
        split <;> split <;> omega

theorem CivilDate.next_year_le (date : CivilDate) : date.next.year ≤ date.year + 1 := by
  unfold CivilDate.next
  split
  · next switch => simp only; omega
  · split
    · simp
    · split <;> simp

theorem CivilDate.year_le_next (date : CivilDate) : date.year ≤ date.next.year := by
  unfold CivilDate.next
  split
  · next switch => exact switch.1.le
  · split
    · exact le_refl _
    · split
      · exact le_refl _
      · exact Nat.le_succ _

theorem CivilDate.julian_next (date : CivilDate) (yearLe : date.year ≤ 65535) :
    date.next.julian = date.julian + 1 := by
  have nextLe := date.next_year_le
  have number := date.julian_toNat (by omega)
  have next := date.next.julian_toNat (by omega)
  rw [date.dayNumber_next, ← number] at next
  have bound := date.next.julian.toNat_lt
  rw [← UInt32.toNat_inj, next]
  exact (Word.toNat_add (x := date.julian.toNat) (y := 1) rfl rfl (by omega)).symm

/-! ### Packed words -/

theorem CivilDate.julian_pos (date : CivilDate) (yearLe : date.year ≤ 65535) : date.julian ≠ 0 := by
  intro zero
  have number := date.julian_toNat (by omega)
  rw [zero] at number
  have yearGe := marchYear_ge date.year_pos date.month_pos
  by_cases is : date.isGregorian
  · have start := date.gregorian_from is
    rw [← number] at start
    exact absurd start (by decide)
  · rw [date.dayNumber_julian is] at number
    have := date.day_pos
    simp only [UInt32.reduceToNat] at number
    omega

theorem seconds_toNat {hour min sec : Nat} (hours : hour < 24) (mins : min < 60) (secs : sec < 60) :
    (hour.toUInt32 * 3600 + min.toUInt32 * 60 + sec.toUInt32).toNat = hour * 3600 + min * 60 + sec := by
  have hourSeconds := Word.toNat_mul (b := 3600) (y := 3600)
    (toUInt32_toNat (n := hour) (by omega)) rfl (by omega)
  have minSeconds := Word.toNat_mul (b := 60) (y := 60)
    (toUInt32_toNat (n := min) (by omega)) rfl (by omega)
  exact Word.toNat_add (Word.toNat_add hourSeconds minSeconds (by omega))
    (toUInt32_toNat (n := sec) (by omega)) (by omega)

/-- Seconds since midnight of a packed time, and the time they pack into. -/
theorem packedTime_seconds {hour min sec : Nat} (hours : hour < 24) (mins : min < 60)
    (secs : sec < 60) :
    let seconds := hour.toUInt32 * 3600 + min.toUInt32 * 60 + sec.toUInt32
    seconds < 24 * 3600 ∧ seconds / 3600 = hour.toUInt32 ∧ (seconds / 60) % 60 = min.toUInt32 ∧
      seconds % 60 = sec.toUInt32 := by
  intro seconds
  have hourIs := toUInt32_toNat (n := hour) (by omega)
  have minIs := toUInt32_toNat (n := min) (by omega)
  have secIs := toUInt32_toNat (n := sec) (by omega)
  have value : seconds.toNat = hour * 3600 + min * 60 + sec := seconds_toNat hours mins secs
  refine ⟨?_, ?_, ?_, ?_⟩
  · rw [UInt32.lt_iff_toNat_lt, value]
    exact lt_of_lt_of_le (by omega) (le_refl 86400)
  · rw [← UInt32.toNat_inj, Word.toNat_div (y := 3600) value rfl, hourIs]
    omega
  · rw [← UInt32.toNat_inj, Word.toNat_mod (y := 60) (Word.toNat_div (y := 60) value rfl) rfl, minIs]
    omega
  · rw [← UInt32.toNat_inj, Word.toNat_mod (y := 60) value rfl, secIs]
    omega

theorem CivilDate.packed_fields (date : CivilDate) (yearLe : date.year ≤ 65535) :
    (date.packed >>> 16) &&& 0xFFFF = date.year.toUInt32 ∧
      (date.packed >>> 8) &&& 0xFF = date.month.toUInt32 ∧ date.packed &&& 0xFF = date.day.toUInt32 := by
  have monthLe := date.month_le
  have dayLe := date.day_le_31
  exact Word.fields_packed (by rw [toUInt32_toNat] <;> omega) (by rw [toUInt32_toNat] <;> omega)
    (by rw [toUInt32_toNat] <;> omega)

theorem packedTime_fields {hour min sec : Nat} (hours : hour < 24) (mins : min < 60) (secs : sec < 60) :
    (packedTime hour min sec >>> 16) &&& 0xFF = hour.toUInt32 ∧
      (packedTime hour min sec >>> 8) &&& 0xFF = min.toUInt32 ∧
      packedTime hour min sec &&& 0xFF = sec.toUInt32 := by
  have hourIs := toUInt32_toNat (n := hour) (by omega)
  have minIs := toUInt32_toNat (n := min) (by omega)
  have secIs := toUInt32_toNat (n := sec) (by omega)
  obtain ⟨-, minField, secField⟩ := Word.fields_packed (a := hour.toUInt32) (b := min.toUInt32)
    (c := sec.toUInt32) (by omega) (by omega) (by omega)
  exact ⟨Word.high_packed (by omega) (by omega) (by omega), minField, secField⟩

theorem time_accepted {hour min sec : Nat} (hours : hour < 24) (mins : min < 60) (secs : sec < 60) :
    (hour.toUInt32 > 23 || min.toUInt32 > 59 || sec.toUInt32 > 59) = false := by
  simp only [Bool.or_eq_false_iff, decide_eq_false_iff_not, gt_iff_lt, UInt32.not_lt,
    UInt32.le_iff_toNat_le, toUInt32_toNat (n := hour) (by omega),
    toUInt32_toNat (n := min) (by omega), toUInt32_toNat (n := sec) (by omega)]
  exact ⟨⟨Nat.le_of_lt_succ hours, Nat.le_of_lt_succ mins⟩, Nat.le_of_lt_succ secs⟩

theorem procJulian_packed (date : CivilDate) (yearLe : date.year ≤ 65535) {hour min sec : Nat}
    (hours : hour < 24) (mins : min < 60) (secs : sec < 60) :
    procJulian (packedTime hour min sec) date.packed =
      .ok (hour.toUInt32 * 3600 + min.toUInt32 * 60 + sec.toUInt32, date.julian) := by
  obtain ⟨yearField, monthField, dayField⟩ := date.packed_fields yearLe
  obtain ⟨hourField, minField, secField⟩ := packedTime_fields hours mins secs
  unfold procJulian
  simp only [yearField, monthField, dayField, hourField, minField, secField]
  rw [if_neg (by rw [time_accepted hours mins secs]; exact Bool.false_ne_true)]
  exact if_neg (date.julian_pos yearLe)

theorem procGregor_packed (date : CivilDate) (yearLe : date.year ≤ 65535) {hour min sec : Nat}
    (hours : hour < 24) (mins : min < 60) (secs : sec < 60) :
    procGregor (hour.toUInt32 * 3600 + min.toUInt32 * 60 + sec.toUInt32) date.julian =
      .ok (packedTime hour min sec, date.packed) := by
  obtain ⟨day, hourIs, minIs, secIs⟩ := packedTime_seconds hours mins secs
  unfold procGregor
  rw [date.dateFromJulian_julian yearLe, hourIs, minIs, secIs, if_neg]
  · rfl
  · simp only [Bool.or_eq_true, decide_eq_true_eq, not_or]
    exact ⟨date.julian_pos yearLe, UInt32.not_le.mpr day⟩

/-- The conversions are a bijection between the calendar's days and their
numbers, keep the order of days, and F$Gregor undoes F$Julian. -/
theorem julian_gregor_bijection :
    (∀ date : CivilDate, date.year ≤ 65535 → dateFromJulian date.julian = date.words) ∧
    (∀ n : UInt32, (∃ date : CivilDate, date.year ≤ 65535 ∧ date.julian = n) →
      julianFromDate (dateFromJulian n).1 (dateFromJulian n).2.1 (dateFromJulian n).2.2 = n) ∧
    (∀ date : CivilDate, date.year ≤ 65535 → date.next.julian = date.julian + 1) ∧
    (∀ (date : CivilDate) (hour min sec : Nat), date.year ≤ 65535 → hour < 24 → min < 60 → sec < 60 →
      (procJulian (packedTime hour min sec) date.packed >>= fun out => procGregor out.1 out.2) =
        .ok (packedTime hour min sec, date.packed)) := by
  refine ⟨CivilDate.dateFromJulian_julian, ?_, CivilDate.julian_next, ?_⟩
  · rintro n ⟨date, yearLe, rfl⟩
    rw [date.dateFromJulian_julian yearLe]
    rfl
  · intro date hour min sec yearLe hours mins secs
    rw [procJulian_packed date yearLe hours mins secs]
    exact procGregor_packed date yearLe hours mins secs

/-- 4 October 1582, the last Julian day. -/
def lastJulianDay : CivilDate :=
  { year := 1582, month := 10, day := 4,
    year_pos := Nat.succ_pos 1581, month_pos := Nat.succ_pos 9, month_le := Nat.le_add_right 10 2,
    day_pos := by decide, day_le := by decide, not_skipped := by decide }

theorem julian_gregor_lastJulianDay :
    dateFromJulian lastJulianDay.julian = (1582, 10, 4) ∧
      lastJulianDay.next.julian = lastJulianDay.julian + 1 ∧
      (procJulian (packedTime 23 59 59) lastJulianDay.packed >>= fun out => procGregor out.1 out.2) =
        .ok (packedTime 23 59 59, lastJulianDay.packed) :=
  ⟨julian_gregor_bijection.1 lastJulianDay (by decide),
    julian_gregor_bijection.2.2.1 lastJulianDay (by decide),
    julian_gregor_bijection.2.2.2 lastJulianDay 23 59 59 (by decide) (by decide) (by decide) (by decide)⟩

end Q9OS.Date

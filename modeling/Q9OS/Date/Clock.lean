import Mathlib.Tactic
import Q9OS.Date.Bijection

/-!
# The system clock

`q9kernel_clock.c` with the battery clock of `q9kernel_alarm.c`: F$STime sets
day number and seconds, every tick counts them up, F$Time packs them again.
-/

namespace Q9OS

open Date

/-- The registers of the battery clock, two decimal digits each. -/
structure Rtc where
  sec : UInt8
  min : UInt8
  hour : UInt8
  day : UInt8
  month : UInt8
  year : UInt8

structure RtcFields where
  year : UInt32
  month : UInt32
  day : UInt32
  hour : UInt32
  min : UInt32
  sec : UInt32

def rtcBcd (raw : UInt8) : UInt32 :=
  ((raw.toUInt32 >>> 4) &&& 0x0F) * 10 + (raw.toUInt32 &&& 0x0F)

def rtcReadFields (rtc : Rtc) : RtcFields where
  year := rtcBcd rtc.year + 2000
  month := rtcBcd rtc.month
  day := rtcBcd rtc.day
  hour := rtcBcd rtc.hour
  min := rtcBcd rtc.min
  sec := rtcBcd rtc.sec

/-- Day number and seconds of the battery clock. -/
def rtcRead (rtc : Rtc) : UInt32 × UInt32 :=
  let now := rtcReadFields rtc
  (julianFromDate now.year now.month now.day, now.hour * 3600 + now.min * 60 + now.sec)

def ticksPerSec : Nat := 100
def secsPerDay : Nat := 86400

structure Clock where
  valid : Bool
  day : UInt32
  sec : UInt32
  tick : UInt32

namespace Clock

def clockSet (julianDay seconds : UInt32) : Clock := ⟨true, julianDay, seconds, 0⟩

/-- An unset clock starts from the battery clock when it is first read. -/
def clockRead (c : Clock) (rtc : Rtc) : Clock :=
  if c.valid then c else clockSet (rtcRead rtc).1 (rtcRead rtc).2

/-- One tick, and 1 when a second is full. -/
def clockTick (c : Clock) : UInt32 × Clock :=
  if ¬ c.valid then (0, c)
  else
    let ticks := c.tick + 1
    if ticks.toNat < ticksPerSec then (0, { c with tick := ticks })
    else
      let sec := c.sec + 1
      if sec.toNat ≥ secsPerDay then (1, { c with tick := 0, sec := 0, day := c.day + 1 })
      else (1, { c with tick := 0, sec := sec })

/-- F$Time: packed time and date. -/
def sysTime (c : Clock) (rtc : Rtc) : (UInt32 × UInt32) × Clock :=
  let c := c.clockRead rtc
  let (year, month, dayOfMonth) := dateFromJulian c.day
  ((((c.sec / 3600) <<< 16) ||| (((c.sec / 60) % 60) <<< 8) ||| (c.sec % 60),
    (year <<< 16) ||| (month <<< 8) ||| dayOfMonth), c)

/-- The date and time F$STime sets: the caller's, or for month 0 the battery
clock's in the caller's century. -/
def stimeFields (rtc : Rtc) (time date : UInt32) : RtcFields :=
  let year := (date >>> 16) &&& 0xFFFF
  let month := (date >>> 8) &&& 0xFF
  if month = 0 then
    let now := rtcReadFields rtc
    if year ≠ 0 then { now with year := (year / 100) * 100 + now.year % 100 } else now
  else
    { year := year, month := month, day := date &&& 0xFF,
      hour := (time >>> 16) &&& 0xFF, min := (time >>> 8) &&& 0xFF, sec := time &&& 0xFF }

/-- F$STime; on an error the clock stays as it was. -/
def sysSTime (c : Clock) (rtc : Rtc) (time date : UInt32) : Except UInt16 Unit × Clock :=
  let f := stimeFields rtc time date
  if f.hour > 23 || f.min > 59 || f.sec > 59 then (.error eBpaddr, c)
  else
    let jd := julianFromDate f.year f.month f.day
    if jd = 0 then (.error eBpaddr, c)
    else (.ok (), clockSet jd (f.hour * 3600 + f.min * 60 + f.sec))

/-- The clock after `n` ticks. -/
def ticked (c : Clock) : Nat → Clock
  | 0 => c
  | n + 1 => (ticked c n).clockTick.2

end Clock

/-! ### Civil time -/

/-- A second of a civil day. -/
structure Moment where
  date : CivilDate
  hour : Nat
  min : Nat
  sec : Nat
  hour_lt : hour < 24
  min_lt : min < 60
  sec_lt : sec < 60

namespace Moment

/-- One second later, across minutes, hours and midnight. -/
def next (m : Moment) : Moment :=
  if inMinute : m.sec + 1 < 60 then { m with sec := m.sec + 1, sec_lt := inMinute }
  else if inHour : m.min + 1 < 60 then
    { m with min := m.min + 1, sec := 0, min_lt := inHour, sec_lt := by decide }
  else if inDay : m.hour + 1 < 24 then
    { m with hour := m.hour + 1, min := 0, sec := 0,
             hour_lt := inDay, min_lt := by decide, sec_lt := by decide }
  else
    { date := m.date.next, hour := 0, min := 0, sec := 0,
      hour_lt := by decide, min_lt := by decide, sec_lt := by decide }

/-- `n` seconds later. -/
def later (m : Moment) (n : Nat) : Moment := next^[n] m

def secondOfDay (m : Moment) : Nat := m.hour * 3600 + m.min * 60 + m.sec

/-- The time word of a moment. -/
def time (m : Moment) : UInt32 := packedTime m.hour m.min m.sec

theorem secondOfDay_lt (m : Moment) : m.secondOfDay < 86400 := by
  have hours := m.hour_lt
  have mins := m.min_lt
  have secs := m.sec_lt
  unfold secondOfDay
  omega

/-- The day goes on exactly when its last second is not over. -/
theorem next_day (m : Moment) :
    m.secondOfDay + 1 < 86400 ∧ m.next.date = m.date ∧ m.next.secondOfDay = m.secondOfDay + 1 ∨
      m.secondOfDay + 1 = 86400 ∧ m.next.date = m.date.next ∧ m.next.secondOfDay = 0 := by
  have hours := m.hour_lt
  have mins := m.min_lt
  have secs := m.sec_lt
  unfold next secondOfDay
  split
  · left
    exact ⟨by omega, rfl, by simp only; omega⟩
  · split
    · left
      exact ⟨by omega, rfl, by simp only; omega⟩
    · split
      · left
        exact ⟨by omega, rfl, by simp only; omega⟩
      · right
        exact ⟨by omega, rfl, by simp⟩

theorem later_succ (m : Moment) (n : Nat) : m.later (n + 1) = (m.later n).next :=
  Function.iterate_succ_apply' next n m

theorem year_le_next (m : Moment) : m.date.year ≤ m.next.date.year := by
  rcases m.next_day with ⟨-, same, -⟩ | ⟨-, turned, -⟩
  · rw [same]
  · rw [turned]
    exact m.date.year_le_next

end Moment

namespace Clock

/-- The clock shows `m`, `t` ticks into its second. -/
structure Shows (c : Clock) (m : Moment) (t : Nat) : Prop where
  valid : c.valid = true
  day : c.day = m.date.julian
  sec : c.sec.toNat = m.secondOfDay
  tick : c.tick.toNat = t
  tick_lt : t < 100

/-- What every set clock keeps, in whatever year. -/
structure Bounded (c : Clock) : Prop where
  sec : c.sec.toNat < 86400
  tick : c.tick.toNat < 100

theorem Shows.bounded {c : Clock} {m : Moment} {t : Nat} (shows : Shows c m t) : Bounded c :=
  ⟨shows.sec ▸ m.secondOfDay_lt, shows.tick ▸ shows.tick_lt⟩

theorem clockTick_bounded {c : Clock} (bounded : Bounded c) : Bounded c.clockTick.2 := by
  have sec := bounded.sec
  unfold clockTick
  split
  · exact bounded
  · extract_lets ticks' sec'
    split
    · next inSecond => exact ⟨sec, inSecond⟩
    · split
      · exact ⟨Nat.zero_lt_succ _, Nat.zero_lt_succ _⟩
      · next inDay => exact ⟨not_le.mp inDay, Nat.zero_lt_succ _⟩

/-- A tick inside a second. -/
theorem clockTick_inSecond {c : Clock} {m : Moment} {t : Nat} (shows : Shows c m t) (inside : t + 1 < 100) :
    Shows c.clockTick.2 m (t + 1) := by
  have ticks : (c.tick + 1).toNat = t + 1 := Word.toNat_add shows.tick rfl (by omega)
  unfold clockTick
  rw [if_neg (by simp [shows.valid]), if_pos (by rw [ticks]; exact inside)]
  exact ⟨shows.valid, shows.day, shows.sec, ticks, inside⟩

/-- The tick that fills a second. -/
theorem clockTick_second {c : Clock} {m : Moment} (shows : Shows c m 99) (yearLe : m.date.year ≤ 65535) :
    Shows c.clockTick.2 m.next 0 := by
  have ticks : (c.tick + 1).toNat = 100 := Word.toNat_add (y := 1) shows.tick rfl (by omega)
  have secLt := m.secondOfDay_lt
  have sec : (c.sec + 1).toNat = m.secondOfDay + 1 := Word.toNat_add shows.sec rfl (by omega)
  unfold clockTick
  rw [if_neg (by simp [shows.valid]), if_neg (by rw [ticks]; exact lt_irrefl 100)]
  extract_lets sec'
  rcases m.next_day with ⟨inDay, same, counted⟩ | ⟨last, turned, midnight⟩
  · rw [if_neg (by rw [sec]; exact not_le.mpr inDay)]
    exact ⟨shows.valid, by rw [same]; exact shows.day, by rw [counted]; exact sec, rfl, by decide⟩
  · rw [if_pos (by rw [sec]; exact last.ge)]
    refine ⟨shows.valid, ?_, by rw [midnight]; rfl, rfl, by decide⟩
    rw [turned, m.date.julian_next yearLe]
    exact congrArg (· + 1) shows.day

theorem ticked_bounded {c : Clock} (bounded : Bounded c) (n : Nat) : Bounded (c.ticked n) := by
  induction n with
  | zero => exact bounded
  | succ n kept => exact clockTick_bounded kept

/-- After `n` ticks the clock shows the moment `n / 100` seconds later. -/
theorem ticked_shows {c : Clock} {m : Moment} (shows : Shows c m 0) (n : Nat)
    (yearLe : (m.later (n / 100)).date.year ≤ 65535) :
    Shows (c.ticked n) (m.later (n / 100)) (n % 100) := by
  induction n with
  | zero => exact shows
  | succ n kept =>
    by_cases inside : n % 100 + 1 < 100
    · have second : (n + 1) / 100 = n / 100 := by omega
      have tick : (n + 1) % 100 = n % 100 + 1 := by omega
      rw [second] at yearLe ⊢
      rw [tick]
      exact clockTick_inSecond (kept yearLe) inside
    · have full : n % 100 = 99 := by omega
      have second : (n + 1) / 100 = n / 100 + 1 := by omega
      have tick : (n + 1) % 100 = 0 := by omega
      rw [second, Moment.later_succ] at yearLe
      have before := (m.later (n / 100)).year_le_next.trans yearLe
      have shown := kept before
      rw [full] at shown
      rw [second, tick, Moment.later_succ]
      exact clockTick_second shown before

/-- F$Time on a clock that shows `m`. -/
theorem sysTime_shows {c : Clock} {m : Moment} {t : Nat} (shows : Shows c m t) (rtc : Rtc)
    (yearLe : m.date.year ≤ 65535) : c.sysTime rtc = ((m.time, m.date.packed), c) := by
  obtain ⟨-, hour, min, sec⟩ := packedTime_seconds m.hour_lt m.min_lt m.sec_lt
  have seconds : c.sec = m.hour.toUInt32 * 3600 + m.min.toUInt32 * 60 + m.sec.toUInt32 := by
    rw [← UInt32.toNat_inj, shows.sec, seconds_toNat m.hour_lt m.min_lt m.sec_lt]
    rfl
  have read : c.clockRead rtc = c := if_pos shows.valid
  unfold sysTime
  rw [read]
  simp only [shows.day, m.date.dateFromJulian_julian yearLe, seconds, hour, min, sec]
  rfl

/-- F$STime with a date and a time that exist sets them. -/
theorem sysSTime_moment (c : Clock) (rtc : Rtc) (m : Moment) (yearLe : m.date.year ≤ 65535) :
    (c.sysSTime rtc m.time m.date.packed).1 = .ok () ∧
      Shows (c.sysSTime rtc m.time m.date.packed).2 m 0 := by
  obtain ⟨yearField, monthField, dayField⟩ := m.date.packed_fields yearLe
  obtain ⟨hourField, minField, secField⟩ := packedTime_fields m.hour_lt m.min_lt m.sec_lt
  have monthPos : m.date.month.toUInt32 ≠ 0 := by
    have pos := m.date.month_pos
    have le := m.date.month_le
    rw [ne_eq, ← UInt32.toNat_inj, toUInt32_toNat (by omega)]
    exact Nat.ne_of_gt pos
  have fields : stimeFields rtc m.time m.date.packed =
      ⟨m.date.year.toUInt32, m.date.month.toUInt32, m.date.day.toUInt32,
        m.hour.toUInt32, m.min.toUInt32, m.sec.toUInt32⟩ := by
    unfold stimeFields Moment.time
    rw [monthField, if_neg monthPos, yearField, dayField, hourField, minField, secField]
  unfold sysSTime
  rw [fields]
  simp only
  rw [if_neg (by rw [time_accepted m.hour_lt m.min_lt m.sec_lt]; exact Bool.false_ne_true),
    if_neg (show julianFromDate _ _ _ ≠ 0 from m.date.julian_pos yearLe)]
  exact ⟨rfl, ⟨rfl, rfl, seconds_toNat m.hour_lt m.min_lt m.sec_lt, rfl, Nat.zero_lt_succ _⟩⟩

/-- F$STime sets a moment, and after `n` ticks F$Time reports the moment `n / 100`
seconds later, while seconds and ticks stay inside their day and second. -/
theorem time_after_ticks (c : Clock) (rtc : Rtc) (m : Moment) (yearLt : m.date.year < 65536) :
    (c.sysSTime rtc m.time m.date.packed).1 = .ok () ∧
      ∀ (n : Nat) (rtc' : Rtc),
        let now := (c.sysSTime rtc m.time m.date.packed).2.ticked n
        now.sec.toNat < 86400 ∧ now.tick.toNat < 100 ∧
          ((m.later (n / 100)).date.year < 65536 →
            now.sysTime rtc' = (((m.later (n / 100)).time, (m.later (n / 100)).date.packed), now)) := by
  obtain ⟨accepted, shows⟩ := c.sysSTime_moment rtc m (Nat.le_of_lt_succ yearLt)
  refine ⟨accepted, fun n rtc' => ?_⟩
  have bounded := ticked_bounded shows.bounded n
  refine ⟨bounded.sec, bounded.tick, fun below => ?_⟩
  have yearLe := Nat.le_of_lt_succ below
  exact sysTime_shows (ticked_shows shows n yearLe) rtc' yearLe

/-- The last second of 1999. -/
def lastOf1999 : Moment :=
  { date :=
      { year := 1999, month := 12, day := 31,
        year_pos := Nat.succ_pos 1998, month_pos := Nat.succ_pos 11, month_le := le_rfl,
        day_pos := by decide, day_le := by decide, not_skipped := by decide },
    hour := 23, min := 59, sec := 59,
    hour_lt := by decide, min_lt := by decide, sec_lt := by decide }

theorem time_after_millennium :
    lastOf1999.date.year < 65536 ∧
      ((Clock.mk false 0 0 0).sysSTime ⟨0, 0, 0, 1, 1, 0⟩ lastOf1999.time lastOf1999.date.packed).1 = .ok () ∧
      ((((Clock.mk false 0 0 0).sysSTime ⟨0, 0, 0, 1, 1, 0⟩ lastOf1999.time lastOf1999.date.packed).2.ticked
        100).sysTime ⟨0, 0, 0, 1, 1, 0⟩).1 = (0x00000000, 0x07D00101) := by
  have run := time_after_ticks (Clock.mk false 0 0 0) ⟨0, 0, 0, 1, 1, 0⟩ lastOf1999 (by decide)
  have later := (run.2 100 ⟨0, 0, 0, 1, 1, 0⟩).2.2 (by decide)
  exact ⟨by decide, run.1, (congrArg Prod.fst later).trans (by decide)⟩

end Clock

end Q9OS

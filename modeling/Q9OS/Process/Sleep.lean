import Q9OS.Process.Frame

/-!
# Sleeping in 256ths of a second

The two conversions of an interval with bit 31 set: `Q9K_ProcSleep` multiplies in
32 bits and shifts, `Q9K_AlarmIntervalToTicks` divides first and rounds up.
-/

namespace Q9OS.Sleep

open Heap

/-- Asleep without a tick to end it. -/
def Forever (h : Heap) (desc : Nat) : Prop :=
  h.get8 desc Desc.state = stateSleeping ∧ h.get32 desc Desc.sleepTicks = sleepInfinite

/-- The argument with bit 31 set and `n` below it. -/
def fraction (n : Nat) : Nat := 0x80000000 + n

/-- The ticks are those of exact arithmetic, only 0 is for ever, and the alarms agree up to rounding. -/
structure Converted (n : Nat) : Prop where
  exact_ticks : Kernel.sleepTicksOf (fraction n) = n * 100 / 256
  ends : n ≠ 0 → ∀ (k : Kernel) (desc : Nat), k.desc.get8 desc Desc.state ≠ stateSleeping →
    ¬ Forever (k.procSleep desc (fraction n)).2.desc desc
  alarm : Kernel.sleepTicksOf (fraction n) ≤ Kernel.alarmIntervalToTicks (fraction n) ∧
    Kernel.alarmIntervalToTicks (fraction n) ≤ Kernel.sleepTicksOf (fraction n) + 1

theorem sleepTicksOf_fraction (n : Nat) : Kernel.sleepTicksOf (fraction n) = n * 25 % 4294967296 / 64 := by
  unfold Kernel.sleepTicksOf fraction
  rw [if_pos (by omega), Nat.add_sub_cancel_left]

theorem alarmIntervalToTicks_fraction (n : Nat) :
    Kernel.alarmIntervalToTicks (fraction n) = (n * 100 + 255) / 256 := by
  unfold Kernel.alarmIntervalToTicks fraction ticksPerSec
  rw [if_neg (by omega), Nat.add_sub_cancel_left]
  dsimp only
  omega

theorem exact_iff (n : Nat) : Kernel.sleepTicksOf (fraction n) = n * 100 / 256 ↔ n * 25 < 4294967296 := by
  rw [sleepTicksOf_fraction]
  omega

/-! ### Where the caller is left -/

/-- The switch behind the call writes links only. -/
theorem schedFirstPick_agree (k : Kernel) : Agree (fun o => ¬ LinkOff o) k.desc k.schedFirstPick.2.desc := by
  rw [Kernel.schedFirstPick_eq]
  have picked := pick_agree k.desc 0
  generalize schedPickHighestAge k.desc 0 = result at picked
  unfold Kernel.runPicked
  split
  · exact picked
  · exact picked

theorem sleepPark_forever (h : Heap) (desc : Nat) : Forever (Kernel.sleepPark h desc 0) desc := by
  have linked := listAppend_agree
    ((h.set8 desc Desc.state stateSleeping).set32 desc Desc.sleepTicks sleepInfinite) sleepQ desc
  refine ⟨(linked.get8 desc ?_).trans ?_, (linked.get32 desc ?_).trans ?_⟩
  · unfold LinkOff Desc.state
    omega
  · rw [get8_set32_off _ _ _ _ (by decide), get8_set8]
    rfl
  · intro x low high
    unfold LinkOff
    unfold Desc.sleepTicks at low
    omega
  · rw [get32_set32]
    rfl

theorem sleepPark_ends {h : Heap} {desc ticks : Nat} (awake : h.get8 desc Desc.state ≠ stateSleeping)
    (some_ticks : ticks ≠ 0) (small : ticks < 4294967296) : ¬ Forever (Kernel.sleepPark h desc ticks) desc := by
  rintro ⟨asleep, endless⟩
  unfold Kernel.sleepPark at asleep endless
  rw [if_neg some_ticks] at asleep endless
  by_cases one : ticks = 1
  · rw [if_pos one] at asleep
    have kept := (schedInsert_agree h desc).get8 desc (o := Desc.state)
      (by unfold QueueOff LinkOff Desc.state; omega)
    exact awake (kept.symm.trans asleep)
  · rw [if_neg one] at endless
    have linked := listAppend_agree
      ((h.set8 desc Desc.state stateSleeping).set32 desc Desc.sleepTicks (ticks - 1)) sleepQ desc
    have counted := linked.get32 desc (o := Desc.sleepTicks) (by
      intro x low high
      unfold LinkOff
      unfold Desc.sleepTicks at low
      omega)
    rw [get32_set32, Nat.mod_eq_of_lt (by omega)] at counted
    have same : ticks - 1 = sleepInfinite := counted.symm.trans endless
    unfold sleepInfinite at same
    omega

theorem Forever.of_agree {h h' : Heap} {desc : Nat} (agree : Agree (fun o => ¬ LinkOff o) h h') :
    Forever h' desc ↔ Forever h desc := by
  unfold Forever
  rw [agree.get8 desc (by unfold LinkOff Desc.state; omega), agree.get32 desc (by
    intro x low high
    unfold LinkOff
    unfold Desc.sleepTicks at low
    omega)]

/-- The heap `Q9K_ProcSleep` parks its caller from. -/
def opened (k : Kernel) (desc : Nat) : Heap := k.desc.set8 desc Desc.sigLvl 0

theorem procSleep_parks {k : Kernel} {desc ticksIn : Nat} (quiet : (opened k desc).get16 desc Desc.signal = 0) :
    Forever (k.procSleep desc ticksIn).2.desc desc ↔
      Forever (Kernel.sleepPark (opened k desc) desc (Kernel.sleepTicksOf ticksIn)) desc := by
  unfold Kernel.procSleep
  dsimp only
  rw [if_neg (by rw [show (k.desc.set8 desc Desc.sigLvl 0) = opened k desc from rfl, quiet]; simp)]
  exact Forever.of_agree (schedFirstPick_agree _)

theorem icptDeliver_state (k : Kernel) (desc signal : Nat) :
    (k.icptDeliver desc signal).desc.get8 desc Desc.state = k.desc.get8 desc Desc.state := by
  unfold Kernel.icptDeliver
  split
  · dsimp only
    rw [get8_set16_off _ _ _ _ (by decide), get8_set32_off _ _ _ _ (by decide), get8_set32_off _ _ _ _ (by decide)]
  · rfl

/-- A caller with a pending signal goes to the ready queue. -/
theorem procSleep_signalled {k : Kernel} {desc ticksIn : Nat} (awake : k.desc.get8 desc Desc.state ≠ stateSleeping)
    (pending : (opened k desc).get16 desc Desc.signal ≠ 0) : ¬ Forever (k.procSleep desc ticksIn).2.desc desc := by
  rintro ⟨asleep, -⟩
  apply awake
  unfold Kernel.procSleep at asleep
  dsimp only at asleep
  rw [if_pos (by rw [show (k.desc.set8 desc Desc.sigLvl 0) = opened k desc from rfl]; exact pending),
    (schedFirstPick_agree _).get8 desc (by unfold LinkOff Desc.state; omega), icptDeliver_state] at asleep
  rw [← asleep, (schedInsert_agree _ desc).get8 desc (by unfold QueueOff LinkOff Desc.state; omega)]
  exact (get8_set8_off _ _ _ _ (by decide)).symm

theorem procSleep_ends {k : Kernel} {desc ticksIn : Nat} (awake : k.desc.get8 desc Desc.state ≠ stateSleeping)
    (some_ticks : Kernel.sleepTicksOf ticksIn ≠ 0) (small : Kernel.sleepTicksOf ticksIn < 4294967296) :
    ¬ Forever (k.procSleep desc ticksIn).2.desc desc := by
  by_cases quiet : (opened k desc).get16 desc Desc.signal = 0
  · rw [procSleep_parks quiet]
    refine sleepPark_ends ?_ some_ticks small
    rwa [opened, get8_set8_off _ _ _ _ (by decide)]
  · exact procSleep_signalled awake quiet

/-! ### The conversion -/

theorem Converted.zero {n : Nat} (converted : Converted n) (zero : Kernel.sleepTicksOf (fraction n) = 0) : n = 0 := by
  by_contra some_ticks
  refine converted.ends some_ticks (Kernel.zeroed 0 0) 0 (by decide) ?_
  rw [procSleep_parks (by decide), zero]
  exact sleepPark_forever _ _

/-- The conversion is right for intervals that fit the multiplication, but for the two shortest:
they are less than a tick and become a sleep without end. -/
theorem sleep_conversion_iff (n : Nat) (small : n < 0x80000000) :
    Converted n ↔ n * 25 < 4294967296 ∧ n ≠ 1 ∧ n ≠ 2 := by
  constructor
  · intro converted
    refine ⟨(exact_iff n).mp converted.exact_ticks, ?_, ?_⟩
    · rintro rfl
      exact absurd (converted.zero (by decide)) (by decide)
    · rintro rfl
      exact absurd (converted.zero (by decide)) (by decide)
  · rintro ⟨fits, notOne, notTwo⟩
    have ticks := sleepTicksOf_fraction n
    rw [Nat.mod_eq_of_lt fits] at ticks
    refine ⟨(exact_iff n).mpr fits, ?_, ?_⟩
    · intro some_ticks k desc awake
      apply procSleep_ends awake
      · omega
      · omega
    · rw [ticks, alarmIntervalToTicks_fraction]
      omega

/-- One second is a hundred ticks. -/
theorem sleep_conversion_second : 256 < 0x80000000 ∧ Converted 256 :=
  ⟨by decide, (sleep_conversion_iff 256 (by decide)).mpr (by decide)⟩

/-- A 256th of a second is a sleep without end. -/
theorem sleep_conversion_endless : ¬ ∀ n, n < 0x80000000 → Converted n := by
  intro always
  have zero := (always 1 (by decide)).zero (by decide)
  exact absurd zero (by decide)

end Q9OS.Sleep

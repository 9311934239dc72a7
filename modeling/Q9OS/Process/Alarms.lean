import Mathlib.Tactic
import Mathlib.Algebra.Order.Floor.Div
import Q9OS.Lib.Run
import Q9OS.Process.Fields

/-!
# Alarm timing

A tick treats each slot of the alarm table by itself: what a slot does next
follows from the slot and the clock alone, and the tick as a whole is the
signals of the slots that fire, in slot order. From this come the ticks at
which an alarm fires, whatever the other slots go through in between.
-/

namespace Q9OS.Alarms

open Fields (procSend_rest procSend_alarms)

/-! ### One slot -/

/-- The slot sends its signal at a tick that reads this clock. -/
def fires (now : Clock) (alarm : Alarm) : Bool :=
  alarm.id ≠ 0 && (if alarm.ticks = 0 then Kernel.alarmDue alarm now else alarm.ticks ≤ 1)

/-- A cyclic alarm starts over, any other one frees its slot. -/
def fired (alarm : Alarm) : Alarm := if alarm.cycle ≠ 0 then { alarm with ticks := alarm.cycle } else Alarm.clear

def ticked (now : Clock) (alarm : Alarm) : Alarm :=
  if alarm.id = 0 then alarm
  else if fires now alarm then fired alarm
  else { alarm with ticks := alarm.ticks - 1 }

/-- Receiver and signal as F$Send takes them. -/
def message (alarm : Alarm) : Nat × Nat := (alarm.pid % 65536, alarm.signal % 65536)

def firing (now : Clock) (alarm : Alarm) : Option (Nat × Nat) := if fires now alarm then some (message alarm) else none

/-- The clock the alarms of a tick are compared with. -/
def now (k : Kernel) (dev : Devices) : Clock := k.clock.clockRead dev.rtc

theorem fires_relative {now : Clock} {alarm : Alarm} (live : alarm.id ≠ 0) (relative : alarm.ticks ≠ 0) :
    fires now alarm = decide (alarm.ticks ≤ 1) := by
  simp [fires, live, relative]

theorem fires_absolute {now : Clock} {alarm : Alarm} (live : alarm.id ≠ 0) (absolute : alarm.ticks = 0) :
    fires now alarm = Kernel.alarmDue alarm now := by
  simp [fires, live, absolute]

theorem ticked_fires {now : Clock} {alarm : Alarm} (live : alarm.id ≠ 0) (fire : fires now alarm = true) :
    ticked now alarm = fired alarm := by
  rw [ticked, if_neg live, if_pos fire]

theorem ticked_waits {now : Clock} {alarm : Alarm} (live : alarm.id ≠ 0) (wait : fires now alarm = false) :
    ticked now alarm = { alarm with ticks := alarm.ticks - 1 } := by
  rw [ticked, if_neg live, wait, if_neg Bool.false_ne_true]

theorem ticked_absolute {now : Clock} {alarm : Alarm} (absolute : alarm.ticks = 0) (wait : fires now alarm = false) :
    ticked now alarm = alarm := by
  unfold ticked
  rw [wait, if_neg Bool.false_ne_true, absolute, Nat.zero_sub, ← absolute]
  exact ite_self _

/-- The clock has reached the target of an absolute alarm, day first. -/
theorem alarmDue_iff (alarm : Alarm) (now : Clock) :
    Kernel.alarmDue alarm now = true ↔ toLex (alarm.day, alarm.sec) ≤ toLex (now.day.toNat, now.sec.toNat) := by
  rw [Prod.Lex.toLex_le_toLex]
  simp only [Kernel.alarmDue, Bool.and_eq_true, decide_eq_true_eq, decide_not, Bool.not_eq_true', decide_eq_false_iff_not]
  omega

/-! ### A slot at a tick -/

variable {k : Kernel} {dev : Devices}

theorem clockRead_idem (c : Clock) (rtc : Rtc) : (c.clockRead rtc).clockRead rtc = c.clockRead rtc := by
  unfold Clock.clockRead Clock.clockSet
  split <;> simp [*]

theorem procSend_clock (k : Kernel) (pid signal : Nat) : (k.procSend pid signal).2.clock = k.clock := by
  obtain ⟨ram, desc, marks, sent⟩ := procSend_rest k pid signal
  rw [sent]

theorem conSSigTick_slots (k : Kernel) (dev : Devices) : (k.conSSigTick dev).alarms.slots = k.alarms.slots := by
  unfold Kernel.conSSigTick
  dsimp only
  split
  · rfl
  · exact (congrArg AlarmTable.slots (procSend_alarms _ _ _)).trans rfl

theorem conSSigTick_clock (k : Kernel) (dev : Devices) : (k.conSSigTick dev).clock = k.clock := by
  unfold Kernel.conSSigTick
  dsimp only
  split
  · rfl
  · exact procSend_clock _ _ _

theorem setAlarm_slots (k : Kernel) (i j : Nat) (alarm : Alarm) :
    (k.setAlarm i alarm).alarms.slots j = if j = i then alarm else k.alarms.slots j := rfl

theorem alarmFire_slots (k : Kernel) (i j : Nat) :
    (k.alarmFire i).alarms.slots j = if j = i then fired (k.alarms.slots i) else k.alarms.slots j := by
  unfold Kernel.alarmFire fired
  dsimp only
  split
  · rw [setAlarm_slots, procSend_alarms]
  · rw [setAlarm_slots, procSend_alarms]

theorem alarmFire_clock (k : Kernel) (i : Nat) : (k.alarmFire i).clock = k.clock := by
  unfold Kernel.alarmFire Kernel.setAlarm
  dsimp only
  split
  · exact procSend_clock _ _ _
  · exact procSend_clock _ _ _

/-- What a slot's turn at a tick does to the table and to the clock, where it only reads it. -/
theorem alarmStep_timed (k : Kernel) (dev : Devices) (i : Nat) :
    (∀ j, (k.alarmStep dev i).alarms.slots j =
      if j = i then ticked (now k dev) (k.alarms.slots i) else k.alarms.slots j) ∧
    now (k.alarmStep dev i) dev = now k dev := by
  unfold Kernel.alarmStep
  dsimp only
  split
  · next free =>
    refine ⟨fun j => ?_, rfl⟩
    rw [ticked, if_pos free]
    split
    · next same => rw [same]
    · rfl
  · next live =>
    split
    · next absolute =>
      have read : now { k with clock := k.clock.clockRead dev.rtc } dev = now k dev := clockRead_idem _ _
      have due : fires (now k dev) (k.alarms.slots i) = Kernel.alarmDue (k.alarms.slots i) (now k dev) :=
        fires_absolute live absolute
      split
      · next reached =>
        refine ⟨fun j => ?_, ?_⟩
        · rw [alarmFire_slots, ticked_fires live (due.trans reached)]
        · rw [now, alarmFire_clock]
          exact read
      · next early =>
        refine ⟨fun j => ?_, read⟩
        rw [ticked_absolute absolute (due.trans (Bool.eq_false_iff.mpr early))]
        split
        · next same => rw [same]
        · rfl
    · next relative =>
      have due : fires (now k dev) (k.alarms.slots i) = decide ((k.alarms.slots i).ticks ≤ 1) := fires_relative live relative
      split
      · next more =>
        refine ⟨fun j => ?_, rfl⟩
        rw [ticked_waits live (due.trans (decide_eq_false (by omega)))]
        rfl
      · next last =>
        refine ⟨fun j => ?_, ?_⟩
        · rw [alarmFire_slots, ticked_fires live (due.trans (decide_eq_true (by omega)))]
        · rw [now, alarmFire_clock]
          rfl

theorem alarmSteps_timed (k : Kernel) (dev : Devices) {slots : List Nat} (once : slots.Nodup) (j : Nat) :
    (k.alarmSteps dev slots).alarms.slots j =
      if j ∈ slots then ticked (now k dev) (k.alarms.slots j) else k.alarms.slots j := by
  induction slots generalizing k with
  | nil => rfl
  | cons i slots ih =>
    obtain ⟨here, read⟩ := alarmStep_timed k dev i
    obtain ⟨later, once⟩ := List.nodup_cons.mp once
    rw [Kernel.alarmSteps, ih (k.alarmStep dev i) once, read, here]
    by_cases same : j = i
    · subst same
      rw [if_neg later, if_pos rfl, if_pos List.mem_cons_self]
    · simp only [List.mem_cons, same, false_or, if_false]

/-- At a tick every slot goes its own way. -/
theorem alarmTick_slots (k : Kernel) (dev : Devices) {i : Nat} (slot : i < alarmSlots) :
    (k.alarmTick dev).alarms.slots i = ticked (now k dev) (k.alarms.slots i) := by
  have same : now (k.conSSigTick dev) dev = now k dev := congrArg (Clock.clockRead · dev.rtc) (conSSigTick_clock k dev)
  rw [Kernel.alarmTick, alarmSteps_timed _ dev List.nodup_range, if_pos (List.mem_range.mpr slot), same,
    conSSigTick_slots]

/-! ### The signals of a tick -/

/-- One F$Send after the other. -/
def sendAll (k : Kernel) (messages : List (Nat × Nat)) : Kernel :=
  messages.foldl (fun k message => (k.procSend message.1 message.2).2) k

/-- The same kernel with another alarm table and clock. -/
def timed (k : Kernel) (alarms : AlarmTable) (clock : Clock) : Kernel := { k with alarms := alarms, clock := clock }

theorem icptDeliver_timed (k : Kernel) (alarms : AlarmTable) (clock : Clock) (desc signal : Nat) :
    (timed k alarms clock).icptDeliver desc signal = timed (k.icptDeliver desc signal) alarms clock := by
  have ready : (timed k alarms clock).icptReady desc = k.icptReady desc := rfl
  unfold Kernel.icptDeliver
  rw [ready]
  split <;> rfl

theorem sendDeliver_timed (k : Kernel) (alarms : AlarmTable) (clock : Clock) (desc signal : Nat) :
    (timed k alarms clock).sendDeliver desc signal = timed (k.sendDeliver desc signal) alarms clock := by
  have running : (timed k alarms clock).proc = k.proc := rfl
  unfold Kernel.sendDeliver
  rw [running]
  split
  · exact icptDeliver_timed k alarms clock desc signal
  · rfl

theorem sendStore_timed (k : Kernel) (alarms : AlarmTable) (clock : Clock) (desc signal : Nat) :
    (timed k alarms clock).sendStore desc signal = timed (k.sendStore desc signal) alarms clock := by
  unfold Kernel.sendStore
  split <;> rfl

theorem sendTo_timed (k : Kernel) (alarms : AlarmTable) (clock : Clock) (desc signal : Nat) :
    (timed k alarms clock).sendTo desc signal = timed (k.sendTo desc signal) alarms clock := by
  have masked : ∀ k : Kernel, (timed k alarms clock).sendMasked desc signal = k.sendMasked desc signal := fun _ => rfl
  unfold Kernel.sendTo
  dsimp only
  rw [sendStore_timed, masked, sendDeliver_timed]
  split <;> rfl

/-- A signal neither reads nor writes the alarm table and the clock. -/
theorem procSend_timed (k : Kernel) (alarms : AlarmTable) (clock : Clock) (pid signal : Nat) :
    ((timed k alarms clock).procSend pid signal).2 = timed (k.procSend pid signal).2 alarms clock := by
  have lookup : (timed k alarms clock).procLookup pid = k.procLookup pid := rfl
  unfold Kernel.procSend
  dsimp only
  rw [lookup]
  split
  · rfl
  · exact sendTo_timed k alarms clock _ _

theorem alarmFire_sends (k : Kernel) (i : Nat) :
    ∃ alarms, k.alarmFire i =
      timed (k.procSend (message (k.alarms.slots i)).1 (message (k.alarms.slots i)).2).2 alarms k.clock := by
  have kept : (k.procSend (message (k.alarms.slots i)).1 (message (k.alarms.slots i)).2).2.clock = k.clock :=
    procSend_clock _ _ _
  unfold Kernel.alarmFire
  dsimp only
  split
  · exact ⟨_, by rw [← kept]; rfl⟩
  · exact ⟨_, by rw [← kept]; rfl⟩

theorem alarmStep_sends (k : Kernel) (dev : Devices) (i : Nat) :
    ∃ alarms clock, k.alarmStep dev i =
      timed (sendAll k (firing (now k dev) (k.alarms.slots i)).toList) alarms clock := by
  unfold Kernel.alarmStep firing
  dsimp only
  split
  · next free =>
    refine ⟨k.alarms, k.clock, ?_⟩
    have silent : fires (now k dev) (k.alarms.slots i) = false := by simp [fires, free]
    rw [silent]
    rfl
  · next live =>
    split
    · next absolute =>
      rw [fires_absolute live absolute]
      split
      · next reached =>
        have due : Kernel.alarmDue (k.alarms.slots i) (now k dev) = true := reached
        obtain ⟨alarms, is⟩ := alarmFire_sends { k with clock := k.clock.clockRead dev.rtc } i
        refine ⟨alarms, k.clock.clockRead dev.rtc, is.trans ?_⟩
        rw [due, if_pos rfl]
        exact (congrArg (timed · alarms (k.clock.clockRead dev.rtc))
          (procSend_timed k k.alarms (k.clock.clockRead dev.rtc) _ _)).trans rfl
      · next early =>
        have wait : Kernel.alarmDue (k.alarms.slots i) (now k dev) = false := Bool.eq_false_iff.mpr early
        rw [wait]
        exact ⟨k.alarms, k.clock.clockRead dev.rtc, rfl⟩
    · next relative =>
      rw [fires_relative live relative]
      split
      · next more =>
        rw [decide_eq_false (by omega : ¬ (k.alarms.slots i).ticks ≤ 1)]
        exact ⟨_, k.clock, rfl⟩
      · next last =>
        rw [decide_eq_true (by omega : (k.alarms.slots i).ticks ≤ 1), if_pos rfl]
        obtain ⟨alarms, is⟩ := alarmFire_sends k i
        exact ⟨alarms, k.clock, is⟩

theorem sendAll_timed (k : Kernel) (alarms : AlarmTable) (clock : Clock) (messages : List (Nat × Nat)) :
    sendAll (timed k alarms clock) messages = timed (sendAll k messages) alarms clock := by
  induction messages generalizing k with
  | nil => rfl
  | cons message messages ih =>
    have first := procSend_timed k alarms clock message.1 message.2
    exact (congrArg (sendAll · messages) first).trans (ih _)

theorem sendAll_append (k : Kernel) (before after : List (Nat × Nat)) :
    sendAll k (before ++ after) = sendAll (sendAll k before) after := List.foldl_append

theorem alarmSteps_sends (k : Kernel) (dev : Devices) {slots : List Nat} (once : slots.Nodup) :
    ∃ alarms clock, k.alarmSteps dev slots =
      timed (sendAll k (slots.filterMap (fun i => firing (now k dev) (k.alarms.slots i)))) alarms clock := by
  induction slots generalizing k with
  | nil => exact ⟨k.alarms, k.clock, rfl⟩
  | cons i slots ih =>
    obtain ⟨later, once⟩ := List.nodup_cons.mp once
    obtain ⟨here, read⟩ := alarmStep_timed k dev i
    obtain ⟨alarms, clock, first⟩ := alarmStep_sends k dev i
    obtain ⟨alarms', clock', rest⟩ := ih (k.alarmStep dev i) once
    have same : slots.filterMap (fun j => firing (now (k.alarmStep dev i) dev) ((k.alarmStep dev i).alarms.slots j)) =
        slots.filterMap (fun j => firing (now k dev) (k.alarms.slots j)) := by
      apply List.filterMap_congr
      intro j member
      rw [read, here, if_neg (fun same : j = i => later (same ▸ member))]
    refine ⟨alarms', clock', ?_⟩
    rw [Kernel.alarmSteps, rest, same, first, sendAll_timed, List.filterMap_cons]
    cases firing (now k dev) (k.alarms.slots i) with
    | none => rfl
    | some message => rfl

/-- A tick sends the signals of the slots that fire, one after the other, after that of the
console; the rest of the tick stays within the alarm table and the clock. -/
theorem alarmTick_sends (k : Kernel) (dev : Devices) :
    ∃ alarms clock, k.alarmTick dev = timed (sendAll (k.conSSigTick dev)
      ((List.range alarmSlots).filterMap (fun i => firing (now k dev) (k.alarms.slots i)))) alarms clock := by
  have same : now (k.conSSigTick dev) dev = now k dev := congrArg (Clock.clockRead · dev.rtc) (conSSigTick_clock k dev)
  obtain ⟨alarms, clock, sent⟩ := alarmSteps_sends (k.conSSigTick dev) dev (List.nodup_range (n := alarmSlots))
  rw [same, conSSigTick_slots] at sent
  exact ⟨alarms, clock, sent⟩

/-- What a process has asked to be told of input on the console, when there is some. -/
def conMessage (k : Kernel) (dev : Devices) : Option (Nat × Nat) :=
  if k.alarms.conPid = 0 ∨ dev.rxReady = false then none else some (k.alarms.conPid % 65536, k.alarms.conSignal % 65536)

/-- Receivers and signals of a tick, in their order. -/
def tickMessages (k : Kernel) (dev : Devices) : List (Nat × Nat) :=
  (conMessage k dev).toList ++ (List.range alarmSlots).filterMap (fun i => firing (now k dev) (k.alarms.slots i))

theorem conSSigTick_sends (k : Kernel) (dev : Devices) :
    ∃ alarms, k.conSSigTick dev = timed (sendAll k (conMessage k dev).toList) alarms k.clock := by
  unfold Kernel.conSSigTick conMessage
  dsimp only
  split
  · exact ⟨k.alarms, rfl⟩
  · exact ⟨_, procSend_timed k { k.alarms with conPid := 0 } k.clock _ _⟩

/-- A tick is F$Send for all of them, but for the alarm table and the clock. -/
theorem alarmTick_sendAll (k : Kernel) (dev : Devices) :
    ∃ alarms clock, k.alarmTick dev = timed (sendAll k (tickMessages k dev)) alarms clock := by
  obtain ⟨alarms, clock, sent⟩ := alarmTick_sends k dev
  obtain ⟨console, first⟩ := conSSigTick_sends k dev
  refine ⟨alarms, clock, sent.trans ?_⟩
  rw [first, sendAll_timed, tickMessages, sendAll_append]
  rfl

end Q9OS.Alarms

import Mathlib.Tactic
import Q9OS.Process.Event

/-!
# Alarms and the timer tick

`q9kernel_alarm.c`, the tick of `q9kernel_clock.c` and the scheduler's part of
the timer interrupt (`q9kernel_sched.c`). An alarm sends its signal over the
same path as F$Send.
-/

namespace Q9OS

def alarmSlots : Nat := 8

/-- What a tick reads from the devices: the battery clock and the receiver state of the console. -/
structure Devices where
  rtc : Rtc
  rxReady : Bool

def Alarm.clear : Alarm := ⟨0, 0, 0, 0, 0, 0, 0⟩

namespace AlarmTable

def set (t : AlarmTable) (i : Nat) (alarm : Alarm) : AlarmTable :=
  { t with slots := fun j => if j = i then alarm else t.slots j }

end AlarmTable

namespace Kernel

def setAlarm (k : Kernel) (i : Nat) (alarm : Alarm) : Kernel := { k with alarms := k.alarms.set i alarm }

def alarmIntervalToTicks (interval : Nat) : Nat :=
  if interval < 0x80000000 then interval
  else
    let n := interval - 0x80000000
    n / 256 * ticksPerSec + (n % 256 * ticksPerSec + 255) / 256

/-- The first free alarm slot from `i` on. -/
def alarmFreeFrom (k : Kernel) : List Nat → Option Nat
  | [] => none
  | i :: rest => if (k.alarms.slots i).id = 0 then some i else alarmFreeFrom k rest

/-- Stores an alarm for the running process under the next ID. -/
def alarmStore (k : Kernel) (signal ticks day sec cycle : Nat) : Except Nat Nat × Kernel :=
  let pid := k.procIdForDesc k.proc
  if k.proc = 0 ∨ pid = 0 then (.error ePrcId, k)
  else
    match k.alarmFreeFrom (List.range alarmSlots) with
    | none => (.error eBpAddr, k)
    | some i =>
      let next := (k.alarms.nextId + 1) % 4294967296
      let id := if next = 0 then 1 else next
      (.ok id, { k with alarms :=
        { k.alarms.set i ⟨id, pid, signal, ticks, day, sec, cycle⟩ with nextId := id } })

/-- A$Set and A$Cycle; the slot's date keeps what it held. -/
def alarmSet (k : Kernel) (signal ticks cycleTicks : Nat) : Except Nat Nat × Kernel :=
  let ticks := alarmIntervalToTicks ticks
  if ticks = 0 then (.error eBpAddr, k)
  else
    match k.alarmFreeFrom (List.range alarmSlots) with
    | none => k.alarmStore signal ticks 0 0 (alarmIntervalToTicks cycleTicks)
    | some i =>
      k.alarmStore signal ticks (k.alarms.slots i).day (k.alarms.slots i).sec (alarmIntervalToTicks cycleTicks)

/-- A$AtJul and, with the date converted, A$AtDate. -/
def alarmSetAbsolute (k : Kernel) (signal julianDay seconds : Nat) : Except Nat Nat × Kernel :=
  if julianDay = 0 ∨ seconds ≥ secsPerDay then (.error eBpAddr, k)
  else k.alarmStore signal 0 julianDay seconds 0

/-- A$AtDate: date and time packed in bytes, the year in a word. -/
def alarmAtDate (k : Kernel) (signal : Nat) (packed clock : UInt32) : Except Nat Nat × Kernel :=
  let jd := Date.julianFromDate (packed >>> 16) (packed >>> 8 &&& 0xFF) (packed &&& 0xFF)
  let hh := clock >>> 16 &&& 0xFF
  let mm := clock >>> 8 &&& 0xFF
  let ss := clock &&& 0xFF
  if jd = 0 ∨ hh > 23 ∨ mm > 59 ∨ ss > 59 then (.error eBpAddr, k)
  else k.alarmSetAbsolute signal jd.toNat (hh * 3600 + mm * 60 + ss).toNat

/-- The slot of an alarm of `pid` with this ID. -/
def alarmFind (k : Kernel) (id pid : Nat) : List Nat → Option Nat
  | [] => none
  | i :: rest =>
    if (k.alarms.slots i).id ≠ id ∨ (k.alarms.slots i).pid ≠ pid then alarmFind k id pid rest else some i

/-- A$Reset: new signal and time for an alarm of the caller, which becomes a relative one. -/
def alarmReset (k : Kernel) (id signal ticks : Nat) : Except Nat Unit × Kernel :=
  let ticks := alarmIntervalToTicks ticks
  let pid := k.procIdForDesc k.proc
  if ticks = 0 then (.error eBpAddr, k)
  else if k.proc = 0 ∨ pid = 0 then (.error ePrcId, k)
  else
    match k.alarmFind id pid (List.range alarmSlots) with
    | none => (.error eBpAddr, k)
    | some i => (.ok (), k.setAlarm i { k.alarms.slots i with signal := signal, ticks := ticks, day := 0, sec := 0 })

/-- Clears the slots that hold an alarm of `pid` with this ID, 0 for any. -/
def alarmDeleteSlots (k : Kernel) (id pid : Nat) : List Nat → Kernel
  | [] => k
  | i :: rest =>
    let alarm := k.alarms.slots i
    if alarm.id = 0 ∨ alarm.pid ≠ pid ∨ (id ≠ 0 ∧ alarm.id ≠ id) then alarmDeleteSlots k id pid rest
    else alarmDeleteSlots (k.setAlarm i Alarm.clear) id pid rest

/-- A$Delete. -/
def alarmDelete (k : Kernel) (id : Nat) : Except Nat Unit × Kernel :=
  if k.proc = 0 then (.error ePrcId, k)
  else (.ok (), k.alarmDeleteSlots id (k.procIdForDesc k.proc) (List.range alarmSlots))

/-- Clears the slots that hold an alarm of `pid`. -/
def alarmClearSlots (k : Kernel) (pid : Nat) : List Nat → Kernel
  | [] => k
  | i :: rest =>
    let alarm := k.alarms.slots i
    if alarm.id = 0 ∨ alarm.pid ≠ pid then alarmClearSlots k pid rest
    else alarmClearSlots (k.setAlarm i Alarm.clear) pid rest

def alarmCleanupProcess (k : Kernel) (desc : Nat) : Kernel :=
  let pid := k.procIdForDesc desc
  if desc = 0 ∨ pid = 0 then k else k.alarmClearSlots pid (List.range alarmSlots)

/-- Input on the console sends the signal a process asked for, once. -/
def conSSigTick (k : Kernel) (dev : Devices) : Kernel :=
  if k.alarms.conPid = 0 ∨ dev.rxReady = false then k
  else
    let pid := k.alarms.conPid % 65536
    let signal := k.alarms.conSignal % 65536
    ({ k with alarms := { k.alarms with conPid := 0 } }.procSend pid signal).2

/-- An absolute alarm whose time has come. -/
def alarmDue (alarm : Alarm) (clock : Clock) : Bool :=
  ¬ (clock.day.toNat < alarm.day) && ¬ (clock.day.toNat = alarm.day && clock.sec.toNat < alarm.sec)

def alarmFire (k : Kernel) (i : Nat) : Kernel :=
  let alarm := k.alarms.slots i
  let k := (k.procSend (alarm.pid % 65536) (alarm.signal % 65536)).2
  if alarm.cycle ≠ 0 then k.setAlarm i { k.alarms.slots i with ticks := alarm.cycle }
  else k.setAlarm i Alarm.clear

/-- One alarm slot at a tick. -/
def alarmStep (k : Kernel) (dev : Devices) (i : Nat) : Kernel :=
  let alarm := k.alarms.slots i
  if alarm.id = 0 then k
  else if alarm.ticks = 0 then
    let k := { k with clock := k.clock.clockRead dev.rtc }
    if alarmDue alarm k.clock then k.alarmFire i else k
  else if alarm.ticks > 1 then k.setAlarm i { alarm with ticks := alarm.ticks - 1 }
  else k.alarmFire i

def alarmSteps (k : Kernel) (dev : Devices) : List Nat → Kernel
  | [] => k
  | i :: rest => alarmSteps (k.alarmStep dev i) dev rest

def alarmTick (k : Kernel) (dev : Devices) : Kernel :=
  (k.conSSigTick dev).alarmSteps dev (List.range alarmSlots)

def clockTick (k : Kernel) : Kernel := { k with clock := k.clock.clockTick.2 }

/-! ### The tick -/

/-- The end of a time slice: the oldest ready process runs, the running one becomes ready. -/
def schedSwitch (k : Kernel) : Kernel :=
  match schedPickHighestAge k.desc k.sched.minPty with
  | (next, h) =>
    let sched := { k.sched with slice := schedTslice }
    if next = 0 then { k with desc := h, sched := sched }
    else
      let state := h.get8 k.proc Desc.state
      let h := if k.proc ≠ 0 ∧ state ≠ stateZombie ∧ state ≠ stateIdle then schedInsert h k.proc else h
      { k with desc := h, sched := sched, proc := next }

/-- What every tick does before the time slice counts. -/
def tickAccounts (k : Kernel) (dev : Devices) : Kernel :=
  let h := sleepQDecrementAll (schedAgeAll k.desc k.sched.maxAge)
  ({ k with desc := h }.alarmTick dev).clockTick

def sliceEnd (k : Kernel) : Kernel :=
  if k.sched.noSwitch ≠ 0 then k
  else if k.sched.slice > 0 then { k with sched := { k.sched with slice := k.sched.slice - 1 } }
  else k.schedSwitch

def schedReschedule (k : Kernel) (dev : Devices) : Kernel := (k.tickAccounts dev).sliceEnd

/-- The timer interrupt, with the stack pointer and the interrupt mask of the interrupted code. -/
def timerTick (k : Kernel) (dev : Devices) (sp mask : Nat) : Kernel :=
  let k := k.saveSp sp
  { k with sched := { k.sched with noSwitch := mask } }.schedReschedule dev

end Kernel

end Q9OS

import Mathlib.Tactic
import Q9OS.Process.Signal

/-!
# Events and semaphores

`q9kernel_event.c` and `q9kernel_sema.c`: first-in first-out queues of waiting
processes, linked through the descriptor field the ready queue uses. The head
and tail of an event's queue are in the event table, those of a semaphore in
the memory of its users. A process waits with the range of values it asked for
in its own descriptor.
-/

namespace Q9OS

def eventSlots : Nat := 16

/-! ### Event values -/

/-- The signed value of a 32-bit word. -/
def int32 (n : Nat) : Int := if n % 4294967296 < 0x80000000 then n % 4294967296 else n % 4294967296 - 4294967296

/-- The signed value of a 16-bit word. -/
def int16 (n : Nat) : Int := if n % 65536 < 0x8000 then n % 65536 else n % 65536 - 65536

def word32 (i : Int) : Nat := (i % 4294967296).toNat

def eventAddSaturating (value : Nat) (delta : Int) : Nat :=
  let v := int32 value
  let r := int32 (word32 (v + delta))
  if r > 0x7FFFFFFF ∨ (delta > 0 ∧ r < v) then 0x7FFFFFFF
  else if r < -0x80000000 ∨ (delta < 0 ∧ r > v) then 0x80000000
  else word32 r

def eventValueInRange (value minValue maxValue : Nat) : Bool :=
  int32 value ≥ int32 minValue && int32 value ≤ int32 maxValue

namespace Kernel

def setEvent (k : Kernel) (slot : Nat) (entry : EventSlot) : Kernel :=
  { k with events := fun i => if i = slot then entry else k.events i }

/-- The table index of an event ID: the low word, checked against the serial number in the high word. -/
def eventFindById (k : Kernel) (id : Nat) : Option Nat :=
  let slot := id % 65536
  if slot ≥ eventSlots then none
  else if (k.events slot).id = 0 then none
  else if (k.events slot).id ≠ id / 65536 % 65536 then none
  else some slot

/-! ### Waiting processes of an event -/

def eventEnqueue (k : Kernel) (slot desc : Nat) : Kernel :=
  let entry := k.events slot
  let h := k.desc.set32 desc Desc.next 0
  if entry.qPrev = 0 then
    { k with desc := h }.setEvent slot { entry with qNext := desc, qPrev := desc }
  else
    { k with desc := h.set32 entry.qPrev Desc.next desc }.setEvent slot { entry with qPrev := desc }

/-- Takes `node`, which stands behind `prev`, out of the queue of an event. -/
def eventTakeOut (k : Kernel) (slot prev node : Nat) : Kernel :=
  let next := k.desc.get32 node Desc.next
  let entry := k.events slot
  let entry := if prev = 0 then { entry with qNext := next } else entry
  let h := if prev = 0 then k.desc else k.desc.set32 prev Desc.next next
  let entry := if next = 0 then { entry with qPrev := prev } else entry
  { k with desc := h.set32 node Desc.next 0 }.setEvent slot entry

def dequeueWalk (k : Kernel) (slot value : Nat) : Nat → Nat → Nat → Nat × Kernel
  | 0, _, _ => (0, k)
  | fuel + 1, prev, node =>
    if node = 0 then (0, k)
    else if eventValueInRange value (k.desc.get32 node Desc.evMin) (k.desc.get32 node Desc.evMax) then
      (node, k.eventTakeOut slot prev node)
    else dequeueWalk k slot value fuel node (k.desc.get32 node Desc.next)

/-- The first waiting process whose range holds `value`, 0 when there is none. -/
def eventDequeueInRange (k : Kernel) (slot value : Nat) : Nat × Kernel :=
  dequeueWalk k slot value queueLimit 0 (k.events slot).qNext

/-- Hands `value` to a waiting process and makes it ready. -/
def eventWakeOne (k : Kernel) (waiter value : Nat) : Kernel :=
  let k := { k with ram := setFrameReg k.ram (k.desc.get32 waiter Desc.savedSp) frameRegD1 value }
  (k.procAProc waiter).2

/-- Wakes waiting processes while the value, moved on by the wait increment, suits one. -/
def signalRounds (k : Kernel) (slot value : Nat) : Nat → Kernel
  | 0 => k
  | rounds + 1 =>
    match k.eventDequeueInRange slot value with
    | (waiter, k) =>
      if waiter = 0 then k
      else
        let incW := (k.events slot).incW
        let k := k.eventWakeOne waiter value
        let value := eventAddSaturating value (int16 incW)
        signalRounds (k.setEvent slot { k.events slot with value := value }) slot value rounds

/-- The common part of Ev$Signl, Ev$Set, Ev$SetR and Ev$Pulse; the previous value. -/
def eventSignalCommon (k : Kernel) (id newValue : Nat) (restore wakeAll : Bool) : Except Nat Nat × Kernel :=
  match k.eventFindById id with
  | none => (.error eEvntId, k)
  | some slot =>
    let previous := (k.events slot).value
    let k := k.setEvent slot { k.events slot with value := newValue }
    if restore then (.ok previous, k.setEvent slot { k.events slot with value := previous })
    else (.ok previous, k.signalRounds slot newValue (if wakeAll then eventSlots * 4 + 1 else 1))

def eventSignal (k : Kernel) (id : Nat) (wakeAll : Bool) : Except Nat Nat × Kernel :=
  match k.eventFindById id with
  | none => (.error eEvntId, k)
  | some slot =>
    let value := eventAddSaturating (k.events slot).value (int16 (k.events slot).incS)
    k.eventSignalCommon id value false wakeAll

def eventSet (k : Kernel) (id newValue : Nat) (wakeAll : Bool) : Except Nat Nat × Kernel :=
  k.eventSignalCommon id newValue false wakeAll

def eventSetRelative (k : Kernel) (id : Nat) (delta : Int) (wakeAll : Bool) : Except Nat Nat × Kernel :=
  match k.eventFindById id with
  | none => (.error eEvntId, k)
  | some slot => k.eventSignalCommon id (eventAddSaturating (k.events slot).value delta) false wakeAll

def eventPulse (k : Kernel) (id pulseValue : Nat) (wakeAll : Bool) : Except Nat Nat × Kernel :=
  k.eventSignalCommon id pulseValue true wakeAll

/-- Ev$Wait: the value when it is in range, nothing when the caller has to wait. -/
def eventWaitCheck (k : Kernel) (id minValue maxValue : Nat) : Except Nat (Option Nat) × Kernel :=
  match k.eventFindById id with
  | none => (.error eEvntId, k)
  | some slot =>
    let entry := k.events slot
    if eventValueInRange entry.value minValue maxValue then
      (.ok (some entry.value),
        k.setEvent slot { entry with value := eventAddSaturating entry.value (int16 entry.incW) })
    else (.ok none, k)

/-- The second part of Ev$Wait, once the caller's registers are saved. -/
def eventWaitEnqueue (k : Kernel) (id minValue maxValue : Nat) : Nat × Kernel :=
  match k.eventFindById id with
  | none => (0, k)
  | some slot =>
    if k.proc = 0 then (0, k)
    else
      let h := k.desc.set32 k.proc Desc.evMin minValue
      let h := h.set32 k.proc Desc.evMax maxValue
      ({ k with desc := h }.eventEnqueue slot k.proc).schedFirstPick

/-- Ev$Wait as a system call; with nobody left to run the kernel halts. -/
def sysEventWait (k : Kernel) (id minValue maxValue sp : Nat) : Option Kernel :=
  match (k.eventWaitCheck id minValue maxValue).1 with
  | .ok none =>
    let blocked := (k.saveSp sp).eventWaitEnqueue id minValue maxValue
    if blocked.1 = 0 then none else some blocked.2
  | _ => some (k.eventWaitCheck id minValue maxValue).2

/-! ### Semaphores -/

end Kernel

namespace Sema

def qNext : Nat := 8
def qPrev : Nat := 12
def length : Nat := 16

end Sema

namespace Kernel

def semaEnqueue (k : Kernel) (sema desc : Nat) : Kernel :=
  let tail := k.ram.getU32 (sema + Sema.qPrev)
  let h := k.desc.set32 desc Desc.next 0
  let h := if tail = 0 then h else h.set32 tail Desc.next desc
  let ram := if tail = 0 then k.ram.setU32 (sema + Sema.qNext) desc else k.ram
  let ram := ram.setU32 (sema + Sema.qPrev) desc
  let ram := ram.setU32 (sema + Sema.length) (ram.getU32 (sema + Sema.length) + 1)
  { k with desc := h, ram := ram }

def semaDequeue (k : Kernel) (sema : Nat) : Nat × Kernel :=
  let head := k.ram.getU32 (sema + Sema.qNext)
  if head = 0 then (0, k)
  else
    let next := k.desc.get32 head Desc.next
    let ram := k.ram.setU32 (sema + Sema.qNext) next
    let ram := if next = 0 then ram.setU32 (sema + Sema.qPrev) 0 else ram
    let ram := ram.setU32 (sema + Sema.length) (ram.getU32 (sema + Sema.length) - 1)
    (head, { k with desc := k.desc.set32 head Desc.next 0, ram := ram })

/-- F$Sema P: the running process waits at the end of the queue. -/
def sysSemaWait (k : Kernel) (sema sp : Nat) : Except Nat Unit × Kernel :=
  if sema = 0 ∨ k.proc = 0 then (.error eBpAddr, k)
  else
    let self := k.proc
    let k := (k.saveSp sp).semaEnqueue sema self
    (.ok (), switchTo { k with desc := k.desc.set8 self Desc.state stateSema }.schedFirstPick)

/-- F$Sema V: the first waiting process becomes ready. -/
def sysSemaSignal (k : Kernel) (sema : Nat) : Except Nat Unit × Kernel :=
  if sema = 0 then (.error eBpAddr, k)
  else
    match k.semaDequeue sema with
    | (waiter, k) => if waiter = 0 then (.ok (), k) else k.procAProc waiter

end Kernel

end Q9OS

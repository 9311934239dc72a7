import Mathlib.Tactic
import Q9OS.Lib.Run
import Q9OS.Process.Event

/-!
# The event table

Ev$Creat, Ev$Delet, Ev$Link, Ev$UnLnk and Ev$Read of `q9kernel_event.c`. An ID
is the table index in the low word and a running number in the high word.
-/

namespace Q9OS

def eventNameMax : Nat := 11

/-! ### Names -/

def eventNameChar (c : Nat) : Bool := c > 0x20 && c < 0x7F

/-- Compares the stored name with the one at `nameAddr`, from character `i` on. -/
def nameMatchesFrom (m : Mem) (name : List Nat) (nameAddr : Nat) : Nat → Nat → Bool
  | 0, _ => true
  | n + 1, i =>
    let want := name.getD i 0
    let given := m.getU8 (nameAddr + i)
    if want = 0 then !eventNameChar given
    else if !eventNameChar given || given != want then false
    else nameMatchesFrom m name nameAddr n (i + 1)

def eventNameMatches (m : Mem) (name : List Nat) (nameAddr : Nat) : Bool :=
  nameMatchesFrom m name nameAddr eventNameMax 0

/-- The index of the first character from `i` on that is no part of a name. -/
def nameEnd (m : Mem) (nameAddr : Nat) : Nat → Nat → Nat
  | 0, i => i
  | n + 1, i => if eventNameChar (m.getU8 (nameAddr + i)) then nameEnd m nameAddr n (i + 1) else i

/-- The length of a name, 0 when it is empty or too long. -/
def eventNameLength (m : Mem) (nameAddr : Nat) : Nat :=
  if nameAddr = 0 then 0
  else
    let i := nameEnd m nameAddr (eventNameMax + 1) 0
    if i = 0 ∨ i > eventNameMax then 0 else i

/-- The twelve bytes of a name in the table. -/
def storedName (m : Mem) (nameAddr len : Nat) : List Nat :=
  (List.range (eventNameMax + 1)).map fun i => if i < len then m.getU8 (nameAddr + i) else 0

namespace Kernel

def eventFindByName (k : Kernel) (nameAddr : Nat) : Option Nat :=
  (List.range eventSlots).find? fun i => (k.events i).id != 0 && eventNameMatches k.ram (k.events i).name nameAddr

def eventFreeSlot (k : Kernel) : Option Nat := (List.range eventSlots).find? fun i => (k.events i).id == 0

/-- The running number of the next event; it skips 0. -/
def nextSerial (n : Nat) : Nat :=
  let serial := (n + 1) % 4294967296
  if serial = 0 ∨ serial > 0xFFFF then 1 else serial

def eventIdOf (serial slot : Nat) : Nat := serial * 65536 + slot

/-- Ev$Creat: the ID. -/
def eventCreate (k : Kernel) (nameAddr initialValue waitInc signalInc : Nat) : Except Nat Nat × Kernel :=
  let len := eventNameLength k.ram nameAddr
  if len = 0 then (.error eBNam, k)
  else if (k.eventFindByName nameAddr).isSome then (.error eEvBusy, k)
  else
    match k.eventFreeSlot with
    | none => (.error eEvFull, k)
    | some slot =>
      let serial := nextSerial k.eventNextId
      let entry : EventSlot := ⟨serial, storedName k.ram nameAddr len, initialValue, waitInc, signalInc, 1, 0, 0⟩
      (.ok (eventIdOf serial slot), { k with eventNextId := serial }.setEvent slot entry)

/-- Ev$Delet: only the use count decides. -/
def eventDelete (k : Kernel) (nameAddr : Nat) : Except Nat Unit × Kernel :=
  if eventNameLength k.ram nameAddr = 0 then (.error eBNam, k)
  else
    match k.eventFindByName nameAddr with
    | none => (.error eEvNF, k)
    | some slot =>
      if (k.events slot).link ≠ 0 then (.error eEvBusy, k)
      else (.ok (), k.setEvent slot { k.events slot with id := 0 })

/-- Ev$Link. -/
def eventLink (k : Kernel) (nameAddr : Nat) : Except Nat Nat × Kernel :=
  if eventNameLength k.ram nameAddr = 0 then (.error eBNam, k)
  else
    match k.eventFindByName nameAddr with
    | none => (.error eEvNF, k)
    | some slot =>
      let entry := k.events slot
      (.ok (eventIdOf entry.id slot), k.setEvent slot { entry with link := (entry.link + 1) % 65536 })

/-- Ev$UnLnk: the count stops at 0, and the event stays. -/
def eventUnlink (k : Kernel) (id : Nat) : Except Nat Unit × Kernel :=
  match k.eventFindById id with
  | none => (.error eEvntId, k)
  | some slot =>
    let entry := k.events slot
    (.ok (), if entry.link ≠ 0 then k.setEvent slot { entry with link := entry.link - 1 } else k)

/-- Ev$Read. -/
def eventRead (k : Kernel) (id : Nat) : Except Nat Nat :=
  match k.eventFindById id with
  | none => .error eEvntId
  | some slot => .ok (k.events slot).value

end Kernel

/-! ### The calls of F$Event -/

inductive EventOp where
  | create (nameAddr initialValue waitInc signalInc : Nat)
  | delete (nameAddr : Nat)
  | link (nameAddr : Nat)
  | unlink (id : Nat)
  | read (id : Nat)
  | wait (id minValue maxValue sp : Nat)
  | signal (id : Nat) (wakeAll : Bool)
  | set (id value : Nat) (wakeAll : Bool)
  | setRelative (id : Nat) (delta : Int) (wakeAll : Bool)
  | pulse (id value : Nat) (wakeAll : Bool)

/-- F$Event by the running process. -/
def Kernel.eventCall (k : Kernel) : EventOp → Option Kernel
  | .create nameAddr initialValue waitInc signalInc =>
    some (k.eventCreate nameAddr initialValue waitInc signalInc).2
  | .delete nameAddr => some (k.eventDelete nameAddr).2
  | .link nameAddr => some (k.eventLink nameAddr).2
  | .unlink id => some (k.eventUnlink id).2
  | .read _ => some k
  | .wait id minValue maxValue sp => k.sysEventWait id minValue maxValue sp
  | .signal id wakeAll => some (k.eventSignal id wakeAll).2
  | .set id value wakeAll => some (k.eventSet id value wakeAll).2
  | .setRelative id delta wakeAll => some (k.eventSetRelative id delta wakeAll).2
  | .pulse id value wakeAll => some (k.eventPulse id value wakeAll).2

end Q9OS

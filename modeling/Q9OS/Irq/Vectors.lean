import Mathlib.Tactic
import Q9OS.Process.Kernel

/-!
# Exception vectors

`q9kernel_exctable.c`: the table of exception vectors, the polling table of
F$IRQ and the fast handlers of F$FIRQ.
-/

namespace Q9OS

namespace Irq

/-! ### State -/

/-- The routines a vector can hold; `boot` is what the boot ROM left there. -/
inductive Handler where
  | boot
  | excTrap
  | trapDispatch
  | tCallDispatch
  | traceHandler
  | timerIRQHandler
  | irqDispatch
  deriving DecidableEq

/-- An entry of the polling table. -/
structure Poll where
  vector : Nat
  prio : Nat
  isr : Nat
  static : Nat
  port : Nat
  deriving DecidableEq

def Poll.free : Poll := ⟨0, 0, 0, 0, 0⟩

structure Vectors where
  /-- `D_ExcJmp`, the address of the table. -/
  excJmp : Nat
  table : Nat → Handler
  polls : Nat → Poll
  firqHandlers : Nat → Nat
  firqStatics : Nat → Nat

def excTableTotal : Nat := 256
def excTableReserved : Nat := 2
def irqTabSlots : Nat := 12
def timerVector : Nat := 30

def ePoll : Nat := 0xCA
def eFirq : Nat := 0xD4

namespace Vectors

def setVector (s : Vectors) (vector : Nat) (handler : Handler) : Vectors :=
  { s with table := fun v => if v = vector then handler else s.table v }

def setVectors (s : Vectors) (handler : Handler) : List Nat → Vectors
  | [] => s
  | v :: rest => setVectors (s.setVector v handler) handler rest

/-- Autovectors 25 to 31 without the timer. -/
def setAutovectors (s : Vectors) (handler : Handler) : Vectors :=
  s.setVectors handler ((List.range' 25 7).filter (· ≠ timerVector))

def setPoll (s : Vectors) (i : Nat) (poll : Poll) : Vectors :=
  { s with polls := fun j => if j = i then poll else s.polls j }

/-! ### F$IRQ -/

def irqHasVector (s : Vectors) (vector : Nat) : Bool :=
  (List.range irqTabSlots).any fun i => (s.polls i).vector == vector

/-- Some device is polled. -/
def irqAnyEntry (s : Vectors) : Bool := (List.range irqTabSlots).any fun i => (s.polls i).vector != 0

/-- The entry of a device, by vector and static storage. -/
def irqFind (s : Vectors) (vector static : Nat) : Option Nat :=
  (List.range irqTabSlots).find? fun i => (s.polls i).vector == vector && (s.polls i).static == static

/-- The last device on a vector gives it back. -/
def restoreVector (s : Vectors) (vector : Nat) (sameVector : Bool) : Vectors :=
  if sameVector = false ∧ s.excJmp ≠ 0 ∧ vector < excTableTotal then s.setVector vector .excTrap else s

/-- The last device on an autovector looks at the whole table before it gives back all of them. -/
def restoreAutovectors (s : Vectors) (vector : Nat) (sameVector : Bool) : Vectors :=
  if sameVector = false ∧ 25 ≤ vector ∧ vector ≤ 31 ∧ s.irqAnyEntry = false ∧ s.excJmp ≠ 0 then
    s.setAutovectors .excTrap else s

/-- Vectors after the entry of a device on `vector` is gone. -/
def irqRestore (s : Vectors) (vector : Nat) : Vectors :=
  let sameVector := s.irqHasVector vector
  (s.restoreVector vector sameVector).restoreAutovectors vector sameVector

def irqRemove (s : Vectors) (vector static : Nat) : Except Nat Unit × Vectors :=
  match s.irqFind vector static with
  | none => (.error eParam, s)
  | some i => (.ok (), (s.setPoll i .free).irqRestore vector)

/-- The slot for a device: its old one, else the first free one, which `free` remembers. -/
def irqSlot (s : Vectors) (vector static : Nat) : List Nat → Option Nat → Option Nat
  | [], free => free
  | i :: rest, free =>
    if (s.polls i).vector = 0 then irqSlot s vector static rest (free.or (some i))
    else if (s.polls i).vector = vector ∧ (s.polls i).static = static then some i
    else irqSlot s vector static rest free

def irqInstall (s : Vectors) (vector : Nat) : Vectors :=
  if vector < excTableTotal ∧ s.excJmp ≠ 0 then (s.setVector vector .irqDispatch).setAutovectors .irqDispatch else s

def irqEnter (s : Vectors) (poll : Poll) : Except Nat Unit × Vectors :=
  if poll.vector < excTableReserved ∨ poll.vector ≥ excTableTotal ∨ poll.vector = timerVector then (.error eParam, s)
  else
    match s.irqSlot poll.vector poll.static (List.range irqTabSlots) none with
    | none => (.error ePoll, s)
    | some i => (.ok (), (s.setPoll i poll).irqInstall poll.vector)

/-- F$IRQ: a service routine of 0 removes the entry. -/
def procIRQ (s : Vectors) (poll : Poll) : Except Nat Unit × Vectors :=
  if poll.isr = 0 then s.irqRemove poll.vector poll.static else s.irqEnter poll

/-! ### F$FIRQ -/

def setFirq (s : Vectors) (vector isr static : Nat) : Vectors :=
  { s with
    firqHandlers := fun v => if v = vector then isr else s.firqHandlers v
    firqStatics := fun v => if v = vector then static else s.firqStatics v }

def firqRemove (s : Vectors) (vector static : Nat) : Except Nat Unit × Vectors :=
  if s.firqHandlers vector = 0 ∨ s.firqStatics vector ≠ static then (.error eParam, s)
  else
    let s := s.setFirq vector 0 0
    (.ok (), if s.excJmp ≠ 0 then
      s.setVector vector (if s.irqHasVector vector then .irqDispatch else .excTrap) else s)

def firqEnter (s : Vectors) (vector isr static : Nat) : Except Nat Unit × Vectors :=
  if s.firqHandlers vector ≠ 0 then (.error eFirq, s)
  else
    let s := s.setFirq vector isr static
    (.ok (), if s.excJmp ≠ 0 then s.setVector vector .irqDispatch else s)

/-- F$FIRQ: one fast handler for a vector; the low byte of d1 is reserved. -/
def procFIRQ (s : Vectors) (vector reserved isr static : Nat) : Except Nat Unit × Vectors :=
  if reserved % 256 ≠ 0 ∨ ((vector < 25 ∨ vector > 31) ∧ vector < 64) ∨ vector ≥ excTableTotal ∨
      vector = timerVector then (.error eParam, s)
  else if isr = 0 then s.firqRemove vector static
  else s.firqEnter vector isr static

/-! ### The table at boot -/

def excGroupCounts : List Nat := [2, 5, 1, 5, 1, 8, 1, 7, 1, 15, 7, 2, 7, 192]

/-- One group of vectors; `none` when the groups outgrow the table. -/
def fillGroup (s : Vectors) : Nat → Nat → Option (Nat × Vectors)
  | 0, vectorIndex => some (vectorIndex, s)
  | n + 1, vectorIndex =>
    if vectorIndex ≥ excTableTotal then none else fillGroup (s.setVector vectorIndex .excTrap) n (vectorIndex + 1)

def fillGroups (s : Vectors) : List Nat → Nat → Option (Nat × Vectors)
  | [], vectorIndex => some (vectorIndex, s)
  | n :: rest, vectorIndex => (s.fillGroup n vectorIndex).bind fun filled => filled.2.fillGroups rest filled.1

/-- The vectors of the kernel itself. -/
def ownVectors (s : Vectors) : Vectors :=
  let s := s.setVector 32 .trapDispatch
  let s := s.setVector 9 .traceHandler
  let s := s.setVectors .tCallDispatch (List.range' 33 15)
  s.setVector timerVector .timerIRQHandler

/-- `none` when the groups do not fill the table exactly. -/
def buildExcTable (s : Vectors) : Option Vectors :=
  match s.fillGroups excGroupCounts excTableReserved with
  | none => none
  | some (vectorIndex, s) => if vectorIndex ≠ excTableTotal then none else some s.ownVectors

end Vectors

end Irq

end Q9OS

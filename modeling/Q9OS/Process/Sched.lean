import Mathlib.Tactic
import Q9OS.Process.Kernel

/-!
# Process queues

`q9kernel_sched.c`: circular doubly linked lists through the descriptors, one
sentinel each for ready, waiting and sleeping processes. The removal of a node
takes no list argument.
-/

namespace Q9OS

def sleepInfinite : Nat := 0xFFFFFFFF
def schedTslice : Nat := 2

def listUnlink (h : Heap) (node : Nat) : Heap :=
  let next := h.get32 node Desc.next
  let prev := h.get32 node Desc.prev
  (h.set32 prev Desc.next next).set32 next Desc.prev prev

def listAppend (h : Heap) (sentinel node : Nat) : Heap :=
  let tail := h.get32 sentinel Desc.prev
  let h := h.set32 node Desc.next sentinel
  let h := h.set32 node Desc.prev tail
  let h := h.set32 tail Desc.next node
  h.set32 sentinel Desc.prev node

/-- Puts a process into the ready queue; its age starts at its priority. -/
def schedInsert (h : Heap) (desc : Nat) : Heap :=
  listAppend (h.set16 desc Desc.age (h.get8 desc Desc.priority)) readyQ desc

def schedRemove (h : Heap) (desc : Nat) : Heap := if desc ≠ 0 then listUnlink h desc else h

def setPriorityWalk (h : Heap) (desc stored : Nat) : Nat → Nat → Heap
  | 0, _ => h
  | fuel + 1, node =>
    if node = readyQ then h
    else if node = desc then h.set16 desc Desc.age stored
    else setPriorityWalk h desc stored fuel (h.get32 node Desc.next)

def schedSetPriority (h : Heap) (desc priority : Nat) : Heap :=
  let stored := priority % 256
  let h := h.set8 desc Desc.priority stored
  setPriorityWalk h desc stored queueLimit (h.get32 readyQ Desc.next)

/-- Wakes a sleeping process; any other state is left as it is. -/
def schedWake (h : Heap) (desc : Nat) : Heap :=
  if desc = 0 then h
  else if h.get8 desc Desc.state ≠ stateSleeping then h
  else schedInsert ((listUnlink h desc).set8 desc Desc.state stateActive) desc

def waitQInsert (h : Heap) (desc : Nat) : Heap := listAppend h waitQ desc

def waitQRemove (h : Heap) (desc : Nat) : Heap := listUnlink h desc

def sleepQInsert (h : Heap) (desc : Nat) : Heap := listAppend h sleepQ desc

/-- One sleeper at a tick. -/
def sleepTick (h : Heap) (node : Nat) : Heap :=
  let ticks := h.get32 node Desc.sleepTicks
  if ticks = sleepInfinite then h
  else
    let ticks := ticks - 1
    let h := h.set32 node Desc.sleepTicks ticks
    if ticks = 0 then schedInsert ((listUnlink h node).set8 node Desc.state stateActive) node else h

def sleepWalk (h : Heap) : Nat → Nat → Heap
  | 0, _ => h
  | fuel + 1, node =>
    if node = sleepQ then h
    else
      let next := h.get32 node Desc.next
      sleepWalk (sleepTick h node) fuel next

def sleepQDecrementAll (h : Heap) : Heap := sleepWalk h queueLimit (h.get32 sleepQ Desc.next)

/-- One ready process at a tick. -/
def ageNode (h : Heap) (maxAge node : Nat) : Heap :=
  let age := h.get16 node Desc.age
  if maxAge = 0 then
    if age ≠ 0xFFFF then h.set16 node Desc.age (age + 1) else h
  else if h.get8 node Desc.priority ≥ maxAge then h
  else if age < maxAge then h.set16 node Desc.age (age + 1)
  else h

def ageWalk (h : Heap) (maxAge : Nat) : Nat → Nat → Heap
  | 0, _ => h
  | fuel + 1, node =>
    if node = readyQ then h
    else
      let h := ageNode h maxAge node
      ageWalk h maxAge fuel (h.get32 node Desc.next)

def schedAgeAll (h : Heap) (maxAge : Nat) : Heap := ageWalk h maxAge queueLimit (h.get32 readyQ Desc.next)

def pickWalk (h : Heap) (minPty : Nat) : Nat → Nat → Nat → Nat → Nat
  | 0, _, best, _ => best
  | fuel + 1, node, best, bestAge =>
    if node = readyQ then best
    else
      let age := h.get16 node Desc.age
      let better := (minPty = 0 ∨ h.get8 node Desc.priority ≥ minPty) ∧ (best = 0 ∨ age > bestAge)
      let next := h.get32 node Desc.next
      if better then pickWalk h minPty fuel next node age else pickWalk h minPty fuel next best bestAge

/-- Takes the oldest eligible process off the ready queue, 0 when there is none. -/
def schedPickHighestAge (h : Heap) (minPty : Nat) : Nat × Heap :=
  let best := pickWalk h minPty queueLimit (h.get32 readyQ Desc.next) 0 0
  (best, if best ≠ 0 then listUnlink h best else h)

namespace Kernel

/-- The next process to run, 0 when none is ready. -/
def schedFirstPick (k : Kernel) : Nat × Kernel :=
  let (first, desc) := schedPickHighestAge k.desc 0
  if first ≠ 0 then
    (first, { k with desc := desc, proc := first, sched := { k.sched with minPty := 0, slice := schedTslice } })
  else (0, { k with desc := desc, sched := { k.sched with minPty := 0 } })

/-- The switch behind a blocking call: `IdleFallback` runs the idle process when none is ready. -/
def switchTo (picked : Nat × Kernel) : Kernel :=
  if picked.1 ≠ 0 then picked.2 else { picked.2 with proc := picked.2.idleProc }

/-- Without an idle process the kernel halts there. -/
def alive (k : Kernel) : Option Kernel := if k.proc = 0 then none else some k

/-- Saves the stack pointer of the running process in its descriptor. -/
def saveSp (k : Kernel) (sp : Nat) : Kernel := { k with desc := k.desc.set32 k.proc Desc.savedSp sp }

/-! ### Process IDs (`q9kernel_procapi.c`) -/

/-- Free slots are told from used ones by the state letter alone. -/
def procIsAllocated (k : Kernel) (desc : Nat) : Bool :=
  let state := k.desc.get8 desc Desc.state
  state == stateActive || state == stateWaiting || state == stateSleeping || state == stateSema ||
    state == stateZombie

def slotAddr (k : Kernel) (i : Nat) : Nat := k.poolBase + i * Desc.size

def procLookup (k : Kernel) (pid : Nat) : Nat :=
  if pid = 0 ∨ pid > k.poolCount ∨ k.poolBase = 0 then 0
  else
    let desc := k.slotAddr (pid - 1)
    if k.procIsAllocated desc then desc else 0

def procIdForDesc (k : Kernel) (desc : Nat) : Nat :=
  if k.poolBase = 0 ∨ k.poolCount = 0 ∨ desc < k.poolBase then 0
  else
    let delta := desc - k.poolBase
    if delta % Desc.size ≠ 0 ∨ delta / Desc.size ≥ k.poolCount ∨ ¬ k.procIsAllocated desc then 0
    else (delta / Desc.size + 1) % 65536

/-- F$SPrior. -/
def procSPrior (k : Kernel) (pid priority : Nat) : Except Nat Unit × Kernel :=
  let desc := k.procLookup pid
  if desc = 0 then (.error ePrcId, k)
  else (.ok (), { k with desc := schedSetPriority k.desc desc priority })

/-- F$AProc: a used slot with a saved stack enters the ready queue. -/
def procAProc (k : Kernel) (desc : Nat) : Except Nat Unit × Kernel :=
  if desc = 0 ∨ k.procIdForDesc desc = 0 then (.error ePrcId, k)
  else if k.desc.get32 desc Desc.savedSp = 0 then (.error ePrcId, k)
  else (.ok (), { k with desc := schedInsert k.desc desc })

end Kernel

end Q9OS

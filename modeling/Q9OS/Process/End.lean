import Mathlib.Tactic
import Q9OS.Process.Spawn

/-!
# End of processes

`q9kernel_procend.c` with the assembler around F$Wait and F$Exit, and the calls
of the debugger from `q9kernel_firstproc.c`.
-/

namespace Q9OS

def carryFlag : Nat := 1
def traceFlag : Nat := 0x8000

namespace Kernel

/-! ### What a process holds -/

/-- One path word of a process. -/
def releasePath (k : Kernel) (desc i : Nat) : Kernel :=
  let pathNum := k.desc.get16 desc (Desc.path + i * 2)
  if pathNum = 0 then k
  else { k with desc := k.desc.set16 desc (Desc.path + i * 2) 0, paths := k.paths.dropRef pathNum }

def releasePathsFrom (k : Kernel) (desc : Nat) : List Nat → Kernel
  | [] => k
  | i :: rest => releasePathsFrom (k.releasePath desc i) desc rest

def procReleasePaths (k : Kernel) (desc : Nat) : Kernel := k.releasePathsFrom desc (List.range Desc.pathCount)

/-- The entry of trap `trapNum`; its static memory is left to the release of all memory. -/
def releaseTrapLink (k : Kernel) (desc trapNum : Nat) : Kernel :=
  let mod := k.desc.get32 desc (Desc.trapSlot trapNum + Desc.trapModPtr)
  let k := if mod ≠ 0 then k.modUnlink mod else k
  { k with desc := setTrapEntry k.desc desc trapNum 0 0 0 0 }

def releaseTrapLinksFrom (k : Kernel) (desc : Nat) : List Nat → Kernel
  | [] => k
  | n :: rest => releaseTrapLinksFrom (k.releaseTrapLink desc n) desc rest

def procReleaseTrapLinks (k : Kernel) (desc : Nat) : Kernel := k.releaseTrapLinksFrom desc (List.range' 1 15)

def procReleaseMemory (k : Kernel) (desc : Nat) : Kernel :=
  let base := k.desc.get32 desc Desc.allocBase
  let size := k.desc.get32 desc Desc.allocSize
  let h := (k.desc.set32 desc Desc.allocBase 0).set32 desc Desc.allocSize 0
  let ram := if base ≠ 0 ∧ size ≠ 0 then Arena.freeMem k.ram base size else k.ram
  { k with desc := h, ram := SysMem.procMemReleaseAll ram desc }

/-- Traps, paths and memory of a process. -/
def procReleaseAll (k : Kernel) (desc : Nat) : Kernel :=
  ((k.procReleaseTrapLinks desc).procReleasePaths desc).procReleaseMemory desc

/-- Unlinks the module of a process that ends. -/
def releaseModule (k : Kernel) (desc : Nat) : Kernel :=
  let modHdr := k.desc.get32 desc Desc.modHdr
  if modHdr ≠ 0 then
    let k := k.modUnlink modHdr
    { k with desc := k.desc.set32 desc Desc.modHdr 0 }
  else k

/-! ### The slot -/

/-- What a freed slot forgets; its state letter stays. -/
def clearSlot (h : Heap) (desc : Nat) : Heap :=
  let h := h.set32 desc Desc.parent 0
  let h := h.set32 desc Desc.modHdr 0
  let h := h.set16 desc Desc.exitStatus 0
  let h := h.set32 desc Desc.dbgPar 0
  let h := h.set32 desc Desc.dbgInstr 0
  h.set32 desc Desc.dbgTotal 0

/-- Puts a slot back on the free list. -/
def procPoolFree (k : Kernel) (desc : Nat) : Kernel :=
  let k := (k.alarmCleanupProcess desc).procReleaseAll desc
  { k with desc := clearSlot k.desc desc }.procPoolAbortAlloc desc

def isDeadChild (k : Kernel) (parent slot : Nat) : Bool :=
  k.desc.get32 slot Desc.parent == parent && k.desc.get8 slot Desc.state == stateZombie

def freeDeadChildrenFrom (k : Kernel) (callerDesc : Nat) : List Nat → Kernel
  | [] => k
  | i :: rest =>
    let slot := k.slotAddr i
    freeDeadChildrenFrom (if k.isDeadChild callerDesc slot then k.procPoolFree slot else k) callerDesc rest

/-- Zombies nobody will wait for any more. -/
def procExitFreeDeadChildren (k : Kernel) (callerDesc : Nat) : Kernel :=
  k.freeDeadChildrenFrom callerDesc (List.range k.poolCount)

/-! ### F$Exit -/

def activate (k : Kernel) (desc : Nat) : Kernel :=
  { k with desc := schedInsert (k.desc.set8 desc Desc.state stateActive) desc }

def waitQTake (k : Kernel) (desc : Nat) : Kernel := { k with desc := waitQRemove k.desc desc }

def setReg (k : Kernel) (frame reg value : Nat) : Kernel := { k with ram := setFrameReg k.ram frame reg value }

/-- The exit of a debugged process: it stays, and its debugger learns of it. -/
def procDebugChildExit (k : Kernel) (child owner exitStatus : Nat) : Nat × Kernel :=
  let ownerSp := k.desc.get32 owner Desc.savedSp
  let h := k.desc.set16 child Desc.exitStatus exitStatus
  let h := h.set8 child Desc.state stateWaiting
  let k := { k with desc := h.set32 child Desc.dbgInstr 0 }
  if owner = 0 ∨ k.desc.get8 owner Desc.state ≠ stateWaiting then k.schedFirstPick
  else
    let k := k.setReg ownerSp 0 (k.desc.get32 child Desc.dbgTotal)
    let k := (k.setReg ownerSp 1 ePrcAbt).setReg ownerSp 2 0
    let sr := k.ram.getU16 (ownerSp + frameSr)
    let k := { k with ram := k.ram.setU16 (ownerSp + frameSr) (sr ||| carryFlag) }
    ((k.waitQTake owner).activate owner).schedFirstPick

/-- A waiting parent gets ID and status of the child at once. -/
def deliverExit (k : Kernel) (child parent exitStatus : Nat) : Kernel :=
  let childPid := k.slotPid child
  let parentSp := k.desc.get32 parent Desc.savedSp
  let k := k.waitQTake parent
  let k := (k.setReg parentSp 0 childPid).setReg parentSp 1 exitStatus
  (k.activate parent).procPoolFree child

/-- The child becomes a zombie. -/
def buryChild (k : Kernel) (child exitStatus : Nat) : Kernel :=
  { k with desc := (k.desc.set8 child Desc.state stateZombie).set16 child Desc.exitStatus exitStatus }

/-- What F$Exit gives back before it looks at the parent. -/
def exitRelease (k : Kernel) (callerDesc : Nat) : Kernel :=
  ((k.releaseModule callerDesc).procReleaseAll callerDesc).procExitFreeDeadChildren callerDesc

/-- F$Exit: the next process to run. -/
def procExit (k : Kernel) (callerDesc exitStatus : Nat) : Nat × Kernel :=
  let parent := k.desc.get32 callerDesc Desc.parent
  let owner := k.desc.get32 callerDesc Desc.dbgPar
  if owner ≠ 0 then k.procDebugChildExit callerDesc owner exitStatus
  else
    let k := k.exitRelease callerDesc
    let k :=
      if parent ≠ 0 ∧ k.desc.get8 parent Desc.state = stateWaiting then k.deliverExit callerDesc parent exitStatus
      else k.buryChild callerDesc exitStatus
    k.schedFirstPick

/-- F$Exit as a system call. -/
def sysExit (k : Kernel) (exitStatus : Nat) : Kernel := switchTo (k.procExit k.proc exitStatus)

/-! ### F$Wait -/

/-- What the search for a dead child finds. -/
inductive Reap where
  | child (pid exitStatus : Nat)
  | living
  | noChild
  deriving DecidableEq

/-- The first zombie among the children in the given slots, and whether there is a child at all. -/
def findDeadChild (k : Kernel) (callerDesc : Nat) : List Nat → Option Nat × Bool
  | [] => (none, false)
  | i :: rest =>
    if k.desc.get32 (k.slotAddr i) Desc.parent ≠ callerDesc then findDeadChild k callerDesc rest
    else if k.desc.get8 (k.slotAddr i) Desc.state = stateZombie then (some i, true)
    else ((findDeadChild k callerDesc rest).1, true)

def procWaitTryReap (k : Kernel) (callerDesc : Nat) : Reap × Kernel :=
  match k.findDeadChild callerDesc (List.range k.poolCount) with
  | (some i, _) =>
    let slot := k.slotAddr i
    (.child (k.slotPid slot) (k.desc.get16 slot Desc.exitStatus), k.procPoolFree slot)
  | (none, true) => (.living, k)
  | (none, false) => (.noChild, k)

/-- Opens the mask of the caller; whether a signal is pending. -/
def waitSignalPending (k : Kernel) (desc : Nat) : Bool × Kernel :=
  if desc = 0 then (false, k)
  else
    let h := k.desc.set8 desc Desc.sigLvl 0
    (h.get16 desc Desc.signal ≠ 0, { k with desc := h })

/-- The answer of a call that does not block. -/
inductive WaitResult where
  | reaped (pid exitStatus : Nat)
  | failed (code : Nat)
  | signalled
  | delivered
  | blocked
  deriving DecidableEq

/-- Saved registers of a caller that blocks: no child yet. -/
def waitFrame (k : Kernel) (sp : Nat) : Kernel :=
  let sr := k.ram.getU16 (sp + frameSr)
  let k := { k with ram := k.ram.setU16 (sp + frameSr) (sr / 2 * 2) }
  ((k.setReg sp 0 0).setReg sp 1 0).saveSp sp

/-- A pending signal is delivered instead of waiting. -/
def procWaitDeliver (k : Kernel) : Nat × Kernel :=
  let desc := k.proc
  let pending := k.desc.get16 desc Desc.signal
  let k := { k with desc := schedInsert k.desc desc }
  (if pending ≠ 0 then k.icptDeliver desc pending else k).schedFirstPick

/-- The caller waits for a child. -/
def waitBlock (k : Kernel) (sp : Nat) : Kernel :=
  let desc := k.proc
  let k := k.waitFrame sp
  let h := waitQInsert (k.desc.set8 desc Desc.state stateWaiting) desc
  switchTo { k with desc := h }.schedFirstPick

/-- F$Wait by the running process, whose registers are at `sp` if it blocks. -/
def sysWait (k : Kernel) (sp : Nat) : WaitResult × Kernel :=
  match k.procWaitTryReap k.proc with
  | (.child pid exitStatus, k) => (.reaped (pid % 65536) exitStatus, k)
  | (.noChild, k) => (.failed eNoChld, k)
  | (.living, k) =>
    match k.waitSignalPending k.proc with
    | (true, k) =>
      if k.desc.get32 k.proc Desc.sigVec ≠ 0 then (.delivered, switchTo (k.waitFrame sp).procWaitDeliver)
      else (.signalled, k)
    | (false, k) => (.blocked, k.waitBlock sp)

end Kernel

end Q9OS

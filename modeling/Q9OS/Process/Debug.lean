import Mathlib.Tactic
import Q9OS.Process.End

/-!
# Calls of the debugger

F$DFork, F$DExec, F$DExit and the trace exception (`q9kernel_firstproc.c`,
`q9kernel_procend.c`). A debugged process that does not run has the state letter
of a waiting process but is in no queue.
-/

namespace Q9OS.Kernel

/-- The registers of a frame and the stack pointer behind it, as F$DFork reports them. -/
def debugImage (m : Mem) (buffer frame : Nat) : Mem :=
  let m := copyBytes m buffer frame 60
  let m := m.setU32 (buffer + 60) (frame + 68)
  copyBytes m (buffer + 64) (frame + 60) 8

/-- F$DFork: a child that belongs to its debugger and does not run yet. -/
def procDebugFork (k : Kernel) (args : ForkArgs) (registerBuffer : Nat) : Except Nat Nat × Kernel :=
  if registerBuffer = 0 then (.error eBpAddr, k)
  else
    match k.procFork args with
    | (.error code, k) => (.error code, k)
    | (.ok pid, k) =>
      let desc := k.procLookup (pid % 65536)
      let frame := k.desc.get32 desc Desc.savedSp
      if desc = 0 ∨ frame = 0 then (.error eBpAddr, k)
      else
        let h := k.desc.set32 desc Desc.dbgReg registerBuffer
        let h := h.set32 desc Desc.dbgPar k.proc
        let h := h.set32 desc Desc.dbgInstr 0
        let h := (schedRemove h desc).set8 desc Desc.state stateWaiting
        (.ok pid, { k with ram := debugImage k.ram registerBuffer frame, desc := h })

/-- The frame of the child from the registers of the debugger. -/
def debugFrame (m : Mem) (frame regbuf : Nat) (trace : Bool) : Mem :=
  let m := copyBytes m frame regbuf 60
  let m := copyBytes m (frame + 60) (regbuf + 64) 8
  let sr := m.getU16 (frame + frameSr)
  m.setU16 (frame + frameSr) (if trace then sr ||| traceFlag else sr % traceFlag)

/-- Whether F$DExec takes the process for a suspended one of its caller. -/
def debugAccepts (k : Kernel) (desc : Nat) : Bool :=
  desc ≠ 0 && k.proc ≠ 0 && k.desc.get8 desc Desc.state == stateWaiting &&
    k.desc.get32 desc Desc.dbgPar == k.proc

/-- The child runs, its debugger waits. -/
def debugRun (k : Kernel) (desc instructionCount bpCount bpList : Nat) : Kernel :=
  let h := k.desc.set32 desc Desc.dbgInstr instructionCount
  let h := h.set32 desc Desc.dbgBps bpList
  let h := h.set32 desc Desc.dbgBpn bpCount
  let h := waitQInsert (h.set8 k.proc Desc.state stateWaiting) k.proc
  { k with desc := h }.activate desc

/-- F$DExec: the next process to run. -/
def procDebugExec (k : Kernel) (childPid instructionCount bpCount bpList : Nat) : Except Nat Nat × Kernel :=
  let desc := k.procLookup childPid
  if k.debugAccepts desc = false then (.error ePrcId, k)
  else
    let frame := k.desc.get32 desc Desc.savedSp
    let regbuf := k.desc.get32 desc Desc.dbgReg
    if frame = 0 ∨ regbuf = 0 then (.error eBpAddr, k)
    else
      let instructionCount := if instructionCount = 0xFFFFFFFF then 0 else instructionCount
      let bpCount := if bpList = 0 then 0 else min bpCount 255
      let ram := debugFrame k.ram frame regbuf (instructionCount ≠ 0 || bpCount ≠ 0)
      match ({ k with ram := ram }.debugRun desc instructionCount bpCount bpList).schedFirstPick with
      | (next, k) => (.ok next, k)

/-- The system call also saves the stack of the debugger, whose registers are at `sp`. -/
def sysDebugExec (k : Kernel) (childPid instructionCount bpCount bpList sp : Nat) : Except Nat Nat × Kernel :=
  let parent := k.proc
  match k.procDebugExec childPid instructionCount bpCount bpList with
  | (.error code, k) => (.error code, k)
  | (.ok next, k) =>
    let sr := k.ram.getU16 (sp + frameSr)
    (.ok next, { k with
      ram := k.ram.setU16 (sp + frameSr) (sr / 2 * 2), desc := k.desc.set32 parent Desc.savedSp sp })

/-- F$DExit: a suspended child goes with its slot. -/
def procDebugExit (k : Kernel) (childPid : Nat) : Except Nat Unit × Kernel :=
  if childPid = 0 ∨ childPid > k.poolCount then (.error ePrcId, k)
  else
    let desc := k.slotAddr (childPid - 1)
    if k.desc.get8 desc Desc.state ≠ stateWaiting then (.error ePrcId, k)
    else
      let owner := k.desc.get32 desc Desc.dbgPar
      if owner = 0 ∨ owner ≠ k.proc then (.error ePrcId, k)
      else (.ok (), (k.releaseModule desc).procPoolFree desc)

/-! ### The trace exception -/

def debugHwFrameSize (formatWord : Nat) : Nat :=
  match formatWord / 4096 % 16 with
  | 0x2 => 12
  | 0x9 => 20
  | 0xA => 32
  | 0xB => 92
  | _ => 8

def debugSaveRegs (m : Mem) (regbuf frame : Nat) : Mem :=
  if regbuf = 0 then m
  else
    let m := copyBytes m regbuf frame 60
    let m := copyBytes m (regbuf + 64) (frame + 60) 8
    let m := m.setU16 (regbuf + 64) (m.getU16 (regbuf + 64) % traceFlag)
    setFrameReg m regbuf 15 (frame + 60 + debugHwFrameSize (m.getU16 (frame + frameFmt)))

/-- Whether one of `n` breakpoints from `list` on is at `pc`. -/
def hitsBreakpoint (m : Mem) (list pc : Nat) : Nat → Bool
  | 0 => false
  | n + 1 => hitsBreakpoint m list pc n || m.getU32 (list + 4 * n) == pc

/-- What a trace exception does to the running child before it looks at the debugger:
the instructions not run when the child has to stop. -/
def debugCount (k : Kernel) (frame : Nat) : Option Nat × Kernel :=
  let child := k.proc
  let total := k.desc.get32 child Desc.dbgTotal + 1
  let remaining := k.desc.get32 child Desc.dbgInstr
  let list := k.desc.get32 child Desc.dbgBps
  let hit := list ≠ 0 && hitsBreakpoint k.ram list (k.ram.getU32 (frame + framePc)) (k.desc.get32 child Desc.dbgBpn)
  let h := k.desc.set32 child Desc.dbgTotal total
  if hit = false ∧ remaining = 0 then (none, { k with desc := h })
  else if hit = false ∧ remaining > 1 then (none, { k with desc := h.set32 child Desc.dbgInstr (remaining - 1) })
  else
    let sr := k.ram.getU16 (frame + frameSr)
    (some (if hit then remaining - 1 else 0),
      { k with desc := h.set32 child Desc.dbgInstr 0, ram := k.ram.setU16 (frame + frameSr) (sr % traceFlag) })

/-- The child stops and its debugger runs on. -/
def debugStop (k : Kernel) (child parent frame notRun : Nat) : Kernel :=
  let ram := debugSaveRegs k.ram (k.desc.get32 child Desc.dbgReg) frame
  let total := k.desc.get32 child Desc.dbgTotal
  let k := { k with ram := ram, desc := k.desc.set8 child Desc.state stateWaiting }
  let k := k.waitQTake parent
  let k := { k with desc := k.desc.set8 parent Desc.state stateActive }
  let parentSp := k.desc.get32 parent Desc.savedSp
  { ((k.setReg parentSp 0 total).setReg parentSp 1 notRun).setReg parentSp 2 0 with proc := parent }

/-- The trace exception in the running process, whose registers are at `frame`. -/
def procDebugTrace (k : Kernel) (frame : Nat) : Kernel :=
  let k := k.saveSp frame
  let child := k.proc
  if child = 0 ∨ k.desc.get8 child Desc.state ≠ stateActive then k
  else
    match k.debugCount frame with
    | (none, k) => k
    | (some notRun, k) =>
      let parent := k.desc.get32 child Desc.dbgPar
      if parent = 0 ∨ k.desc.get8 parent Desc.state ≠ stateWaiting then k
      else k.debugStop child parent frame notRun

end Q9OS.Kernel

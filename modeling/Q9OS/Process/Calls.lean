import Mathlib.Tactic
import Q9OS.Process.Debug
import Q9OS.Process.EventTable

/-!
# The calls of the kernel

F$Chain (`q9kernel_chain.c`), F$SetSys (`q9kernel_setsys.c`), F$AProc with its
switch and F$NProc, and one type for all that enters the kernel: the system
calls of the running process, the trace exception and the timer.
-/

namespace Q9OS

namespace Kernel

/-! ### F$Chain -/

/-- Where `q9kernel_chain.c` keeps the priority: the other files have it one byte further on. -/
def chainPriority : Nat := 0x18

/-- What a chained process held before. -/
structure OldImage where
  block : Nat
  size : Nat
  mod : Nat

/-- Parameters and start frame of the new program, the priority it starts with, and the memory. -/
def chainStack (k : Kernel) (args : ForkArgs) (image : Image) (priority : Nat) : Nat × Mem :=
  let blockTop := add32 image.block image.size
  let spBoundary := sub32 blockTop args.paramSize
  let ram := copyBytes k.ram spBoundary args.paramPtr args.paramSize
  let frame := sub32 spBoundary frameSize
  let regs := [k.procIdForDesc k.proc, 0, priority, args.numPaths, 0, args.paramSize, image.size, 0,
    0, blockTop, 0, image.hdr, 0, spBoundary, add32 image.block 0x8000]
  (frame, startFrame ram frame regs image.entryPc)

/-- The descriptor of a chained process: the new image, no intercept and no pending signal. -/
def chainDesc (h : Heap) (desc : Nat) (image : Image) (frame priority : Nat) : Heap :=
  let h := setImage h desc image.hdr image.block image.size frame image.entryPc
  let h := h.set8 desc chainPriority priority
  let h := h.set16 desc Desc.signal 0
  let h := h.set32 desc Desc.sigVec 0
  h.set32 desc Desc.sigDat 0

/-- The first part of F$Chain: the caller gets the new program. -/
def procChain (k : Kernel) (args : ForkArgs) : Except Nat OldImage × Kernel :=
  if k.proc = 0 then (.error eBpAddr, k)
  else
    let loaded := forkImage k.mods k.ram args
    let k := k.setStore loaded.2
    match loaded.1 with
    | .error code => (.error code, k)
    | .ok image =>
      let desc := k.proc
      let priority := if args.priority ≠ 0 then args.priority else k.desc.get8 desc chainPriority
      let built := k.chainStack args image priority
      let old : OldImage := ⟨k.desc.get32 desc Desc.allocBase, k.desc.get32 desc Desc.allocSize, k.desc.get32 desc Desc.modHdr⟩
      (.ok old, { k with ram := built.2, desc := chainDesc k.desc desc image built.1 priority })

def trapReleaseFrom (k : Kernel) : List Nat → Kernel
  | [] => k
  | n :: rest => trapReleaseFrom (k.tlinkRemove n) rest

/-- The second part, on the stack of the new program. -/
def chainRelease (k : Kernel) (old : OldImage) : Kernel :=
  let k := k.alarmCleanupProcess k.proc
  let k := k.trapReleaseFrom (List.range' 1 15)
  let k := if old.mod ≠ 0 then k.modUnlink old.mod else k
  if old.block ≠ 0 ∧ old.size ≠ 0 then { k with ram := Arena.freeMem k.ram old.block old.size } else k

/-- F$Chain by the running process. -/
def sysChain (k : Kernel) (args : ForkArgs) : Except Nat Unit × Kernel :=
  match k.procChain args with
  | (.error code, k) => (.error code, k)
  | (.ok old, k) => (.ok (), k.chainRelease old)

/-! ### F$AProc and F$NProc -/

/-- The switch to a process of higher priority that F$AProc has just made ready. -/
def schedCommitPreempt (k : Kernel) (target : Nat) : Kernel :=
  if target = 0 ∨ target = k.proc then k
  else
    let h := schedRemove k.desc target
    { k with desc := if k.proc ≠ 0 then schedInsert h k.proc else h, proc := target }

/-- F$AProc as a system call, the registers of the caller at `sp`. -/
def sysAProc (k : Kernel) (desc sp : Nat) : Except Nat Unit × Kernel :=
  match k.procAProc desc with
  | (.error code, k) => (.error code, k)
  | (.ok _, k) =>
    if k.proc ≠ 0 ∧ k.proc ≠ desc ∧ k.desc.get8 desc Desc.priority > k.desc.get8 k.proc Desc.priority then
      (.ok (), (k.saveSp sp).schedCommitPreempt desc)
    else (.ok (), k)

/-- F$NProc: the caller is in no queue unless it put itself there; with nobody ready the kernel halts. -/
def sysNProc (k : Kernel) (sp : Nat) : Option Kernel :=
  let picked := (k.saveSp sp).schedFirstPick
  if picked.1 = 0 then none else some picked.2

end Kernel

/-! ### F$SetSys -/

namespace SetSys

def getFlag : Nat := 0x80000000
def varMinPty : Nat := 0x55E
def varMaxAge : Nat := 0x560
def varProcSz : Nat := 0x3E2
def varTsliceHdr : Nat := 0x42E
def varCslMallocIncr : Nat := 0x7C
def varTckSec : Nat := 0x28
def varTslice : Nat := 0x76
def varTicks : Nat := 0x54
def tickCountAddr : Nat := 0x1BE0
def ePermit : Nat := 0xA4
def eUnkSvc : Nat := 0xD0

/-- Values of F$SetSys itself; 0 stands for the default. -/
structure Vars where
  mallocIncrement : Nat
  tickSeconds : Nat
  timeSlice : Nat

/-- Globals that can only be read, each under its own address but for the tick count. -/
def readonlyVars : List Nat :=
  [0x20, 0x2E, 0x38, 0x3C, 0x4C, 0x50, 0x58, 0x64, 0x68, 0x6C, 0x3A4, 0x3A8, 0x3E0]

def readReadonly (globals : Nat → Nat) (varCode : Nat) : Option Nat :=
  if varCode ∈ readonlyVars then some (globals varCode)
  else if varCode = varTicks then some (globals tickCountAddr)
  else none

def truncate (value size : Nat) : Nat :=
  if size = 1 then value % 256 else if size = 2 then value % 65536 else value % 4294967296

def orDefault (value default : Nat) : Nat := if value = 0 then default else value

/-- The current value of a variable and whether it may be changed. -/
def current (k : Kernel) (vars : Vars) (globals : Nat → Nat) (varCode : Nat) : Option (Nat × Bool) :=
  if varCode = varCslMallocIncr then some (orDefault vars.mallocIncrement 4096, true)
  else if varCode = varTckSec then some (orDefault vars.tickSeconds 100, true)
  else if varCode = varTslice ∨ varCode = varTsliceHdr then some (orDefault vars.timeSlice 2, true)
  else if varCode = varMinPty then some (k.sched.minPty, true)
  else if varCode = varMaxAge then some (k.sched.maxAge, true)
  else if varCode = varProcSz then some (Desc.size, false)
  else (readReadonly globals varCode).map (fun value => (value, false))

/-- A read leaves the default of a variable of its own behind. -/
def fetched (vars : Vars) (varCode : Nat) : Vars :=
  if varCode = varCslMallocIncr then { vars with mallocIncrement := orDefault vars.mallocIncrement 4096 }
  else if varCode = varTckSec then { vars with tickSeconds := orDefault vars.tickSeconds 100 }
  else if varCode = varTslice ∨ varCode = varTsliceHdr then { vars with timeSlice := orDefault vars.timeSlice 2 }
  else vars

def callerIsSuper (k : Kernel) : Bool := k.proc == 0 || k.desc.get32 k.proc Desc.user / 65536 == 0

/-- The variables that refuse a 0. -/
def refusesZero (varCode : Nat) : Bool :=
  varCode == varCslMallocIncr || varCode == varTckSec || varCode == varTslice || varCode == varTsliceHdr

def assign (k : Kernel) (vars : Vars) (varCode value : Nat) : Vars × Kernel :=
  if varCode = varCslMallocIncr then ({ vars with mallocIncrement := value }, k)
  else if varCode = varTckSec then ({ vars with tickSeconds := value }, k)
  else if varCode = varTslice ∨ varCode = varTsliceHdr then ({ vars with timeSlice := value }, k)
  else if varCode = varMinPty then (vars, { k with sched := { k.sched with minPty := value % 65536 } })
  else if varCode = varMaxAge then (vars, { k with sched := { k.sched with maxAge := value % 65536 } })
  else (vars, k)

/-- The size of the variable as the caller gives it. -/
def sizeOf (flags : Nat) : Nat := if flags % 65536 = 0 then 4 else flags % 65536

/-- The write part of F$SetSys. -/
def write (k : Kernel) (vars : Vars) (varCode size value old : Nat) (writable : Bool) : Except Nat Nat × Vars × Kernel :=
  if callerIsSuper k = false then (.error ePermit, vars, k)
  else if writable = false then (.error eParam, vars, k)
  else
    let value := truncate value size
    if refusesZero varCode ∧ value = 0 then (.error eUnkSvc, vars, k)
    else (.ok (truncate old size), assign k vars varCode value)

/-- F$SetSys: the value before. -/
def procSetSys (k : Kernel) (vars : Vars) (globals : Nat → Nat) (varCode flags value : Nat) : Except Nat Nat × Vars × Kernel :=
  let size := sizeOf flags
  if size ≠ 1 ∧ size ≠ 2 ∧ size ≠ 4 then (.error eParam, vars, k)
  else
    match current k vars globals varCode with
    | none => (.error eUnkSvc, vars, k)
    | some (old, writable) =>
      let vars := fetched vars varCode
      if flags / getFlag % 2 = 1 then (.ok (truncate old size), vars, k)
      else write k vars varCode size value old writable

end SetSys

/-! ### All of them -/

inductive Call where
  | fork (args : Kernel.ForkArgs)
  | chain (args : Kernel.ForkArgs)
  | exit (status : Nat)
  | wait (sp : Nat)
  | sleep (sp ticks : Nat)
  | send (pid signal : Nat)
  | icpt (vector dataPtr : Nat)
  | rte
  | sigMask (level : Nat)
  | tlink (trapNum memOverride namePtr : Nat)
  | sPrior (pid priority : Nat)
  | event (op : EventOp)
  | semaWait (sema sp : Nat)
  | semaSignal (sema : Nat)
  | alarmSet (signal ticks cycle : Nat)
  | alarmAtJul (signal julianDay seconds : Nat)
  | alarmAtDate (signal : Nat) (date time : UInt32)
  | alarmReset (id signal ticks : Nat)
  | alarmDelete (id : Nat)
  | allPrc
  | delPrc (pid : Nat)
  | aProc (desc sp : Nat)
  | nProc (sp : Nat)
  | dFork (args : Kernel.ForkArgs) (registerBuffer : Nat)
  | dExec (childPid count bpCount bpList sp : Nat)
  | dExit (childPid : Nat)
  | trace (frame : Nat)
  | tick (dev : Devices) (sp mask : Nat)
  /-- What programs do to memory between calls. -/
  | program (ram : Mem)

/-- One entry into the kernel, nothing when the kernel halts. -/
def Kernel.call (k : Kernel) : Call → Option Kernel
  | .fork args => some (k.procFork args).2
  | .chain args => some (k.sysChain args).2
  | .exit status => (k.sysExit status).alive
  | .wait sp => (k.sysWait sp).2.alive
  | .sleep sp ticks => (k.sysSleep sp ticks).alive
  | .send pid signal => some (k.procSend pid signal).2
  | .icpt vector dataPtr => some (k.procIcpt vector dataPtr)
  | .rte => some (k.icptReturn k.proc).2
  | .sigMask level => some (k.procSigMask level).2
  | .tlink trapNum memOverride namePtr => some (k.procTLink trapNum memOverride namePtr).2
  | .sPrior pid priority => some (k.procSPrior pid priority).2
  | .event op => k.eventCall op
  | .semaWait sema sp => (k.sysSemaWait sema sp).2.alive
  | .semaSignal sema => some (k.sysSemaSignal sema).2
  | .alarmSet signal ticks cycle => some (k.alarmSet signal ticks cycle).2
  | .alarmAtJul signal julianDay seconds => some (k.alarmSetAbsolute signal julianDay seconds).2
  | .alarmAtDate signal date time => some (k.alarmAtDate signal date time).2
  | .alarmReset id signal ticks => some (k.alarmReset id signal ticks).2
  | .alarmDelete id => some (k.alarmDelete id).2
  | .allPrc => some k.procAllPrc.2
  | .delPrc pid => some (k.procDelPrc pid).2
  | .aProc desc sp => some (k.sysAProc desc sp).2
  | .nProc sp => k.sysNProc sp
  | .dFork args registerBuffer => some (k.procDebugFork args registerBuffer).2
  | .dExec childPid count bpCount bpList sp => some (k.sysDebugExec childPid count bpCount bpList sp).2
  | .dExit childPid => some (k.procDebugExit childPid).2
  | .trace frame => some (k.procDebugTrace frame)
  | .tick dev sp mask => some (k.timerTick dev sp mask)
  | .program ram => some { k with ram := ram }

end Q9OS

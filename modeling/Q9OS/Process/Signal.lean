import Mathlib.Tactic
import Q9OS.Process.Sched

/-!
# Signals and intercepts

`q9kernel_icpt.c` and `q9kernel_procsleep.c`. A delivered signal pushes a
second frame below the saved frame of the receiver and moves P$SavedSP to it;
F$RTE moves it back.
-/

namespace Q9OS

/-! ### Saved frames -/

def frameSize : Nat := 68
def frameSr : Nat := 60
def framePc : Nat := 62
def frameFmt : Nat := 66
def frameRegD1 : Nat := 1
def frameRegA6 : Nat := 14
def initialSr : Nat := 0x2000

def signalWake : Nat := 1
def signalKill : Nat := 0

def setFrameReg (m : Mem) (frame reg value : Nat) : Mem := m.setU32 (frame + reg * 4) value

def getFrameReg (m : Mem) (frame reg : Nat) : Nat := m.getU32 (frame + reg * 4)

/-- The first `n` registers of one frame, one after the other, into another. -/
def copyRegs (m : Mem) (target source : Nat) : Nat → Mem
  | 0 => m
  | n + 1 =>
    let m := copyRegs m target source n
    setFrameReg m target n (getFrameReg m source n)

/-- The frame an intercept routine starts from: the registers of the interrupted
program but for d1 and a6. -/
def pushFrame (m : Mem) (newFrame oldFrame signal sigDat vector : Nat) : Mem :=
  let m := copyRegs m newFrame oldFrame 15
  let m := setFrameReg m newFrame frameRegD1 signal
  let m := setFrameReg m newFrame frameRegA6 sigDat
  let m := m.setU16 (newFrame + frameSr) initialSr
  let m := m.setU32 (newFrame + framePc) vector
  m.setU16 (newFrame + frameFmt) 0

namespace Kernel

/-- Whether a process has an intercept routine and a saved frame to push it below. -/
def icptReady (k : Kernel) (desc : Nat) : Bool :=
  desc ≠ 0 && k.desc.get32 desc Desc.sigVec ≠ 0 && k.desc.get32 desc Desc.savedSp ≠ 0

def icptDeliver (k : Kernel) (desc signal : Nat) : Kernel :=
  if k.icptReady desc then
    let oldFrame := k.desc.get32 desc Desc.savedSp
    let newFrame := sub32 oldFrame frameSize
    let ram := pushFrame k.ram newFrame oldFrame signal (k.desc.get32 desc Desc.sigDat)
      (k.desc.get32 desc Desc.sigVec)
    let h := k.desc.set32 desc Desc.savedSp newFrame
    let h := h.set32 desc Desc.icptDepth (h.get32 desc Desc.icptDepth + 1)
    let h := h.set16 desc Desc.signal 0
    { k with ram := ram, desc := h, marks := .delivered desc signal :: k.marks }
  else k

/-- Takes the topmost intercept frame off, without looking for another signal. -/
def icptPop (k : Kernel) (desc : Nat) : Except Nat Unit × Kernel :=
  if desc = 0 then (.error eBpAddr, k)
  else
    let depth := k.desc.get32 desc Desc.icptDepth
    if depth = 0 then (.error eBpAddr, k)
    else
      let frame := k.desc.get32 desc Desc.savedSp + frameSize
      let h := k.desc.set32 desc Desc.savedSp frame
      let h := h.set32 desc Desc.icptDepth (depth - 1)
      (.ok (), { k with desc := h, marks := .returned desc :: k.marks })

/-- F$RTE: after the pop a signal that came in meanwhile starts the routine again. -/
def icptReturn (k : Kernel) (desc : Nat) : Except Nat Unit × Kernel :=
  match k.icptPop desc with
  | (.error e, k) => (.error e, k)
  | (.ok _, k) =>
    let pending := k.desc.get16 desc Desc.signal
    (.ok (), if pending ≠ 0 then k.icptDeliver desc pending else k)

/-- The part of F$Send that may push an intercept frame. -/
def sendDeliver (k : Kernel) (desc signal : Nat) : Kernel :=
  if signal ≠ signalWake ∧ desc ≠ k.proc then k.icptDeliver desc signal else k

/-- A masked signal only stays pending, S$Kill and S$Wake are never masked. -/
def sendMasked (k : Kernel) (desc signal : Nat) : Bool :=
  signal ≠ signalKill && signal ≠ signalWake && k.desc.get8 desc Desc.sigLvl ≠ 0

/-- The signal becomes the pending one; S$Wake is never pending. -/
def sendStore (k : Kernel) (desc signal : Nat) : Kernel :=
  if signal ≠ signalWake then { k with desc := k.desc.set16 desc Desc.signal signal } else k

def wake (k : Kernel) (desc : Nat) : Kernel := { k with desc := schedWake k.desc desc }

/-- F$Send to a descriptor. -/
def sendTo (k : Kernel) (desc signal : Nat) : Kernel :=
  let k := k.sendStore desc signal
  if k.sendMasked desc signal then k else (k.sendDeliver desc signal).wake desc

/-- F$Send. -/
def procSend (k : Kernel) (pid signal : Nat) : Except Nat Unit × Kernel :=
  let desc := k.procLookup pid
  if desc = 0 then (.error ePrcId, k) else (.ok (), k.sendTo desc signal)

/-- The counter F$SigMask leaves behind. -/
def maskLevel (level lvl : Nat) : Nat :=
  if level = 0 then 0
  else if level = 0xFFFFFFFF then lvl - 1
  else if lvl < 255 then lvl + 1 else lvl

/-- F$SigMask by the running process. -/
def procSigMask (k : Kernel) (level : Nat) : Except Nat Unit × Kernel :=
  let desc := k.proc
  if desc = 0 then (.error ePrcId, k)
  else
    let lvl := maskLevel level (k.desc.get8 desc Desc.sigLvl)
    let h := k.desc.set8 desc Desc.sigLvl lvl
    (.ok (), { k with
      desc := if lvl = 0 ∧ h.get16 desc Desc.signal ≠ 0 then schedWake h desc else h })

/-- F$Icpt by the running process. -/
def procIcpt (k : Kernel) (vector dataPtr : Nat) : Kernel :=
  if k.proc = 0 then k
  else { k with desc := (k.desc.set32 k.proc Desc.sigVec vector).set32 k.proc Desc.sigDat dataPtr }

def sleepTicksOf (ticksIn : Nat) : Nat :=
  if ticksIn ≥ 0x80000000 then (ticksIn - 0x80000000) * 25 % 4294967296 / 64 else ticksIn

/-- Where F$Sleep leaves its caller. -/
def sleepPark (h : Heap) (desc ticks : Nat) : Heap :=
  if ticks = 0 then
    let h := h.set8 desc Desc.state stateSleeping
    let h := h.set32 desc Desc.sleepTicks sleepInfinite
    sleepQInsert h desc
  else if ticks = 1 then schedInsert h desc
  else
    let h := h.set8 desc Desc.state stateSleeping
    let h := h.set32 desc Desc.sleepTicks (ticks - 1)
    sleepQInsert h desc

/-- F$Sleep: the mask opens, a pending signal is delivered instead of sleeping. -/
def procSleep (k : Kernel) (desc ticksIn : Nat) : Nat × Kernel :=
  let ram := setFrameReg k.ram (k.desc.get32 desc Desc.savedSp) 0 0
  let h := k.desc.set8 desc Desc.sigLvl 0
  let pending := h.get16 desc Desc.signal
  if pending ≠ 0 then
    let k := { k with ram := ram, desc := schedInsert h desc }
    (k.icptDeliver desc pending).schedFirstPick
  else
    let k := { k with ram := ram, desc := sleepPark h desc (sleepTicksOf ticksIn) }
    k.schedFirstPick

/-- F$Sleep as a system call, the registers of the caller at `sp`. -/
def sysSleep (k : Kernel) (sp ticks : Nat) : Kernel := switchTo ((k.saveSp sp).procSleep k.proc ticks)

end Kernel

end Q9OS

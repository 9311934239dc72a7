import Mathlib.Tactic
import Q9OS.Lib.Heap
import Q9OS.Date.Clock
import Q9OS.Module.Directory

/-!
# Kernel state

The global cells of the kernel, its process descriptors and tables, and the
memory of the processes. A descriptor is a block of bytes: the files of the
kernel give its layout by offset constants of their own, and fields that share
bytes there share them here.
-/

namespace Q9OS

/-! ### Layout of a process descriptor -/

namespace Desc

def size : Nat := 0x400

/-- P$ID of a process; the link of the free list while the slot is free. -/
def id : Nat := 0x00
def savedSp : Nat := 0x08
def user : Nat := 0x14
def priority : Nat := 0x19
def age : Nat := 0x1A
def state : Nat := 0x1D
def signal : Nat := 0x26
def sigVec : Nat := 0x28
def sigDat : Nat := 0x2C
def next : Nat := 0x30
def prev : Nat := 0x34
def modHdr : Nat := 0x38
def except : Nat := 0x3C
def exStk : Nat := 0x64
def dio : Nat := 0x148
def dioSize : Nat := 32
def path : Nat := 0x168
def pathCount : Nat := 32
def allocBase : Nat := 0x1B0
def allocSize : Nat := 0x1B4
def parent : Nat := 0x1B8
def exitStatus : Nat := 0x1C0
def sleepTicks : Nat := 0x1C4
def entryPc : Nat := 0x1C8
def trapTbl : Nat := 0x1CC
def icptDepth : Nat := 0x1CC
def evMin : Nat := 0x1D0
def evMax : Nat := 0x1D4
def sigLvl : Nat := 0x210
def trapSize : Nat := 0x280
def dbgReg : Nat := 0x2C0
def dbgPar : Nat := 0x2C4
def dbgInstr : Nat := 0x2C8
def dbgTotal : Nat := 0x2CC
def dbgBps : Nat := 0x2D0
def dbgBpn : Nat := 0x2D4

def trapModPtr : Nat := 0
def trapExecEntry : Nat := 4
def trapStaticPtr : Nat := 8

/-- Entry of the trap table for trap numbers 1 to 15. -/
def trapSlot (trapNum : Nat) : Nat := trapTbl + (trapNum - 1) * 12

def trapSizeSlot (trapNum : Nat) : Nat := trapSize + (trapNum - 1) * 4

end Desc

/-! ### State letters -/

def stateActive : Nat := 0x61
def stateWaiting : Nat := 0x77
def stateSleeping : Nat := 0x73
def stateSema : Nat := 0x70
def stateZombie : Nat := 0x7A
def stateIdle : Nat := 0x69

/-! ### Queue sentinels -/

def readyQ : Nat := 0x1240
def waitQ : Nat := 0x12A0
def sleepQ : Nat := 0x12F0

/-! ### Error codes -/

def eModBsy : Nat := 0xD1
def eBpAddr : Nat := 0xD2
def ePrcId : Nat := 0xE0
def eParam : Nat := 0xE1
def eNoChld : Nat := 0xE2
def ePrcAbt : Nat := 0xE4
def ePrcFul : Nat := 0xE5
def eEvntId : Nat := 0xBD
def eEvNF : Nat := 0xBE
def eEvBusy : Nat := 0xBF
def eBNam : Nat := 0xEB
def eEvFull : Nat := 0xF8

/-! ### State -/

structure Sched where
  slice : Nat
  minPty : Nat
  maxAge : Nat
  /-- Set while the interrupted code is itself an interrupt handler. -/
  noSwitch : Nat

structure PathPool where
  base : Nat
  free : Nat
  descs : Heap
  mgrRef : Nat → Nat

structure Alarm where
  id : Nat
  pid : Nat
  signal : Nat
  ticks : Nat
  day : Nat
  sec : Nat
  cycle : Nat
  deriving DecidableEq, Inhabited

structure AlarmTable where
  slots : Nat → Alarm
  nextId : Nat
  conPid : Nat
  conSignal : Nat

/-- An entry of the event table. -/
structure EventSlot where
  id : Nat
  name : List Nat
  value : Nat
  incW : Nat
  incS : Nat
  link : Nat
  qNext : Nat
  qPrev : Nat
  deriving DecidableEq

/-- What intercept delivery and return leave in the history of a run. No function reads it. -/
inductive Mark where
  | delivered (desc signal : Nat)
  | returned (desc : Nat)
  deriving DecidableEq

structure Kernel where
  proc : Nat
  idleProc : Nat
  poolBase : Nat
  poolCount : Nat
  poolFree : Nat
  sched : Sched
  /-- Process descriptors and queue sentinels. -/
  desc : Heap
  /-- The arena with its owner table, module images, stacks and data of processes. -/
  ram : Mem
  mods : ModDir
  paths : PathPool
  alarms : AlarmTable
  events : Nat → EventSlot
  eventNextId : Nat
  clock : Clock
  marks : List Mark

/-- Zeroed memory and empty tables around a pool of `count` descriptors at `base`. -/
def Kernel.zeroed (base count : Nat) : Kernel where
  proc := 0
  idleProc := 0
  poolBase := base
  poolCount := count
  poolFree := 0
  sched := ⟨0, 0, 0, 0⟩
  desc := fun _ _ => 0
  ram := fun _ => 0
  mods := ⟨0, 0, fun _ _ => 0⟩
  paths := ⟨0, 0, fun _ _ => 0, fun _ => 0⟩
  alarms := ⟨fun _ => ⟨0, 0, 0, 0, 0, 0, 0⟩, 0, 0, 0⟩
  events := fun _ => ⟨0, [], 0, 0, 0, 0, 0, 0⟩
  eventNextId := 0
  clock := ⟨false, 0, 0, 0⟩
  marks := []

end Q9OS

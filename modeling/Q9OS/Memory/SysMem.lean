import Mathlib.Tactic
import Q9OS.Memory.Arena

/-!
# Memory requests of processes

`q9kernel_sysmem.c`: F$SRqMem and F$SRtMem on top of the arena, with a fixed
table of 32 owner entries that lets process end return what a process still
holds.
-/

namespace Q9OS.SysMem

open Arena

def dProc : Nat := 0x4C
def memOwnerSlots : Nat := 32
def memOwnerBase : Nat := 0x1710
def memOwnerStride : Nat := 12
def memOwnerMagic : Nat := memOwnerBase + memOwnerSlots * memOwnerStride
def magicWord : Nat := 0x514D454D
def eMemful : Nat := 0xCF
def eNoram : Nat := 0xED

def memOwnerOwner (i : Nat) : Nat := memOwnerBase + i * memOwnerStride
def memOwnerAddr (i : Nat) : Nat := memOwnerOwner i + 4
def memOwnerSize (i : Nat) : Nat := memOwnerOwner i + 8

/-- One entry of the owner table. -/
structure Entry where
  owner : Nat
  addr : Nat
  size : Nat
  deriving DecidableEq, Repr

def slot (m : Mem) (i : Nat) : Entry :=
  ⟨m.getU32 (memOwnerOwner i), m.getU32 (memOwnerAddr i), m.getU32 (memOwnerSize i)⟩

def setSlot (m : Mem) (i : Nat) (entry : Entry) : Mem :=
  ((m.setU32 (memOwnerOwner i) entry.owner).setU32 (memOwnerAddr i) entry.addr).setU32
    (memOwnerSize i) entry.size

def clearSlots (m : Mem) : List Nat → Mem
  | [] => m
  | i :: rest => clearSlots (setSlot m i ⟨0, 0, 0⟩) rest

def procMemTrackInit (m : Mem) : Mem :=
  (clearSlots m (List.range memOwnerSlots)).setU32 memOwnerMagic magicWord

def procMemTrackEnsure (m : Mem) : Mem :=
  if m.getU32 memOwnerMagic ≠ magicWord then procMemTrackInit m else m

/-- The loop of `procMemTrackAdd` over the table: a full table drops the entry. -/
def addToSlots (m : Mem) (entry : Entry) : List Nat → Mem
  | [] => m
  | i :: rest => if m.getU32 (memOwnerOwner i) = 0 then setSlot m i entry else addToSlots m entry rest

def procMemTrackAdd (m : Mem) (owner addr size : Nat) : Mem :=
  if owner = 0 ∨ addr = 0 ∨ size = 0 then m
  else addToSlots m ⟨owner, addr, size⟩ (List.range memOwnerSlots)

def removeFromSlots (m : Mem) (addr size : Nat) : List Nat → Mem
  | [] => m
  | i :: rest =>
    if m.getU32 (memOwnerAddr i) = addr ∧ m.getU32 (memOwnerSize i) = size then setSlot m i ⟨0, 0, 0⟩
    else removeFromSlots m addr size rest

def procMemTrackRemove (m : Mem) (addr size : Nat) : Mem :=
  removeFromSlots m addr size (List.range memOwnerSlots)

def releaseSlots (m : Mem) (owner : Nat) : List Nat → Mem
  | [] => m
  | i :: rest =>
    if m.getU32 (memOwnerOwner i) ≠ owner then releaseSlots m owner rest
    else
      let addr := m.getU32 (memOwnerAddr i)
      let size := m.getU32 (memOwnerSize i)
      let m := setSlot m i ⟨0, 0, 0⟩
      let m := if addr ≠ 0 ∧ size ≠ 0 then freeMem m addr size else m
      releaseSlots m owner rest

/-- Process end: everything the table still lists for `owner` goes back. -/
def procMemReleaseAll (m : Mem) (owner : Nat) : Mem :=
  if owner = 0 then m
  else releaseSlots (procMemTrackEnsure m) owner (List.range memOwnerSlots)

/-- F$SRqMem: address and size granted to the running process, or the error code. -/
def procSRqMem (m : Mem) (requestedSize : Nat) : Except Nat (Nat × Nat) × Mem :=
  let m := procMemTrackEnsure m
  if requestedSize = 0xFFFFFFFF then
    let (addr, size, m) := allocLargest m
    if addr = 0 then (.error eNoram, m)
    else (.ok (addr, size), procMemTrackAdd m (m.getU32 dProc) addr size)
  else
    let size := roundUp16 requestedSize
    let (addr, m) := allocMem m requestedSize
    if addr = 0 then (.error eMemful, m)
    else (.ok (addr, size), procMemTrackAdd m (m.getU32 dProc) addr size)

/-- F$SRtMem. -/
def procSRtMem (m : Mem) (addr size : Nat) : Mem :=
  let roundedSize := roundUp16 size
  if addr = 0 ∧ size = 0 then procMemReleaseAll m (m.getU32 dProc)
  else freeMem (procMemTrackRemove m addr roundedSize) addr roundedSize

/-! ### Runs -/

/-- A block a process holds: who, where, how large, and the size it asked for. -/
structure Loan where
  owner : Nat
  addr : Nat
  size : Nat
  requested : Nat
  deriving DecidableEq, Repr

structure State where
  mem : Mem
  loans : List Loan

inductive Event where
  /-- The scheduler makes `proc` the running process. -/
  | switch (proc : Nat)
  | request (requested : Nat)
  | giveBack (loan : Loan) (size : Nat)
  | write (addr : Nat) (value : UInt8)
  /-- Process end. -/
  | finish (proc : Nat)

def Loan.holds (loan : Loan) (addr : Nat) : Bool :=
  loan.addr ≤ addr && addr < loan.addr + loan.size

def step (s : State) : Event → Option State
  | .switch proc =>
    if 0 < proc ∧ proc < 4294967296 then some { s with mem := s.mem.setU32 dProc proc } else none
  | .request requested =>
    if requested < 4294967296 ∧ s.mem.getU32 dProc ≠ 0 then
      match procSRqMem s.mem requested with
      | (.error _, mem) => some { s with mem := mem }
      | (.ok (addr, size), mem) =>
        if size = 0 then some { s with mem := mem }
        else some ⟨mem, ⟨s.mem.getU32 dProc, addr, size, requested⟩ :: s.loans⟩
    else none
  | .giveBack loan size =>
    if loan ∈ s.loans ∧ loan.owner = s.mem.getU32 dProc ∧ (size = loan.size ∨ size = loan.requested) then
      some ⟨procSRtMem s.mem loan.addr size, s.loans.erase loan⟩
    else none
  | .write addr value =>
    if s.loans.any (·.holds addr) then some { s with mem := s.mem.setU8 addr value.toNat } else none
  | .finish proc =>
    if 0 < proc ∧ proc < 4294967296 then
      some ⟨procMemReleaseAll s.mem proc, s.loans.filter (·.owner ≠ proc)⟩
    else none

end Q9OS.SysMem

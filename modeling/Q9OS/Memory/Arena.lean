import Mathlib.Tactic
import Q9OS.Lib.Mem

/-!
# The memory arena

`q9kernel_arena.c`: a first-fit free list threaded through the free blocks
themselves. A free block holds its successor at offset 0 and its size at
offset 4; 0 ends the list.
-/

namespace Q9OS.Arena

def arenaHead : Nat := 0x404
def arenaTail : Nat := 0x408
def allocGranularity : Nat := 16
def minSplitRemainder : Nat := 16

/-- Longer walks than there are addresses are cycles. -/
def walkLimit : Nat := 4294967296

def roundUp16 (n : Nat) : Nat := (n + (allocGranularity - 1)) % 4294967296 / 16 * 16

def arenaInit (m : Mem) (freeBase freeSize : Nat) : Mem :=
  if freeSize < minSplitRemainder then m
  else
    let m := m.setU32 freeBase 0
    let m := m.setU32 (freeBase + 4) freeSize
    let m := m.setU32 arenaHead freeBase
    m.setU32 arenaTail freeBase

/-- The link that names the node behind `prev`: the list head when there is none. -/
def setLink (m : Mem) (prev addr : Nat) : Mem :=
  if prev = 0 then m.setU32 arenaHead addr else m.setU32 prev addr

/-- Takes `needed` bytes from the free node `cur`, splitting it when the rest is
large enough to stay on the list. -/
def takeBlock (m : Mem) (needed prev cur : Nat) : Mem :=
  let curSize := m.getU32 (cur + 4)
  let curNext := m.getU32 cur
  let remainder := curSize - needed
  if remainder ≥ minSplitRemainder then
    let newFree := (cur + needed) % 4294967296
    let m := m.setU32 newFree curNext
    let m := m.setU32 (newFree + 4) remainder
    let m := setLink m prev newFree
    if curNext = 0 then m.setU32 arenaTail newFree else m
  else
    let m := setLink m prev curNext
    if curNext = 0 then m.setU32 arenaTail prev else m

def allocWalk (m : Mem) (needed : Nat) : Nat → Nat → Nat → Nat × Mem
  | 0, _, _ => (0, m)
  | fuel + 1, prev, cur =>
    if cur = 0 then (0, m)
    else if m.getU32 (cur + 4) ≥ needed then (cur, takeBlock m needed prev cur)
    else allocWalk m needed fuel cur (m.getU32 cur)

/-- First fit; address 0 when no free block is large enough. -/
def allocMem (m : Mem) (requestedSize : Nat) : Nat × Mem :=
  allocWalk m (roundUp16 requestedSize) walkLimit 0 (m.getU32 arenaHead)

structure Best where
  addr : Nat := 0
  size : Nat := 0
  prev : Nat := 0
  next : Nat := 0

def largestWalk (m : Mem) : Nat → Nat → Nat → Best → Best
  | 0, _, _, best => best
  | fuel + 1, prev, cur, best =>
    if cur = 0 then best
    else
      let curSize := m.getU32 (cur + 4)
      let curNext := m.getU32 cur
      let best := if curSize > best.size then ⟨cur, curSize, prev, curNext⟩ else best
      largestWalk m fuel cur curNext best

/-- The largest free block as a whole: its address, its size and the memory after. -/
def allocLargest (m : Mem) : Nat × Nat × Mem :=
  let best := largestWalk m walkLimit 0 (m.getU32 arenaHead) {}
  if best.addr = 0 then (best.addr, best.size, m)
  else
    let m := setLink m best.prev best.next
    let m := if best.next = 0 then m.setU32 arenaTail best.prev else m
    (best.addr, best.size, m)

def freeMem (m : Mem) (addr size : Nat) : Mem :=
  let size := roundUp16 size
  if size < minSplitRemainder then m
  else
    let oldHead := m.getU32 arenaHead
    let m := m.setU32 addr oldHead
    let m := m.setU32 (addr + 4) size
    let m := m.setU32 arenaHead addr
    if oldHead = 0 then m.setU32 arenaTail addr else m

/-! ### Runs -/

/-- A block handed out, with the size its owner asked for. -/
structure Grant where
  addr : Nat
  requested : Nat
  deriving DecidableEq, Repr

structure State where
  mem : Mem
  grants : List Grant

/-- What owners of memory do: request, return, and write inside what they hold. -/
inductive Event where
  | alloc (requested : Nat)
  | largest
  | free (grant : Grant)
  | write (addr : Nat) (value : UInt8)

def Grant.holds (grant : Grant) (addr : Nat) : Bool :=
  grant.addr ≤ addr && addr < grant.addr + roundUp16 grant.requested

def step (s : State) : Event → Option State
  | .alloc requested =>
    if 1 ≤ requested ∧ requested ≤ 4294967280 then
      let (addr, mem) := allocMem s.mem requested
      some ⟨mem, if addr = 0 then s.grants else ⟨addr, requested⟩ :: s.grants⟩
    else none
  | .largest =>
    let (addr, size, mem) := allocLargest s.mem
    some ⟨mem, if addr = 0 then s.grants else ⟨addr, size⟩ :: s.grants⟩
  | .free grant =>
    if grant ∈ s.grants then some ⟨freeMem s.mem grant.addr grant.requested, s.grants.erase grant⟩
    else none
  | .write addr value =>
    if s.grants.any (·.holds addr) then some { s with mem := s.mem.setU8 addr value.toNat } else none

end Q9OS.Arena

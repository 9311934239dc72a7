import Mathlib.Tactic
import Q9OS.Lib.Heap
import Q9OS.Memory.SysMem
import Q9OS.Module.Crc

/-!
# Module directory

`q9kernel_moddir.c` with the header checks of `q9kernel_modcheck.c`.
-/

namespace Q9OS

/-! ### Module header -/

namespace Mh

def size : Nat := 0x04
def name : Nat := 0x0C
def tyLang : Nat := 0x12
def revision : Nat := 0x15
def parity : Nat := 0x2E
def exec : Nat := 0x30
def mem : Nat := 0x38
def stack : Nat := 0x3C
def iData : Nat := 0x40
def iRefs : Nat := 0x44
def init : Nat := 0x48

end Mh

def eBmid : Nat := 0xCD
def eMnf : Nat := 0xDD
def eBmhp : Nat := 0xEC
def eBmcrc : Nat := 0xE8

/-! ### Module directory -/

/-- Directory and free list share the link field of their entries. -/
structure ModDir where
  head : Nat
  free : Nat
  entries : Heap

namespace ModDir

def next : Nat := 0x00
def hdrPtr : Nat := 0x04
def tyLang : Nat := 0x08
def attRev : Nat := 0x0A
def linkCnt : Nat := 0x0C
def flags : Nat := 0x0E
def searchMax : Nat := 256

def isNameChar (c : Nat) : Bool :=
  (0x30 ≤ c && c ≤ 0x39) || (0x41 ≤ c && c ≤ 0x5A) || (0x61 ≤ c && c ≤ 0x7A) || c == 0x5F || c == 0x2E ||
    c == 0x24

def lower (c : Nat) : Nat := if 0x41 ≤ c ∧ c ≤ 0x5A then c + 0x20 else c

/-- Compares the module name at `a`, at most `n` bytes of it, with the name at `t`. -/
def namesMatch (m : Mem) : Nat → Nat → Nat → Bool
  | 0, _, _ => false
  | n + 1, a, t =>
    let c := m.getU8 a
    let d := m.getU8 t
    if c = 0 then !isNameChar d
    else if lower (c % 128) ≠ lower (d % 128) then false
    else if c ≥ 128 then
      let after := m.getU8 (t + 1)
      after == 0 || !isNameChar (after % 128)
    else namesMatch m n (a + 1) (t + 1)

/-- Type and language filter, 0 stands for any. -/
def tyLangFits (desired present : Nat) : Bool :=
  (desired / 256 % 256 == 0 || desired / 256 % 256 == present / 256 % 256) &&
    (desired % 256 == 0 || desired % 256 == present % 256)

def slotMatches (d : ModDir) (m : Mem) (desired name slot : Nat) : Bool :=
  let hdr := d.entries.get32 slot hdrPtr
  let nameOffset := m.getU32 (hdr + Mh.name)
  let moduleSize := m.getU32 (hdr + Mh.size)
  tyLangFits desired (d.entries.get16 slot tyLang) &&
    (nameOffset < moduleSize && namesMatch m (moduleSize - nameOffset) (hdr + nameOffset) name)

def findWalk (d : ModDir) (m : Mem) (desired name : Nat) : Nat → Nat → Nat → Nat → Nat
  | 0, slot, best, _ => if slot = 0 then best else 0
  | fuel + 1, slot, best, bestRevision =>
    if slot = 0 then best
    else
      let revision := m.getU8 (d.entries.get32 slot hdrPtr + Mh.revision)
      let after := d.entries.get32 slot next
      if d.slotMatches m desired name slot && (best == 0 || revision > bestRevision) then
        findWalk d m desired name fuel after slot revision
      else findWalk d m desired name fuel after best bestRevision

/-- The matching entry of the highest revision, 0 when there is none. -/
def findSlotByName (d : ModDir) (m : Mem) (desired name : Nat) : Nat :=
  findWalk d m desired name searchMax d.head 0 0

/-- Links the module: its header, 0 when it is not found. -/
def linkByName (d : ModDir) (m : Mem) (desired name : Nat) : Nat × ModDir :=
  let best := d.findSlotByName m desired name
  if best = 0 then (0, d)
  else
    (d.entries.get32 best hdrPtr,
      { d with entries := d.entries.set16 best linkCnt (d.entries.get16 best linkCnt + 1) })

def poolFree (d : ModDir) (slot : Nat) : ModDir :=
  { d with entries := d.entries.set32 slot next d.free, free := slot }

/-- Drops one link of the entry `slot`, which stands behind `prev`. -/
def unlinkSlot (d : ModDir) (prev slot : Nat) : ModDir :=
  let cnt := d.entries.get16 slot linkCnt - 1
  let d := { d with entries := d.entries.set16 slot linkCnt cnt }
  if cnt = 0 ∧ d.entries.get16 slot flags % 2 = 0 then
    let after := d.entries.get32 slot next
    let d := if prev = 0 then { d with head := after } else { d with entries := d.entries.set32 prev next after }
    d.poolFree slot
  else d

def unlinkWalk (d : ModDir) (hdr : Nat) : Nat → Nat → Nat → ModDir
  | 0, _, _ => d
  | fuel + 1, prev, slot =>
    if slot = 0 then d
    else if d.entries.get32 slot hdrPtr = hdr then d.unlinkSlot prev slot
    else unlinkWalk d hdr fuel slot (d.entries.get32 slot next)

def unlinkByHeader (d : ModDir) (hdr : Nat) : ModDir := unlinkWalk d hdr queueLimit 0 d.head

def poolAlloc (d : ModDir) : Nat × ModDir :=
  if d.free = 0 then (0, d) else (d.free, { d with free := d.entries.get32 d.free next })

def listPush (d : ModDir) (slot : Nat) : ModDir :=
  { d with entries := d.entries.set32 slot next d.head, head := slot }

/-- The fields of a new entry, taken from the header. -/
def fillEntry (h : Heap) (m : Mem) (slot hdr : Nat) : Heap :=
  let h := h.set32 slot hdrPtr hdr
  let h := h.set16 slot tyLang (m.getU16 (hdr + Mh.tyLang))
  let h := h.set16 slot attRev (m.getU16 (hdr + Mh.tyLang + 2))
  let h := h.set16 slot linkCnt 0
  h.set16 slot flags 0

/-- A new entry, 0 when the pool is empty. -/
def add (d : ModDir) (m : Mem) (hdr : Nat) : Nat × ModDir :=
  let (slot, d) := d.poolAlloc
  if slot = 0 then (0, d)
  else (slot, { d with entries := fillEntry d.entries m slot hdr }.listPush slot)

def markPermanent (d : ModDir) (slot : Nat) : ModDir :=
  { d with entries := d.entries.set16 slot flags (d.entries.get16 slot flags ||| 1) }

/-- A module of the boot list. -/
def addBoot (d : ModDir) (m : Mem) (hdr : Nat) : ModDir :=
  let (slot, d) := d.add m hdr
  if slot = 0 then d else d.markPermanent slot

def headerListed (d : ModDir) (hdr : Nat) : Nat → Nat → Bool
  | 0, _ => false
  | fuel + 1, slot =>
    if slot = 0 then false
    else if d.entries.get32 slot hdrPtr = hdr then true
    else headerListed d hdr fuel (d.entries.get32 slot next)

/-- F$UnLoad: searches like F$Link, counts down like F$UnLink. -/
def unloadByName (d : ModDir) (m : Mem) (desired name : Nat) : Except Nat Unit × ModDir :=
  if name = 0 then (.error eMnf, d)
  else
    let slot := d.findSlotByName m desired name
    if slot = 0 then (.error eMnf, d)
    else
      let hdr := d.entries.get32 slot hdrPtr
      if d.headerListed hdr queueLimit d.head then (.ok (), d.unlinkByHeader hdr)
      else (.error eMnf, d)

end ModDir

/-! ### Header checks -/

def checkSyncWord (m : Mem) (addr availableLen : Nat) : Bool :=
  addr ≠ 0 && availableLen ≥ 2 && m.getU16 addr == 0x4AFC

/-- The exclusive or of the first `n` words. -/
def headerXor (m : Mem) (addr : Nat) : Nat → Nat
  | 0 => 0
  | n + 1 => headerXor m addr n ^^^ m.getU16 (addr + 2 * n)

def validModuleHeader (m : Mem) (addr availableLen : Nat) : Bool :=
  availableLen ≥ 0x30 && checkSyncWord m addr availableLen && headerXor m addr 24 == 0xFFFF

/-- What F$VModul leaves in its return buffer. -/
structure VModul where
  hdr : Nat
  linkCnt : Nat
  tyLang : Nat

/-- F$VModul. -/
def ModDir.validateAndAdd (d : ModDir) (m : Mem) (hdr size : Nat) : Except Nat VModul × ModDir :=
  if hdr = 0 ∨ size < 0x30 then (.error eBmid, d)
  else if ¬ checkSyncWord m hdr size then (.error eBmid, d)
  else if ¬ validModuleHeader m hdr size then (.error eBmhp, d)
  else
    let realSize := m.getU32 (hdr + Mh.size)
    if realSize < 0x30 ∨ realSize > size then (.error eBmcrc, d)
    else if vmodulCrc 0xFFFFFF (m.bytes hdr realSize) ≠ 0x800FE3 then (.error eBmcrc, d)
    else
      let (slot, d) := d.add m hdr
      if slot = 0 then (.error SysMem.eMemful, d)
      else (.ok ⟨hdr, 0, m.getU16 (hdr + Mh.tyLang)⟩, d)

/-- The three bytes F$SetCRC stores at `addr`. -/
def storeCrc (m : Mem) (addr : Nat) (crc : UInt32) : Mem :=
  let m := m.setU8 addr (((crc >>> 16) &&& 0xFF) ^^^ 0xFF).toNat
  let m := m.setU8 (addr + 1) (((crc >>> 8) &&& 0xFF) ^^^ 0xFF).toNat
  m.setU8 (addr + 2) ((crc &&& 0xFF) ^^^ 0xFF).toNat

/-- F$SetCRC: first the header parity, then the CRC that covers it. -/
def modSetCRC (m : Mem) (modAddr : Nat) : Except Nat Unit × Mem :=
  if modAddr = 0 ∨ modAddr % 2 ≠ 0 then (.error eBmid, m)
  else if m.getU8 modAddr ≠ 0x4A ∨ m.getU8 (modAddr + 1) ≠ 0xFC then (.error eBmid, m)
  else
    let size := m.getU32 (modAddr + Mh.size)
    if size < 0x30 + 3 then (.error eBmid, m)
    else
      let parity := 0xFFFF ^^^ headerXor m modAddr 23
      let m := m.setU16 (modAddr + Mh.parity) parity
      let crc := crcAccumulate 0xFFFFFFFF (m.bytes modAddr (size - 3))
      (.ok (), storeCrc m (modAddr + size - 3) crc)

end Q9OS

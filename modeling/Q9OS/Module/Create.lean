import Mathlib.Tactic
import Q9OS.Memory.Release
import Q9OS.Module.Ledger
import Q9OS.Module.Lookup
import Q9OS.Module.Seal
import Q9OS.Names.Match
import Q9OS.Process.Module

/-!
# Data modules

F$DatMod (`Q9K_ModCreateData` of `q9kernel_moddir.c`): a module of header, data
area, name and CRC in a block of its own, entered in the directory under its name.
-/

namespace Q9OS

open Arena

def eBnam : Nat := 0xCE

namespace Mh

def access : Nat := 0x10
def attRev : Nat := 0x14
def headerSize : Nat := 0x30
def crcSize : Nat := 3

end Mh

/-- What F$DatMod hands back. -/
structure DatMod where
  hdr : Nat
  data : Nat
  pastName : Nat

/-- The length of the name at `name`, at most `fuel` characters from the `n`th on. -/
def nameLen (m : Mem) (name : Nat) : Nat → Nat → Nat
  | 0, n => n
  | fuel + 1, n => if ModDir.isNameChar (m.getU8 (name + n)) then nameLen m name fuel (n + 1) else n

def datModNameMax : Nat := 64

def copyName (m : Mem) (target name : Nat) : Nat → Mem
  | 0 => m
  | n + 1 =>
    let m := copyName m target name n
    m.setU8 (add32 target n) (m.getU8 (name + n))

/-- The header but for parity. -/
def writeHeader (m : Mem) (hdr total nameOff attrRev access tyLang : Nat) : Mem :=
  let m := m.setU16 hdr 0x4AFC
  let m := m.setU32 (hdr + Mh.size) total
  let m := m.setU32 (hdr + Mh.name) nameOff
  let m := m.setU16 (hdr + Mh.access) access
  let m := m.setU16 (hdr + Mh.tyLang) tyLang
  m.setU16 (hdr + Mh.attRev) attrRev

/-- Parity and CRC, computed as in F$SetCRC. -/
def sealImage (m : Mem) (hdr total : Nat) : Mem :=
  let m := m.setU16 (hdr + Mh.parity) (0xFFFF ^^^ headerXor m hdr 23)
  storeCrc m (hdr + total - 3) (crcAccumulate 0xFFFFFFFF (m.bytes hdr (sub32 total Mh.crcSize)))

/-- The image in a block of `total` bytes, not yet sealed. -/
def writeImage (m : Mem) (hdr total nameOff len attrRev access tyLang namePtr : Nat) : Mem :=
  let m := zeroFill m hdr total
  let m := writeHeader m hdr total nameOff attrRev access tyLang
  copyName m (add32 hdr nameOff) namePtr len

def datModNameOff (dataSize : Nat) : Nat := add32 Mh.headerSize dataSize

/-- Size of the whole module, rounded up to the granularity of the arena. -/
def datModTotal (dataSize len : Nat) : Nat := roundUp16 (add32 (add32 (datModNameOff dataSize) len) Mh.crcSize)

/-- F$DatMod. -/
def ModDir.modCreateData (d : ModDir) (m : Mem) (dataSize attrRev access tyLang namePtr : Nat) :
    Except Nat DatMod × ModDir × Mem :=
  if namePtr = 0 then (.error eBnam, d, m)
  else
    let len := nameLen m namePtr datModNameMax 0
    if len = 0 then (.error eBnam, d, m)
    else
      let nameOff := datModNameOff dataSize
      let total := datModTotal dataSize len
      match allocMem m total with
      | (hdr, m) =>
        if hdr = 0 then (.error SysMem.eMemful, d, m)
        else
          let m := sealImage (writeImage m hdr total nameOff len attrRev access tyLang namePtr) hdr total
          match d.validateAndAdd m hdr total with
          | (.error code, d) => (.error code, d, freeMem m hdr total)
          | (.ok _, d) => (.ok ⟨hdr, hdr + Mh.headerSize, namePtr + len⟩, d, m)

/-! ### The name -/

theorem nameLen_chars {m : Mem} {name fuel n i : Nat} (low : n ≤ i) (high : i < nameLen m name fuel n) :
    ModDir.isNameChar (m.getU8 (name + i)) = true := by
  induction fuel generalizing n with
  | zero => exact absurd high (Nat.not_lt.mpr low)
  | succ fuel ih =>
    unfold nameLen at high
    split at high
    · next here =>
      rcases Nat.eq_or_lt_of_le low with rfl | later
      · exact here
      · exact ih later high
    · exact absurd high (Nat.not_lt.mpr low)

theorem isNameChar_pos {x : Nat} (named : ModDir.isNameChar x = true) : x ≠ 0 := by
  rintro rfl
  exact absurd named (by decide)

/-- A stored name with a NUL behind it matches the text it was taken from. -/
theorem namesMatch_copy {m : Mem} {a t len n : Nat} (copied : ∀ i < len, m (a + i) = m (t + i))
    (chars : ∀ i < len, ModDir.isNameChar (m.getU8 (t + i)) = true) (zero : m (a + len) = 0)
    (stop : ModDir.isNameChar (m.getU8 (t + len)) = false) (room : len < n) : ModDir.namesMatch m n a t = true := by
  induction len generalizing a t n with
  | zero =>
    cases n with
    | zero => exact absurd room (Nat.not_lt_zero 0)
    | succ n => exact (ModDir.namesMatch_zero zero).trans (congrArg not stop)
  | succ len ih =>
    cases n with
    | zero => exact absurd room (Nat.not_lt_zero _)
    | succ n =>
      have first : m.getU8 a = m.getU8 t := congrArg UInt8.toNat (copied 0 (by omega))
      have char : ModDir.isNameChar (m.getU8 t) = true := chars 0 (by omega)
      have small := ModDir.isNameChar_small char
      have rest : ModDir.namesMatch m n (a + 1) (t + 1) = true := by
        refine ih (fun i inside => ?_) (fun i inside => ?_) ?_ ?_ (by omega)
        · rw [Nat.add_right_comm a, Nat.add_right_comm t]
          exact copied (i + 1) (by omega)
        · rw [Nat.add_right_comm]
          exact chars (i + 1) (by omega)
        · rw [Nat.add_right_comm]
          exact zero
        · rw [Nat.add_right_comm]
          exact stop
      rw [ModDir.namesMatch]
      dsimp only
      rw [first, if_neg (isNameChar_pos char), if_neg (not_not.mpr rfl), if_neg (by omega)]
      exact rest

/-! ### The image -/

theorem copyName_outside {target name n x : Nat} (m : Mem) (fits : target + n ≤ 4294967296)
    (outside : x < target ∨ target + n ≤ x) : copyName m target name n x = m x := by
  induction n with
  | zero => rfl
  | succ n ih =>
    unfold copyName
    rw [add32_of_lt (by omega)]
    exact (Mem.setU8_of_ne _ _ (by omega)).trans (ih (by omega) (by omega))

theorem copyName_inside {target name n i : Nat} (m : Mem) (fits : target + n ≤ 4294967296)
    (clear : ∀ i < n, name + i < target ∨ target + n ≤ name + i) (inside : i < n) :
    copyName m target name n (target + i) = m (name + i) := by
  induction n with
  | zero => exact absurd inside (Nat.not_lt_zero i)
  | succ n ih =>
    unfold copyName
    rw [add32_of_lt (by omega)]
    rcases Nat.eq_or_lt_of_le (Nat.le_of_lt_succ inside) with rfl | before
    · have source : copyName m target name i (name + i) = m (name + i) :=
        copyName_outside m (by omega) (by have := clear i (by omega); omega)
      have stored : (copyName m target name i).setU8 (target + i) ((copyName m target name i).getU8 (name + i))
          (target + i) = copyName m target name i (name + i) := by
        simp [Mem.setU8, Mem.getU8]
      exact stored.trans source
    · exact (Mem.setU8_of_ne _ _ (by omega)).trans
        (ih (by omega) (fun j below => by have := clear j (by omega); omega) before)

theorem writeHeader_outside {hdr total nameOff attrRev access tyLang x : Nat} (m : Mem)
    (outside : x < hdr ∨ hdr + 0x30 ≤ x) : writeHeader m hdr total nameOff attrRev access tyLang x = m x := by
  unfold writeHeader Mh.size Mh.name Mh.access Mh.tyLang Mh.attRev
  rw [Mem.setU16_outside _ _ (by omega), Mem.setU16_outside _ _ (by omega), Mem.setU16_outside _ _ (by omega),
    Mem.setU32_outside _ _ (by omega), Mem.setU32_outside _ _ (by omega), Mem.setU16_outside _ _ (by omega)]

/-- The header fields that F$VModul and F$Link read. -/
structure HasHeader (m : Mem) (hdr total nameOff attrRev tyLang : Nat) : Prop where
  sync : m.getU16 hdr = 0x4AFC
  size : m.getU32 (hdr + Mh.size) = total
  name : m.getU32 (hdr + Mh.name) = nameOff
  tyLang : m.getU16 (hdr + Mh.tyLang) = tyLang
  revision : m.getU8 (hdr + Mh.revision) = attrRev % 256

theorem HasHeader.congr {m m' : Mem} {hdr total nameOff attrRev tyLang : Nat}
    (header : HasHeader m hdr total nameOff attrRev tyLang) (same : ∀ x, hdr ≤ x → x < hdr + 0x2E → m' x = m x) :
    HasHeader m' hdr total nameOff attrRev tyLang := by
  have word : ∀ {o : Nat}, o + 4 ≤ 0x2E → m'.getU32 (hdr + o) = m.getU32 (hdr + o) :=
    fun below => Mem.getU32_congr (fun x low high => same x (by omega) (by omega))
  have half : ∀ {o : Nat}, o + 2 ≤ 0x2E → m'.getU16 (hdr + o) = m.getU16 (hdr + o) :=
    fun below => Mem.getU16_congr (fun x low high => same x (by omega) (by omega))
  have byte : m'.getU8 (hdr + Mh.revision) = m.getU8 (hdr + Mh.revision) :=
    Mem.getU8_congr (same _ (Nat.le_add_right _ _) (Nat.add_lt_add_left (by decide) _))
  exact ⟨(@half 0 (by decide)).trans header.sync, (@word Mh.size (by decide)).trans header.size,
    (@word Mh.name (by decide)).trans header.name, (@half Mh.tyLang (by decide)).trans header.tyLang,
    byte.trans header.revision⟩

theorem writeHeader_fields {hdr total nameOff attrRev tyLang : Nat} (m : Mem) (access : Nat) (size : total < 4294967296)
    (name : nameOff < 4294967296) (type : tyLang < 65536) :
    HasHeader (writeHeader m hdr total nameOff attrRev access tyLang) hdr total nameOff attrRev tyLang := by
  unfold writeHeader
  constructor
  all_goals dsimp only [Mh.size, Mh.name, Mh.access, Mh.tyLang, Mh.attRev, Mh.revision]
  · rw [Mem.getU16_setU16_apart _ _ (by omega), Mem.getU16_setU16_apart _ _ (by omega), Mem.getU16_setU16_apart _ _ (by omega),
      Mem.getU16_setU32_apart _ _ (by omega), Mem.getU16_setU32_apart _ _ (by omega), Mem.getU16_setU16]
  · rw [Mem.getU32_setU16_apart _ _ (by omega), Mem.getU32_setU16_apart _ _ (by omega), Mem.getU32_setU16_apart _ _ (by omega),
      Mem.getU32_setU32_apart _ _ (by omega), Mem.getU32_setU32_of_lt _ _ size]
  · rw [Mem.getU32_setU16_apart _ _ (by omega), Mem.getU32_setU16_apart _ _ (by omega), Mem.getU32_setU16_apart _ _ (by omega),
      Mem.getU32_setU32_of_lt _ _ name]
  · rw [Mem.getU16_setU16_apart _ _ (by omega), Mem.getU16_setU16, Nat.mod_eq_of_lt type]
  · exact Mem.getU8_setU8 _ _ _

/-- The parts of an image follow one another in its block. -/
structure Layout (hdr total nameOff len : Nat) : Prop where
  live : hdr ≠ 0
  even : hdr % 2 = 0
  header : 0x30 ≤ nameOff
  named : 0 < len
  room : nameOff + len + 3 ≤ total
  small : total < 4294967296
  fits : hdr + total ≤ 4294967296

section Image
variable {m : Mem} {hdr total nameOff len attrRev access tyLang namePtr : Nat}

theorem Layout.target (layout : Layout hdr total nameOff len) : add32 hdr nameOff = hdr + nameOff := by
  have room := layout.room
  have fits := layout.fits
  exact add32_of_lt (by omega)

theorem writeImage_outside (layout : Layout hdr total nameOff len) {x : Nat} (outside : ¬ Block.Covers ⟨hdr, total⟩ x) :
    writeImage m hdr total nameOff len attrRev access tyLang namePtr x = m x := by
  have header := layout.header
  have room := layout.room
  have fits := layout.fits
  have outside : ¬ (hdr ≤ x ∧ x < hdr + total) := outside
  unfold writeImage
  rw [layout.target, copyName_outside _ (by omega) (by omega), writeHeader_outside _ (by omega)]
  exact if_neg outside

/-- Between header and name, and behind the name, the image is clear. -/
theorem writeImage_blank (layout : Layout hdr total nameOff len) {x : Nat} (low : hdr + 0x30 ≤ x) (high : x < hdr + total)
    (apart : x < hdr + nameOff ∨ hdr + nameOff + len ≤ x) :
    writeImage m hdr total nameOff len attrRev access tyLang namePtr x = 0 := by
  have room := layout.room
  have fits := layout.fits
  unfold writeImage
  rw [layout.target, copyName_outside _ (by omega) (by omega), writeHeader_outside _ (by omega)]
  exact if_pos ⟨by omega, high⟩

theorem writeImage_name (layout : Layout hdr total nameOff len)
    (clear : ∀ i < len, ¬ Block.Covers ⟨hdr, total⟩ (namePtr + i)) {i : Nat} (inside : i < len) :
    writeImage m hdr total nameOff len attrRev access tyLang namePtr (hdr + nameOff + i) = m (namePtr + i) := by
  have header := layout.header
  have room := layout.room
  have fits := layout.fits
  have away : ∀ i < len, namePtr + i < hdr ∨ hdr + total ≤ namePtr + i := by
    intro i inside
    have outside : ¬ (hdr ≤ namePtr + i ∧ namePtr + i < hdr + total) := clear i inside
    omega
  have here := away i inside
  unfold writeImage
  rw [layout.target, copyName_inside _ (by omega) (fun j below => by have := away j below; omega) inside,
    writeHeader_outside _ (by omega)]
  exact if_neg (by omega)

theorem writeImage_fields (layout : Layout hdr total nameOff len) (type : tyLang < 65536) :
    HasHeader (writeImage m hdr total nameOff len attrRev access tyLang namePtr) hdr total nameOff attrRev tyLang := by
  have header := layout.header
  have room := layout.room
  have small := layout.small
  have fits := layout.fits
  unfold writeImage
  rw [layout.target]
  exact (writeHeader_fields _ access small (by omega) type).congr
    (fun x low high => copyName_outside _ (by omega) (by omega))

/-! ### Sealed -/

theorem writeImage_sealable (layout : Layout hdr total nameOff len) (type : tyLang < 65536) :
    Sealable (writeImage m hdr total nameOff len attrRev access tyLang namePtr) hdr := by
  have fields := @writeImage_fields m hdr total nameOff len attrRev access tyLang namePtr layout type
  have header := layout.header
  have room := layout.room
  exact ⟨layout.live, layout.even, fields.sync, by rw [fields.size]; omega⟩

/-- Parity and CRC are those of F$SetCRC. -/
theorem sealImage_eq {image : Mem} (sealable : Sealable image hdr) (size : image.getU32 (hdr + Mh.size) = total)
    (small : total < 4294967296) : sealImage image hdr total = (modSetCRC image hdr).2 := by
  have large := sealable.size
  rw [size] at large
  rw [modSetCRC_sealable sealable, size]
  unfold sealImage
  rw [sub32_of_le small (by unfold Mh.crcSize; omega), Nat.add_sub_assoc (by omega)]
  rfl

end Image

/-! ### What F$DatMod has done when it succeeds -/

section Creation
variable {d d' : ModDir} {m m' : Mem} {dataSize attrRev access tyLang namePtr : Nat} {out : DatMod}

structure Created (d : ModDir) (m : Mem) (dataSize attrRev access tyLang namePtr : Nat) (out : DatMod) (d' : ModDir)
    (m' : Mem) : Prop where
  named : nameLen m namePtr datModNameMax 0 ≠ 0
  granted : ∃ m₀, allocMem m (datModTotal dataSize (nameLen m namePtr datModNameMax 0)) = (out.hdr, m₀) ∧
    m' = sealImage (writeImage m₀ out.hdr (datModTotal dataSize (nameLen m namePtr datModNameMax 0))
      (datModNameOff dataSize) (nameLen m namePtr datModNameMax 0) attrRev access tyLang namePtr) out.hdr
      (datModTotal dataSize (nameLen m namePtr datModNameMax 0))
  live : out.hdr ≠ 0
  data : out.data = out.hdr + Mh.headerSize
  pool : d.free ≠ 0
  entered : d' = (d.add m' out.hdr).2

theorem modCreateData_created (made : d.modCreateData m dataSize attrRev access tyLang namePtr = (.ok out, d', m')) :
    Created d m dataSize attrRev access tyLang namePtr out d' m' := by
  unfold ModDir.modCreateData at made
  extract_lets len nameOff total at made
  split at made
  · cases made
  split at made
  · cases made
  · next named =>
    cases took : allocMem m total with
    | mk hdr m₀ =>
      rw [took] at made
      dsimp -zeta only at made
      split at made
      · cases made
      · next live =>
        extract_lets image at made
        rcases validateAndAdd_cases d image hdr total with ⟨code, refused⟩ | ⟨free, v, accepted⟩
        · rw [refused] at made
          cases made
        · rw [accepted] at made
          obtain ⟨rfl, rfl, rfl⟩ : out = ⟨hdr, hdr + Mh.headerSize, namePtr + len⟩ ∧ d' = (d.add image hdr).2 ∧ m' = image := by
            have parts := Prod.mk.inj made
            have states := Prod.mk.inj parts.2
            exact ⟨(Except.ok.inj parts.1).symm, states.1.symm, states.2.symm⟩
          exact ⟨named, ⟨m₀, took, rfl⟩, live, rfl, free, rfl⟩

/-! ### Found again -/

/-- F$Link finds the module at `hdr`, or another one of the name with a higher revision. -/
structure ModDir.Finds (d : ModDir) (m : Mem) (tyLang namePtr hdr : Nat) : Prop where
  found : d.findSlotByName m tyLang namePtr ≠ 0
  fits : d.Fits m tyLang namePtr (d.findSlotByName m tyLang namePtr)
  links : (d.linkByName m tyLang namePtr).1 = d.entries.get32 (d.findSlotByName m tyLang namePtr) ModDir.hdrPtr
  best : d.entries.get32 (d.findSlotByName m tyLang namePtr) ModDir.hdrPtr = hdr ∨
    m.getU8 (hdr + Mh.revision) < d.revisionOf m (d.findSlotByName m tyLang namePtr)

theorem add_tyLang (d : ModDir) (m : Mem) (hdr : Nat) (free : d.free ≠ 0) :
    (d.add m hdr).2.entries.get16 d.free ModDir.tyLang = m.getU16 (hdr + Mh.tyLang) := by
  rw [ModDir.add_eq d m hdr free]
  unfold ModDir.fillEntry
  dsimp only
  rw [Heap.get16_set32_off _ _ _ _ (by decide), Heap.get16_set16_off _ _ _ _ (by decide),
    Heap.get16_set16_off _ _ _ _ (by decide), Heap.get16_set16_off _ _ _ _ (by decide), Heap.get16_set16,
    Nat.mod_eq_of_lt (Mem.getU16_lt _ _)]

/-- A module just entered is the first of the directory. -/
theorem ModDir.add_finds {slots free : List Nat} {ledger : List Entry} {hdr : Nat} (pool : ModDir.IsPool slots)
    (keeps : ModDir.Keeps slots d ledger free) (some : d.free ≠ 0) (small : hdr < 4294967296) (few : ledger.length < 256)
    (named : ModDir.namesMatch m (m.getU32 (hdr + Mh.size) - m.getU32 (hdr + Mh.name)) (hdr + m.getU32 (hdr + Mh.name))
      namePtr = true)
    (inside : m.getU32 (hdr + Mh.name) < m.getU32 (hdr + Mh.size)) (type : m.getU16 (hdr + Mh.tyLang) = tyLang) :
    (d.add m hdr).2.Finds m tyLang namePtr hdr := by
  obtain ⟨rest, after⟩ := keeps.add pool m small some
  have header : (d.add m hdr).2.entries.get32 d.free ModDir.hdrPtr = hdr := (after.shows _ List.mem_cons_self).hdr
  have typed := add_tyLang d m hdr some
  generalize (d.add m hdr).2 = d' at after header typed
  have chain : Linked (fun a => d'.entries.get32 a ModDir.next) 0 d'.head (d.free :: ledger.map Entry.slot) :=
    after.activeList
  have fits : d'.Fits m tyLang namePtr d.free := by
    unfold ModDir.Fits ModDir.slotMatches
    rw [header, typed, type]
    simp [named, inside, ModDir.tyLangFits]
  have revision : d'.revisionOf m d.free = m.getU8 (hdr + Mh.revision) := by
    unfold ModDir.revisionOf
    rw [header]
  have short : (d.free :: ledger.map Entry.slot).length ≤ ModDir.searchMax := by
    rw [List.length_cons, List.length_map]
    exact few
  have looked : ModDir.Looked d' m tyLang namePtr true (d.free :: ledger.map Entry.slot)
      (d'.findSlot m tyLang namePtr true) := (ModDir.looked_highest chain).mpr (.inr short)
  rw [ModDir.findSlot_highest] at looked
  have found : d'.findSlotByName m tyLang namePtr ≠ 0 :=
    fun missing => looked.none.mp missing d.free List.mem_cons_self fits
  have highest : ModDir.Highest (d'.Fits m tyLang namePtr) (d'.revisionOf m) (d.free :: ledger.map Entry.slot)
      (d'.findSlotByName m tyLang namePtr) := looked.some found
  refine ⟨found, highest.fit, ?_, ?_⟩
  · unfold ModDir.linkByName
    rw [if_neg found]
  · rcases highest.head fits with same | higher
    · exact .inl (by rw [same]; exact header)
    · exact .inr (revision ▸ higher)

/-! ### In its block -/

/-- Header, data area, name and CRC of the module. -/
def imageParts (m : Mem) (out : DatMod) (dataSize len : Nat) : List Block :=
  [⟨out.hdr, Mh.headerSize⟩, ⟨out.data, dataSize⟩, ⟨out.hdr + m.getU32 (out.hdr + Mh.name), len⟩,
    ⟨out.hdr + m.getU32 (out.hdr + Mh.size) - Mh.crcSize, Mh.crcSize⟩]

/-- A byte that the arena does not use for itself. -/
def Lasting (m : Mem) (x : Nat) : Prop := ¬ SysMem.FreeByte m x ∧ ¬ (arenaHead ≤ x ∧ x < arenaTail + 4)

/-- The image is whole, F$VModul accepts it, and F$Link finds it. -/
structure Made (m : Mem) (dataSize tyLang namePtr : Nat) (out : DatMod) (d' : ModDir) (m' : Mem) : Prop where
  block : ∃ requested m₀, allocMem m requested = (out.hdr, m₀) ∧
    (∀ part ∈ imageParts m' out dataSize (nameLen m namePtr datModNameMax 0),
      out.hdr ≤ part.addr ∧ part.addr + part.size ≤ out.hdr + roundUp16 requested) ∧
    ∀ x, ¬ Block.Covers ⟨out.hdr, roundUp16 requested⟩ x → m' x = m₀ x
  apart : (imageParts m' out dataSize (nameLen m namePtr datModNameMax 0)).Pairwise Block.Apart
  named : m'.bytes (out.hdr + m'.getU32 (out.hdr + Mh.name)) (nameLen m namePtr datModNameMax 0) =
    m.bytes namePtr (nameLen m namePtr datModNameMax 0)
  accepted : ∀ pool : ModDir, pool.free ≠ 0 →
    (pool.validateAndAdd m' out.hdr (m'.getU32 (out.hdr + Mh.size))).1 = .ok ⟨out.hdr, 0, tyLang⟩
  finds : d'.Finds m' tyLang namePtr out.hdr

theorem datModTotal_eq {len : Nat} (noWrap : 0x30 + dataSize + len + 3 + 15 < 4294967296) :
    datModNameOff dataSize = 0x30 + dataSize ∧ datModTotal dataSize len = (0x30 + dataSize + len + 3 + 15) / 16 * 16 := by
  have offset : datModNameOff dataSize = 0x30 + dataSize := add32_of_lt (by unfold Mh.headerSize; omega)
  refine ⟨offset, ?_⟩
  unfold datModTotal roundUp16 allocGranularity Mh.crcSize
  rw [offset, add32_of_lt (show 0x30 + dataSize + len < 4294967296 by omega), add32_of_lt (by omega)]
  omega

section Granted
variable {region : Region} {m₀ : Mem} {free free' used : List Block} {b : Block}

/-- A block just granted was free. -/
theorem granted_free (partition : Partition region.base region.size m free used)
    (after : Partition region.base region.size m₀ free' (b :: used)) {x : Nat} (covered : b.Covers x) :
    SysMem.FreeByte m x := by
  refine (SysMem.freeByte_iff partition x).mpr ⟨?_, fun c member there => ?_⟩
  · exact (after.tiles.cover x).mpr ⟨b, by simp, covered⟩
  · have later := (List.pairwise_append.mp after.tiles.apart).2.1
    have apart := (List.pairwise_cons.mp later).1 c member
    unfold Block.Apart at apart
    unfold Block.Covers at covered there
    omega

theorem lasting_untouched (partition : Partition region.base region.size m free used) {x : Nat} (lasting : Lasting m x) :
    ¬ Touches free x := by
  rintro (cell | ⟨c, member, covered⟩)
  · exact lasting.2 cell
  · exact lasting.1 ⟨free, partition.list, c, member, covered⟩

/-- Where a granted block lies. -/
theorem granted_place (partition : Partition region.base region.size m free used) {requested hdr : Nat} (live : hdr ≠ 0)
    (some : roundUp16 requested ≠ 0) (took : allocMem m requested = (hdr, m₀)) :
    (hdr % 16 = 0 ∧ roundUp16 requested % 16 = 0 ∧ hdr + roundUp16 requested ≤ 4294967296) ∧
      ∃ free', Partition region.base region.size m₀ free' (⟨hdr, roundUp16 requested⟩ :: used) := by
  have multiple := roundUp16_aligned requested
  have below : roundUp16 requested < 4294967296 := by
    unfold roundUp16
    omega
  have rounded := roundUp16_of_aligned multiple below
  have again : allocMem m (roundUp16 requested) = (hdr, m₀) := by
    rw [← took]
    unfold allocMem
    rw [rounded]
  have outcome := @allocMem_partition region m free used (roundUp16 requested) partition (by omega) (by omega)
  rw [again, rounded] at outcome
  obtain ⟨-, free', after⟩ := outcome.resolve_left (fun failed => live failed.1)
  obtain ⟨aligned, -, positive⟩ := after.shaped ⟨hdr, roundUp16 requested⟩ (by simp)
  obtain ⟨-, high⟩ := after.tiles.inside (b := ⟨hdr, roundUp16 requested⟩) (by simp) positive
  have noWrap := region.no_wrap
  dsimp only at aligned high
  exact ⟨⟨aligned, multiple, by omega⟩, free', after⟩

/-- The block of a module, when the size does not wrap. -/
theorem granted_layout (partition : Partition region.base region.size m free used) {len requested hdr : Nat}
    (noWrap : 0x30 + dataSize + len + 3 + 15 < 4294967296) (named : len ≠ 0) (live : hdr ≠ 0)
    (is : datModTotal dataSize len = requested) (took : allocMem m requested = (hdr, m₀)) :
    Layout hdr requested (0x30 + dataSize) len ∧ roundUp16 requested = requested ∧
      ∃ free', Partition region.base region.size m₀ free' (⟨hdr, requested⟩ :: used) := by
  obtain ⟨-, total⟩ := datModTotal_eq noWrap
  rw [total] at is
  have rounded : roundUp16 requested = requested := roundUp16_of_aligned (by omega) (by omega)
  obtain ⟨⟨aligned, -, high⟩, free', after⟩ := granted_place partition live (by omega) took
  rw [rounded] at high after
  exact ⟨⟨live, by omega, by omega, by omega, by omega, by omega, by omega⟩, rounded, free', after⟩

end Granted

/-! ### The condition -/

/-- No part of the size is cut off. -/
def Representable (m : Mem) (dataSize namePtr : Nat) : Prop :=
  0x30 + dataSize + nameLen m namePtr datModNameMax 0 + 3 + 15 < 4294967296

/-- A byte is left between name and CRC, the name ends within 64 characters, and its text stays where it is. -/
structure NameStands (m : Mem) (dataSize namePtr : Nat) : Prop where
  gap : (dataSize + nameLen m namePtr datModNameMax 0 + 3) % 16 ≠ 0
  ended : ModDir.isNameChar (m.getU8 (namePtr + nameLen m namePtr datModNameMax 0)) = false
  lasting : ∀ i ≤ nameLen m namePtr datModNameMax 0, Lasting m (namePtr + i)

section Sealed
variable {region : Region} {m₀ : Mem} {free free' used : List Block} {hdr total nameOff len : Nat}

/-- F$VModul accepts the image. -/
theorem sealed_accepted (layout : Layout hdr total nameOff len) (type : tyLang < 65536)
    (is : m' = sealImage (writeImage m₀ hdr total nameOff len attrRev access tyLang namePtr) hdr total) (pool : ModDir)
    (some : pool.free ≠ 0) : (pool.validateAndAdd m' hdr total).1 = .ok ⟨hdr, 0, tyLang⟩ := by
  have fields := @writeImage_fields m₀ hdr total nameOff len attrRev access tyLang namePtr layout type
  have sealable := @writeImage_sealable m₀ hdr total nameOff len attrRev access tyLang namePtr layout type
  rw [sealImage_eq sealable fields.size layout.small] at is
  have seals := setCRC_seals _ hdr sealable
  rw [fields.size, fields.tyLang] at seals
  rw [is]
  exact seals.2.2.2.1 pool total some (le_refl _)

/-- Sealing changes parity and CRC alone. -/
theorem sealed_frame (layout : Layout hdr total nameOff len) (type : tyLang < 65536)
    (is : m' = sealImage (writeImage m₀ hdr total nameOff len attrRev access tyLang namePtr) hdr total) {x : Nat}
    (parity : x < hdr + 0x2E ∨ hdr + 0x30 ≤ x) (crc : x < hdr + (total - 3) ∨ hdr + total ≤ x) :
    m' x = writeImage m₀ hdr total nameOff len attrRev access tyLang namePtr x := by
  have fields := @writeImage_fields m₀ hdr total nameOff len attrRev access tyLang namePtr layout type
  have sealable := @writeImage_sealable m₀ hdr total nameOff len attrRev access tyLang namePtr layout type
  rw [is, sealImage_eq sealable fields.size layout.small]
  exact modSetCRC_outside sealable parity (by rw [fields.size]; exact crc)

theorem sealed_header (layout : Layout hdr total nameOff len) (type : tyLang < 65536)
    (is : m' = sealImage (writeImage m₀ hdr total nameOff len attrRev access tyLang namePtr) hdr total) :
    HasHeader m' hdr total nameOff attrRev tyLang := by
  have header := layout.header
  have room := layout.room
  exact (writeImage_fields layout type).congr (fun x low high => sealed_frame layout type is (by omega) (by omega))

theorem sealed_outside (layout : Layout hdr total nameOff len) (type : tyLang < 65536)
    (is : m' = sealImage (writeImage m₀ hdr total nameOff len attrRev access tyLang namePtr) hdr total) {x : Nat}
    (outside : ¬ Block.Covers ⟨hdr, total⟩ x) : m' x = m₀ x := by
  have beyond : ¬ (hdr ≤ x ∧ x < hdr + total) := outside
  have header := layout.header
  have room := layout.room
  exact (sealed_frame layout type is (by omega) (by omega)).trans (writeImage_outside layout outside)

theorem sealed_name (layout : Layout hdr total nameOff len) (type : tyLang < 65536)
    (clear : ∀ i < len, ¬ Block.Covers ⟨hdr, total⟩ (namePtr + i))
    (is : m' = sealImage (writeImage m₀ hdr total nameOff len attrRev access tyLang namePtr) hdr total) {i : Nat}
    (inside : i < len) : m' (hdr + nameOff + i) = m₀ (namePtr + i) := by
  have header := layout.header
  have room := layout.room
  exact (sealed_frame layout type is (by omega) (by omega)).trans (writeImage_name layout clear inside)

theorem sealed_zero (layout : Layout hdr total nameOff len) (gap : nameOff + len + 3 < total) (type : tyLang < 65536)
    (is : m' = sealImage (writeImage m₀ hdr total nameOff len attrRev access tyLang namePtr) hdr total) :
    m' (hdr + nameOff + len) = 0 := by
  have header := layout.header
  exact (sealed_frame layout type is (by omega) (by omega)).trans
    (writeImage_blank layout (by omega) (by omega) (.inr (le_refl _)))

theorem modCreateData_made {slots pool : List Nat} {ledger : List Entry}
    (partition : Partition region.base region.size m free used) (isPool : ModDir.IsPool slots)
    (keeps : ModDir.Keeps slots d ledger pool) (type : tyLang < 65536) (stands : NameStands m dataSize namePtr)
    (noWrap : Representable m dataSize namePtr) (few : ledger.length < 256)
    (made : d.modCreateData m dataSize attrRev access tyLang namePtr = (.ok out, d', m')) :
    Made m dataSize tyLang namePtr out d' m' := by
  obtain ⟨gap, ended, lasting⟩ := stands
  unfold Representable at noWrap
  obtain ⟨named, ⟨m₀, took, is⟩, live, data, some, entered⟩ := modCreateData_created made
  obtain ⟨offset, size⟩ := datModTotal_eq noWrap
  have chars := fun i => @nameLen_chars m namePtr datModNameMax 0 i (Nat.zero_le i)
  generalize length : nameLen m namePtr datModNameMax 0 = len at *
  obtain ⟨layout, rounded, free', after⟩ := granted_layout partition noWrap named live rfl took
  rw [offset] at is
  rw [size] at layout rounded after is took
  generalize total : (0x30 + dataSize + len + 3 + 15) / 16 * 16 = whole at layout rounded after is took
  have clear : ∀ i ≤ len, ¬ Block.Covers ⟨out.hdr, whole⟩ (namePtr + i) :=
    fun i inside covered => (lasting i inside).1 (granted_free partition after covered)
  have header := sealed_header layout type is
  have outside : ∀ x, ¬ Block.Covers ⟨out.hdr, whole⟩ x → m' x = m₀ x := fun x => sealed_outside layout type is
  have copied : ∀ i < len, m' (out.hdr + (0x30 + dataSize) + i) = m₀ (namePtr + i) :=
    fun i => sealed_name layout type (fun i inside => clear i inside.le) is
  have zero := sealed_zero layout (by omega) type is
  -- neither the request nor the image changes the text
  have text : ∀ i ≤ len, m' (namePtr + i) = m (namePtr + i) := by
    intro i inside
    have kept := @Partition.allocMem_frame m free used region whole (namePtr + i) partition
      (lasting_untouched partition (lasting i inside))
    rw [took] at kept
    exact (outside _ (clear i inside)).trans kept
  have source : ∀ i ≤ len, m₀ (namePtr + i) = m (namePtr + i) :=
    fun i inside => (outside _ (clear i inside)).symm.trans (text i inside)
  have matches_ : ModDir.namesMatch m' (whole - (0x30 + dataSize)) (out.hdr + (0x30 + dataSize)) namePtr = true := by
    refine namesMatch_copy (fun i inside => ?_) (fun i inside => ?_) zero ?_ (by omega)
    · rw [copied i inside, source i inside.le, text i inside.le]
    · rw [Mem.getU8_congr (text i inside.le)]
      exact chars i inside
    · rw [Mem.getU8_congr (text len (le_refl _))]
      exact ended
  have fits := layout.fits
  have base := data
  unfold Mh.headerSize at base
  refine ⟨⟨whole, m₀, took, ?_, ?_⟩, ?_, ?_, ?_, ?_⟩
  · unfold imageParts
    rw [header.name, header.size, rounded, length]
    simp only [List.forall_mem_cons, List.not_mem_nil, false_implies, implies_true, and_true, Mh.headerSize, Mh.crcSize]
    omega
  · rw [rounded]
    exact outside
  · unfold imageParts
    rw [header.name, header.size, length]
    simp only [List.pairwise_cons, List.forall_mem_cons, List.not_mem_nil, false_implies, implies_true, and_true, Block.Apart,
      Mh.headerSize, Mh.crcSize, List.Pairwise.nil]
    omega
  · rw [header.name, length]
    exact Mem.bytes_eq (fun i inside => (copied i inside).trans (source i inside.le))
  · rw [header.size]
    exact sealed_accepted layout type is
  · rw [entered]
    refine ModDir.add_finds isPool keeps some (by omega) few ?_ ?_ header.tyLang
    · rw [header.name, header.size]
      exact matches_
    · rw [header.name, header.size]
      omega

/-- With memory and a directory entry left, a size that can be represented does not fail. -/
theorem modCreateData_succeeds (partition : Partition region.base region.size m free used) (name : namePtr ≠ 0)
    (named : nameLen m namePtr datModNameMax 0 ≠ 0) (noWrap : Representable m dataSize namePtr) (type : tyLang < 65536)
    (some : d.free ≠ 0)
    (took : allocMem m (datModTotal dataSize (nameLen m namePtr datModNameMax 0)) = (hdr, m₀)) (live : hdr ≠ 0) :
    ∃ out d' m', d.modCreateData m dataSize attrRev access tyLang namePtr = (.ok out, d', m') := by
  obtain ⟨offset, -⟩ := datModTotal_eq noWrap
  obtain ⟨layout, -⟩ := granted_layout partition noWrap named live rfl took
  generalize is : d.modCreateData m dataSize attrRev access tyLang namePtr = result
  unfold ModDir.modCreateData at is
  rw [if_neg name] at is
  extract_lets len nameOff total at is
  have whole : total = datModTotal dataSize (nameLen m namePtr datModNameMax 0) := rfl
  rw [if_neg named, whole, took] at is
  dsimp -zeta only at is
  rw [if_neg live] at is
  extract_lets image at is
  have accepted : (d.validateAndAdd image hdr total).1 = .ok ⟨hdr, 0, tyLang⟩ :=
    sealed_accepted layout type (congrArg (fun o => sealImage (writeImage m₀ hdr total o len attrRev access tyLang namePtr)
      hdr total) offset) d some
  rcases validateAndAdd_cases d image hdr total with ⟨code, refused⟩ | ⟨-, v, entered⟩
  · rw [refused] at accepted
    cases accepted
  · rw [← whole, entered] at is
    exact ⟨_, _, _, is.symm⟩

/-- Four parts that are apart need the room of all four. -/
theorem Made.representable (partition : Partition region.base region.size m free used)
    (live : out.hdr ≠ 0) (data : out.data = out.hdr + Mh.headerSize)
    (is : Made m dataSize tyLang namePtr out d' m') : Representable m dataSize namePtr := by
  obtain ⟨requested, m₀, took, inside, -⟩ := is.block
  have apart := is.apart
  unfold imageParts at inside apart
  simp only [List.pairwise_cons, List.forall_mem_cons, List.not_mem_nil, false_implies, implies_true, and_true, Block.Apart,
    Mh.headerSize, Mh.crcSize, List.Pairwise.nil] at inside apart data
  obtain ⟨⟨aligned, multiple, high⟩, -⟩ := granted_place partition live (show roundUp16 requested ≠ 0 by omega) took
  unfold Representable
  generalize m'.getU32 (out.hdr + Mh.name) = nameOff at inside apart
  generalize m'.getU32 (out.hdr + Mh.size) = whole at inside apart
  omega

/-- The search finds nothing behind 256 entries. -/
theorem ModDir.Finds.few {slots pool : List Nat} {ledger : List Entry} {hdr : Nat} (isPool : ModDir.IsPool slots)
    (keeps : ModDir.Keeps slots d ledger pool) (some : d.free ≠ 0) (small : hdr < 4294967296)
    (finds : (d.add m hdr).2.Finds m tyLang namePtr hdr) : ledger.length < 256 := by
  obtain ⟨rest, after⟩ := keeps.add isPool m small some
  by_contra many
  have chain := after.activeList
  have walked := @ModDir.searchWalk_true (d.add m hdr).2 m tyLang namePtr [] _ ModDir.searchMax _ 0 0 chain (.inl ⟨rfl, by simp⟩)
  rw [if_neg (by simpa [ModDir.searchMax] using many), ModDir.searchWalk_highest] at walked
  exact finds.found walked

/-- F$DatMod that succeeds, for a name that stands, has made a whole module that F$Link finds exactly when its size can be
represented and the directory had fewer entries than F$Link looks at. -/
theorem modCreateData_made_iff {slots pool : List Nat} {ledger : List Entry}
    (partition : Partition region.base region.size m free used) (isPool : ModDir.IsPool slots)
    (keeps : ModDir.Keeps slots d ledger pool) (type : tyLang < 65536) (stands : NameStands m dataSize namePtr)
    (made : d.modCreateData m dataSize attrRev access tyLang namePtr = (.ok out, d', m')) :
    Made m dataSize tyLang namePtr out d' m' ↔ Representable m dataSize namePtr ∧ ledger.length < 256 := by
  constructor
  · intro is
    have created := modCreateData_created made
    have noWrap := is.representable partition created.live created.data
    obtain ⟨m₀, took, -⟩ := created.granted
    obtain ⟨layout, -⟩ := granted_layout partition noWrap created.named created.live rfl took
    have room := layout.room
    have fits := layout.fits
    have finds := is.finds
    rw [created.entered] at finds
    exact ⟨noWrap, finds.few isPool keeps created.pool (by omega)⟩
  · rintro ⟨noWrap, few⟩
    exact modCreateData_made partition isPool keeps type stands noWrap few made

end Sealed

/-! ### A module `a` -/

/-- The text `a` at 0x3000, and 256 free bytes. -/
def nameA : Mem := arenaInit (fun x => if x = 0x3000 then 0x61 else 0) 0x10000 0x100

def oneSlot : ModDir := ⟨0, 0x500, fun _ _ => 0⟩

theorem nameA_partition : Partition sampleRegion.base sampleRegion.size nameA [⟨0x10000, 0x100⟩] [] :=
  arenaInit_partition sampleRegion _

theorem oneSlot_isPool : ModDir.IsPool [0x500] := ⟨by simp, by simp, by simp⟩

theorem oneSlot_keeps : ModDir.Keeps [0x500] oneSlot [] [0x500] :=
  ⟨rfl, ⟨rfl, by decide, rfl⟩, List.Perm.refl _, by simp⟩

theorem nameA_length : nameLen nameA 0x3000 datModNameMax 0 = 1 := by decide

theorem nameA_lasting : ∀ i ≤ nameLen nameA 0x3000 datModNameMax 0, Lasting nameA (0x3000 + i) := by
  intro i inside
  rw [nameA_length] at inside
  refine ⟨fun free => ?_, by unfold arenaHead arenaTail; omega⟩
  have low := ((SysMem.freeByte_iff nameA_partition _).mp free).1.1
  have base : sampleRegion.base = 0x10000 := rfl
  omega

theorem nameA_granted {dataSize : Nat} (size : datModTotal dataSize 1 = 64) :
    allocMem nameA (datModTotal dataSize (nameLen nameA 0x3000 datModNameMax 0)) = (0x10000, (allocMem nameA 64).2) := by
  have place : (allocMem nameA 64).1 = 0x10000 := by decide
  rw [nameA_length, size, ← place, Prod.mk.eta]

theorem nameA_representable {dataSize : Nat} (small : dataSize < 16) : Representable nameA dataSize 0x3000 := by
  unfold Representable
  rw [nameA_length]
  omega

theorem modCreateData_made_one : ∃ out d' m',
    oneSlot.modCreateData nameA 11 0x8001 0x333 0x400 0x3000 = (.ok out, d', m') ∧
      Made nameA 11 0x400 0x3000 out d' m' := by
  have stands : NameStands nameA 11 0x3000 := by
    refine ⟨?_, by decide, nameA_lasting⟩
    rw [nameA_length]
    decide
  obtain ⟨out, d', m', made⟩ := @modCreateData_succeeds oneSlot nameA 11 0x8001 0x333 0x400 0x3000 sampleRegion _ _ _ _
    nameA_partition (by decide) (by rw [nameA_length]; decide) (nameA_representable (by decide)) (by decide) (by decide)
    (nameA_granted (by decide)) (by decide)
  exact ⟨out, d', m', made,
    (modCreateData_made_iff nameA_partition oneSlot_isPool oneSlot_keeps (by decide) stands made).mpr
      ⟨nameA_representable (by decide), by decide⟩⟩

/-- A module whose name does not match is not found when it is the only one. -/
theorem oneSlot_misses {m : Mem} {hdr tyLang namePtr : Nat} (small : hdr < 4294967296)
    (unmatched : ModDir.namesMatch m (m.getU32 (hdr + Mh.size) - m.getU32 (hdr + Mh.name))
      (hdr + m.getU32 (hdr + Mh.name)) namePtr = false) :
    (oneSlot.add m hdr).2.findSlotByName m tyLang namePtr = 0 := by
  obtain ⟨rest, after⟩ := oneSlot_keeps.add oneSlot_isPool m small (by decide)
  have header : (oneSlot.add m hdr).2.entries.get32 0x500 ModDir.hdrPtr = hdr := (after.shows _ List.mem_cons_self).hdr
  have none : ∀ s ∈ [0x500], ¬ (oneSlot.add m hdr).2.Fits m tyLang namePtr s := by
    intro s member fits
    obtain rfl := List.mem_singleton.mp member
    unfold ModDir.Fits ModDir.slotMatches at fits
    dsimp only at fits
    rw [header, unmatched] at fits
    simp at fits
  have looked : ModDir.Looked (oneSlot.add m hdr).2 m tyLang namePtr true [0x500]
      ((oneSlot.add m hdr).2.findSlot m tyLang namePtr true) :=
    (ModDir.looked_highest (by exact after.activeList)).mpr (.inl none)
  rw [ModDir.findSlot_highest] at looked
  exact looked.none.mpr none

/-- The image with twelve bytes of data, up to its CRC. -/
def unended : Mem :=
  let m := writeImage (allocMem nameA 64).2 0x10000 64 60 1 0x8001 0x333 0x400 0x3000
  m.setU16 (0x10000 + Mh.parity) (0xFFFF ^^^ headerXor m 0x10000 23)

theorem unended_bytes : unended.bytes 0x10000 61 =
    [74, 252, 0, 0, 0, 0, 0, 64, 0, 0, 0, 0, 0, 0, 0, 60, 3, 51, 4, 0, 128, 1] ++
      (List.replicate 24 0 ++ ([50, 77] ++ List.replicate 12 0 ++ [97])) := by
  decide

theorem unended_crc : crcAccumulate 0xFFFFFFFF (unended.bytes 0x10000 61) = CrcBytes.word ⟨251, 5, 119⟩ := by
  have start : crcAccumulate 0xFFFFFFFF (unended.bytes 0x10000 61) =
      (os9CrcFrom ⟨0xFF, 0xFF, 0xFF⟩ (unended.bytes 0x10000 61)).word := by
    rw [← crcAccumulate_word]
    rfl
  -- in three pieces, for the kernel
  have first : os9CrcFrom ⟨0xFF, 0xFF, 0xFF⟩
      [74, 252, 0, 0, 0, 0, 0, 64, 0, 0, 0, 0, 0, 0, 0, 60, 3, 51, 4, 0, 128, 1] = ⟨151, 44, 179⟩ := by decide +kernel
  have second : os9CrcFrom ⟨151, 44, 179⟩ (List.replicate 24 0) = ⟨185, 91, 194⟩ := by decide +kernel
  have third : os9CrcFrom ⟨185, 91, 194⟩ ([50, 77] ++ List.replicate 12 0 ++ [97]) = ⟨251, 5, 119⟩ := by decide +kernel
  rw [start, unended_bytes]
  unfold os9CrcFrom at *
  rw [List.foldl_append, List.foldl_append, first, second, third]

/-- Twelve bytes of data and the name fill the last 16 bytes up to the CRC, and F$Link reads on. -/
theorem modCreateData_unended :
    ¬ ∀ (region : Region) (m m' : Mem) (free used : List Block) (slots pool : List Nat) (ledger : List Entry)
      (d d' : ModDir) (dataSize attrRev access tyLang namePtr : Nat) (out : DatMod),
      Partition region.base region.size m free used → ModDir.IsPool slots → ModDir.Keeps slots d ledger pool →
        tyLang < 65536 → (∀ i ≤ nameLen m namePtr datModNameMax 0, Lasting m (namePtr + i)) →
          d.modCreateData m dataSize attrRev access tyLang namePtr = (.ok out, d', m') →
            Made m dataSize tyLang namePtr out d' m' := by
  intro always
  obtain ⟨out, d', m', made⟩ := @modCreateData_succeeds oneSlot nameA 12 0x8001 0x333 0x400 0x3000 sampleRegion _ _ _ _
    nameA_partition (by decide) (by rw [nameA_length]; decide) (nameA_representable (by decide)) (by decide) (by decide)
    (nameA_granted (by decide)) (by decide)
  have finds := (always _ _ _ _ _ _ _ _ _ _ _ _ _ _ _ _ nameA_partition oneSlot_isPool oneSlot_keeps (by decide)
    nameA_lasting made).finds
  obtain ⟨named, ⟨m₀, took, is⟩, live, -, -, entered⟩ := modCreateData_created made
  rw [nameA_granted (by decide)] at took
  obtain ⟨place, memory⟩ := Prod.mk.inj took
  rw [nameA_length, ← place, ← memory, show datModTotal 12 1 = 64 by decide, show datModNameOff 12 = 60 by decide] at is
  have layout : Layout 0x10000 64 60 1 := ⟨by decide, by decide, by decide, by decide, by decide, by decide, by decide⟩
  have header := sealed_header layout (by decide) is
  have clear : ∀ i ≤ 1, ¬ Block.Covers ⟨0x10000, 64⟩ (0x3000 + i) := by
    intro i inside covered
    have low := covered.1
    dsimp only at low
    omega
  have name := sealed_name layout (by decide) (fun i inside => clear i inside.le) is (Nat.zero_lt_one)
  have text := fun i inside => sealed_outside layout (by decide) is (clear i inside)
  have crc : m'.bytes 0x1003D 3 = [4, 250, 136] := by
    rw [is]
    show (storeCrc unended 0x1003D (crcAccumulate 0xFFFFFFFF (unended.bytes 0x10000 61))).bytes 0x1003D 3 = _
    rw [unended_crc, storeCrc_bytes]
    decide
  have stored : (allocMem nameA 64).2 0x3000 = 0x61 ∧ (allocMem nameA 64).2 0x3001 = 0 := by decide
  have first : m' 0x1003C = 0x61 := name.trans stored.1
  have second : m' 0x1003D = 4 := (List.cons.inj crc).1
  have char : m' 0x3000 = 0x61 := (text 0 (by decide)).trans stored.1
  have stop : m' 0x3001 = 0 := (text 1 (by decide)).trans stored.2
  have unmatched : ModDir.namesMatch m' 4 0x1003C 0x3000 = false := by
    simp [ModDir.namesMatch, ModDir.lower, Mem.getU8, first, second, char, stop]
  have missed := @oneSlot_misses m' 0x10000 0x400 0x3000 (by decide) (by rw [header.name, header.size]; exact unmatched)
  rw [entered, ← place] at finds
  exact finds.found missed

end Creation

end Q9OS

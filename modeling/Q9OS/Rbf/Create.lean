import Mathlib.Tactic
import Q9OS.Rbf.PathWalk
import Q9OS.Rbf.Bitmap

/-!
# Making files

`Rbf_Create` and `Rbf_MakDir`: the path to the new name, one or two clusters
from the bitmap, the new descriptor and the entry in the directory. The driver
may fail on every sector.
-/

namespace Q9OS.Rbf

def errParam : Nat := 0xCA

/-! ### Rbf_AllocCluster -/

/-- `Rbf_BMapSctLoop`, with the sector that the bit is in. -/
def scanBitmap : Nat → Nat → Nat → Nat → Drv (Option (FreeBit × Sector))
  | 0, _, _, _ => pure none
  | fuel + 1, bytes, d7, d5 =>
    if bytes = 0 then pure none
    else do
      let buf ← Drive.readSector d7
      match byteLoop buf d7 (min 512 bytes) 0 d5 with
      | some found => pure (some (found, buf))
      | none => scanBitmap fuel (bytes - min 512 bytes) (d7 + 1) (d5 + 8 * min 512 bytes)

/-- `Rbf_AllocCluster`: the first sector of the cluster and its size. -/
def allocClusterOn : Drv (Nat × Nat) := do
  let head ← Drive.readSector 0
  match parseLSN0 head with
  | none => throw (.error errBmod)
  | some l => do
    match ← scanBitmap (mapBytes head) (mapBytes head) l.mapLsn 0 with
    | none => throw (.error errDkFul)
    | some (found, buf) => do
      Drive.writeSector found.lsn (buf.setU8 found.off (buf.getU8 found.off ||| 2 ^ found.bit))
      pure (found.cluster % 65536 * l.bit, l.bit)

/-! ### Descriptors and entries -/

/-- A new descriptor without segments. -/
def fdHead (att siz : Nat) : Sector := (Mem.setU8 (fun _ => 0) fdAtt att).setU8 fdLnk 1 |>.setU32 fdSiz siz

/-- `Rbf_CreateFileAttr`: the attributes the caller asks for, without the bit of a directory. -/
def fileAttr (d1 : Nat) : Nat := (if d1 % 256 = 0 then 0x03 else d1 % 256) % 128

def dirAttr : Nat := 0xBF

/-- The entries ".." and "." of a new directory `d7` in `parent`. -/
def dirData (parent d7 : Nat) : Sector :=
  let m := (Mem.setU8 (fun _ => 0) dirNm 0x2E).setU8 (dirNm + 1) 0xAE
  ((m.setU32 dirFd parent).setU8 (dirSz + dirNm) 0xAE).setU32 (dirSz + dirFd) d7

/-- The descriptor of a file, in a new cluster. -/
def newFile (d1 : Nat) : Drv Nat := do
  let d7 ← allocClusterOn
  Drive.writeSector d7.1 (fdHead (fileAttr d1) 0)
  pure d7.1

/-- The descriptor and the entries of a directory, in two new clusters. -/
def newDir (parent : Nat) : Drv Nat := do
  let d7 ← allocClusterOn
  let d2 ← allocClusterOn
  Drive.writeSector d2.1 (dirData parent d7.1)
  Drive.writeSector d7.1 ((setU24 (fdHead dirAttr 64) fdSeg d2.1).setU16 (fdSeg + fdslB) d2.2)
  pure d7.1

/-- A free slot of a directory: the sector, its bytes, the offset in it and in the directory. -/
structure Slot where
  lsn : Nat
  bytes : Sector
  off : Nat
  pos : Nat

/-- `.createEntryLoop` -/
def freeEntry (sector : Sector) : Nat → Nat → Option Nat
  | 0, _ => none
  | n + 1, a0 => if sector (a0 + dirNm) = 0 then some a0 else freeEntry sector n (a0 + dirSz)

/-- `.createSctLoop` over the `d0` sectors from `d4` on; `pick` is what it looks for in a sector. -/
def slotSectors (pick : Sector → Option Nat) : Nat → Nat → Nat → Drv (Option Slot)
  | 0, _, _ => pure none
  | d0 + 1, d4, d5 => do
    let sector ← Drive.readSector d4
    match pick sector with
    | some a0 => pure (some ⟨d4, sector, a0, d5 + a0⟩)
    | none => slotSectors pick d0 (d4 + 1) (d5 + 512)

/-- `.createSegLoop` -/
def slotSegs (pick : Sector → Option Nat) (fd : Sector) : Nat → Nat → Nat → Drv (Option Slot)
  | 0, _, _ => pure none
  | n + 1, a3, d5 =>
    if fd.getU16 (a3 + fdslB) = 0 then pure none
    else do
      match ← slotSectors pick (fd.getU16 (a3 + fdslB)) (getU24 fd a3) d5 with
      | some slot => pure (some slot)
      | none => slotSegs pick fd n (a3 + fdslS) (d5 + 512 * fd.getU16 (a3 + fdslB))

/-- A free slot of the file `d3`, with its descriptor. Nothing asks whether it is a directory. -/
def freeSlot (d3 : Nat) : Drv (Sector × Slot) := do
  let fd ← Drive.readSector d3
  match ← slotSegs (freeEntry · 16 0) fd maxSegs fdSeg 0 with
  | none => throw (.error errDirFul)
  | some slot => pure (fd, slot)

/-- `.createNameLoop` and `.createPadLoop`: bit 7 marks the last byte of a name that is shorter than the field. -/
def nameFrom : Mem → Nat → Nat → Chars → Mem
  | m, 0, _, _ => m
  | m, n + 1, a0, a2 =>
    if endsName (cur a2) then (m.setU8 (a0 - 1) (m.getU8 (a0 - 1) ||| 0x80)).blit a0 (fun _ => 0) 0 (n + 1)
    else nameFrom (m.setU8 a0 (cur a2).toNat) n (a0 + 1) a2.tail

/-- The sector of a slot with the entry in it. -/
def Slot.entered (slot : Slot) (a2 : Chars) (d7 : Nat) : Sector :=
  (nameFrom slot.bytes 28 slot.off a2).setU32 (slot.off + dirFd) d7

/-- `.createSlotFound`: the entry goes to the slot, and a directory that ends in front of it grows. -/
def enter (d3 d7 : Nat) (a2 : Chars) (fd : Sector) (slot : Slot) : Drv Unit := do
  Drive.writeSector slot.lsn (slot.entered a2 d7)
  if fd.getU32 fdSiz < slot.pos + 32 then Drive.writeSector d3 (fd.setU32 fdSiz (slot.pos + 32)) else pure ()

/-! ### Rbf_CreateCommon -/

/-- What a call leaves in the path descriptor. -/
structure Made where
  fd : Nat
  dfd : Nat
  siz : Nat
  att : Option Nat

/-- What is to be made: a directory, or a file with the attributes in `d1`. -/
inductive Kind
  | dir
  | file (d1 : Nat)

/-- How many clusters it takes. -/
def Kind.clusters : Kind → Nat
  | dir => 2
  | file _ => 1

def Kind.make : Kind → Nat → Drv Nat
  | dir, parent => newDir parent
  | file d1, _ => newFile d1

def Kind.made : Kind → Nat → Nat → Made
  | dir, d7, d3 => ⟨d7, d3, 64, some dirAttr⟩
  | file _, d7, d3 => ⟨d7, d3, 0, none⟩

/-- The way to the slot for the new entry: the directory and the name, the new descriptor and the slot. -/
structure Place where
  d3 : Nat
  a2 : Chars
  d7 : Nat
  fd : Sector
  slot : Slot

def findPlace (kind : Kind) (c : Caller) : Drv Place := do
  let f ← parsePathCreate c
  if f.z then throw (.error errParam)
  else do
    let d7 ← kind.make f.d7
    let s ← freeSlot f.d7
    pure ⟨f.d7, f.a2, d7, s.1, s.2⟩

/-- `Rbf_CreateCommon`. -/
def createCommon (kind : Kind) (c : Caller) : Drv Made := do
  let p ← findPlace kind c
  enter p.d3 p.d7 p.a2 p.fd p.slot
  pure (kind.made p.d7 p.d3)

/-- `Rbf_Create`. -/
def create (d1 : Nat) (c : Caller) : Drv Made := createCommon (.file d1) c

/-- `Rbf_MakDir`. -/
def makDir (c : Caller) : Drv Made := createCommon .dir c

/-! ### What the allocator does to the disk -/

theorem byteLoop_lsn {buf : Sector} {lsn n a0 d5 : Nat} {found : FreeBit} (some : byteLoop buf lsn n a0 d5 = some found) :
    found.lsn = lsn := by
  rw [byteLoop_first] at some
  obtain ⟨j, _, rfl⟩ := Option.map_eq_some_iff.mp some
  rfl

theorem scanBitmap_ok {fuel bytes d7 d5 : Nat} {v v' : Drive} {r : Option (FreeBit × Sector)}
    (ran : scanBitmap fuel bytes d7 d5 v = .ok r v') :
    r = (sctLoop v.disk fuel bytes d7 d5).map (fun found => (found, v.disk found.lsn)) ∧ v'.disk = v.disk := by
  induction fuel generalizing bytes d7 d5 v with
  | zero =>
    cases ran
    exact ⟨rfl, rfl⟩
  | succ fuel ih =>
    unfold scanBitmap at ran
    unfold sctLoop
    by_cases none : bytes = 0
    · rw [if_pos none] at ran ⊢
      cases ran
      exact ⟨rfl, rfl⟩
    rw [if_neg none] at ran ⊢
    obtain ⟨buf, v1, read, ran⟩ := ran_ok ran
    obtain rfl := readSector_ok read
    have same := (readSector_reads d7).ok read
    cases found : byteLoop (v.disk d7) d7 (min 512 bytes) 0 d5 with
    | some f =>
      rw [found] at ran
      cases ran
      exact ⟨by simp [byteLoop_lsn found], same⟩
    | none =>
      rw [found] at ran
      obtain ⟨result, disk⟩ := ih ran
      exact ⟨by rw [result, same], disk.trans same⟩

/-- The bits that are clear, in the order they are searched. -/
def clearBits (disk : Disk) (d7 bytes : Nat) : List Nat := (List.range (8 * bytes)).filter (sectorsFree disk d7)

theorem clearBits_mem {disk : Disk} {d7 bytes i : Nat} :
    i ∈ clearBits disk d7 bytes ↔ i < 8 * bytes ∧ sectorsFree disk d7 i = true := by
  rw [clearBits, List.mem_filter, List.mem_range]

/-- The search comes to the first clear bit. -/
theorem sctLoop_some {disk : Disk} {fuel bytes d7 d5 : Nat} (enough : bytes ≤ 512 * fuel) {found : FreeBit}
    (some : sctLoop disk fuel bytes d7 d5 = some found) :
    ∃ i, i ∈ (clearBits disk d7 bytes).head? ∧ found = ⟨d7 + i / 4096, i % 4096 / 8, 7 - i % 8, d5 + i⟩ := by
  rw [sctLoop_first disk d7 d5 enough] at some
  obtain ⟨i, first, rfl⟩ := Option.map_eq_some_iff.mp some
  exact ⟨i, by rw [clearBits, List.head?_filter]; exact first, rfl⟩

/-- The disk with the bit `i` of the bitmap from sector `d7` on set. -/
def setBit (disk : Disk) (d7 i : Nat) : Disk :=
  disk.put (d7 + i / 4096) ((disk (d7 + i / 4096)).setU8 (i % 4096 / 8)
    ((disk (d7 + i / 4096)).getU8 (i % 4096 / 8) ||| 2 ^ (7 - i % 8)))

theorem sectorsFree_bit (disk : Disk) (d7 i : Nat) :
    sectorsFree disk d7 i = !Volume.bitAt disk (d7 + i / 4096, i % 4096 / 8, 7 - i % 8) := by
  unfold sectorsFree bitFree Volume.bitAt
  rw [Nat.zero_add, Nat.mod_mod_of_dvd i (by decide : 8 ∣ 4096)]

/-- A bit that is clear with one more set was clear before. -/
theorem setBit_free {disk : Disk} {d7 i j : Nat} (free : sectorsFree (setBit disk d7 i) d7 j = true) :
    sectorsFree disk d7 j = true := by
  rw [sectorsFree_bit, setBit, Volume.bit_set _ _ _ _ _ _ _ (by omega)] at free
  rw [sectorsFree_bit]
  split at free
  · cases free
  · exact free

/-- One bit less is clear. -/
theorem setBit_free_iff (disk : Disk) (d7 i j : Nat) :
    sectorsFree (setBit disk d7 i) d7 j = (decide (j ≠ i) && sectorsFree disk d7 j) := by
  rw [sectorsFree_bit, sectorsFree_bit, setBit, Volume.bit_set _ _ _ _ _ _ _ (by omega)]
  have place : (d7 + j / 4096, j % 4096 / 8, 7 - j % 8) = (d7 + i / 4096, i % 4096 / 8, 7 - i % 8) ↔ j = i := by
    rw [Prod.mk.injEq, Prod.mk.injEq]
    omega
  by_cases same : j = i
  · rw [if_pos (place.mpr same), decide_eq_false (not_not.mpr same)]
    rfl
  · rw [if_neg (fun here => same (place.mp here)), decide_eq_true same, Bool.true_and]

theorem clearBits_setBit {disk : Disk} {d7 bytes i : Nat} {rest : List Nat} (first : clearBits disk d7 bytes = i :: rest) :
    clearBits (setBit disk d7 i) d7 bytes = rest := by
  have all : clearBits (setBit disk d7 i) d7 bytes = (clearBits disk d7 bytes).filter (fun j => j ≠ i) := by
    unfold clearBits
    rw [List.filter_filter]
    exact List.filter_congr fun j _ => setBit_free_iff disk d7 i j
  have distinct : (i :: rest).Nodup := first ▸ List.nodup_range.filter _
  rw [all, first, List.filter_cons_of_neg (by simp)]
  refine List.filter_eq_self.mpr fun j member => decide_eq_true ?_
  rintro rfl
  exact (List.nodup_cons.mp distinct).1 member

theorem setBit_other {disk : Disk} {d7 i lsn : Nat} (other : lsn ≠ d7 + i / 4096) : setBit disk d7 i lsn = disk lsn :=
  Function.update_of_ne other _ _

theorem setBit_set (disk : Disk) (d7 i : Nat) : sectorsFree (setBit disk d7 i) d7 i = false := by
  rw [sectorsFree_bit, setBit, Volume.bit_set _ _ _ _ _ _ _ (by omega), if_pos rfl]
  rfl

theorem parseLSN0_map {m : Sector} {l : Lsn0} (valid : parseLSN0 m = some l) : 1 ≤ l.mapLsn := by
  unfold parseLSN0 at valid
  split at valid
  · cases valid
  · cases valid
    dsimp only
    split <;> omega

/-- What `Rbf_AllocCluster` hands out and does: the first clear bit of the bitmap is set, and the cluster is its number, a
word, times the sectors of a cluster. -/
structure Allocates (disk disk' : Disk) (r : Nat × Nat) (l : Lsn0) (i : Nat) : Prop where
  valid : parseLSN0 (disk 0) = some l
  first : i ∈ (clearBits disk l.mapLsn (mapBytes (disk 0))).head?
  start : r = (i % 65536 * l.bit, l.bit)
  set : disk' = setBit disk l.mapLsn i

theorem allocClusterOn_ok {v v' : Drive} {r : Nat × Nat} (ran : allocClusterOn v = .ok r v') :
    ∃ l i, Allocates v.disk v'.disk r l i := by
  obtain ⟨head, v1, read, ran⟩ := ran_ok ran
  obtain rfl := readSector_ok read
  have same := (readSector_reads 0).ok read
  cases valid : parseLSN0 (v.disk 0) with
  | none =>
    rw [valid] at ran
    cases ran
  | some l =>
    rw [valid] at ran
    obtain ⟨found, v2, scan, ran⟩ := ran_ok ran
    obtain ⟨result, same'⟩ := scanBitmap_ok scan
    rw [same] at result same'
    cases bit : sctLoop v.disk (mapBytes (v.disk 0)) (mapBytes (v.disk 0)) l.mapLsn 0 with
    | none =>
      rw [result, bit] at ran
      cases ran
    | some f =>
      obtain ⟨i, first, rfl⟩ := sctLoop_some (Nat.le_mul_of_pos_left _ (by decide)) bit
      rw [result, bit] at ran
      obtain ⟨_, v3, write, ran⟩ := ran_ok ran
      cases ran
      refine ⟨l, i, valid, first, by rw [Nat.zero_add], ?_⟩
      rw [writeSector_ok write, same']
      rfl

/-- The sectors that the next `n` allocations change or hand out: those of the bitmap, and the first ones of the
clusters. -/
def Handed (n : Nat) (disk : Disk) (lsn : Nat) : Prop :=
  ∃ l, parseLSN0 (disk 0) = some l ∧ ∃ i ∈ (clearBits disk l.mapLsn (mapBytes (disk 0))).take n,
    lsn = l.mapLsn + i / 4096 ∨ lsn = i % 65536 * l.bit

namespace Allocates
variable {disk disk' : Disk} {r : Nat × Nat} {l : Lsn0} {i : Nat} (a : Allocates disk disk' r l i)
include a

theorem clear : i < 8 * mapBytes (disk 0) ∧ sectorsFree disk l.mapLsn i = true :=
  clearBits_mem.mp (List.mem_of_mem_head? a.first)

theorem bits : ∃ rest, clearBits disk l.mapLsn (mapBytes (disk 0)) = i :: rest := List.head?_eq_some_iff.mp a.first

theorem head : disk' 0 = disk 0 := by
  have first := parseLSN0_map a.valid
  rw [a.set]
  exact setBit_other (by omega)

theorem changed (n : Nat) {lsn : Nat} (other : disk' lsn ≠ disk lsn) : Handed (n + 1) disk lsn := by
  obtain ⟨rest, bits⟩ := a.bits
  refine ⟨l, a.valid, i, by rw [bits]; exact List.mem_cons_self, .inl (by_contra fun apart => other ?_)⟩
  rw [a.set]
  exact setBit_other apart

/-- What is handed out behind this allocation is handed out one later in front of it. -/
theorem handed {n lsn : Nat} (later : Handed n disk' lsn) : Handed (n + 1) disk lsn := by
  obtain ⟨rest, bits⟩ := a.bits
  obtain ⟨l', valid, j, member, which⟩ := later
  rw [a.head] at valid member
  obtain rfl := Option.some.inj (a.valid.symm.trans valid)
  rw [a.set, clearBits_setBit bits] at member
  exact ⟨l, a.valid, j, by rw [bits]; exact List.mem_cons_of_mem _ member, which⟩

end Allocates

/-! ### The search for a slot -/

theorem slotSectors_reads (pick : Sector → Option Nat) (d0 d4 d5 : Nat) : Reads (slotSectors pick d0 d4 d5) := by
  induction d0 generalizing d4 d5 with
  | zero => exact Reads.pure none
  | succ d0 ih =>
    refine (readSector_reads d4).bind (fun sector => ?_)
    cases pick sector with
    | some a0 => exact Reads.pure _
    | none => exact ih (d4 + 1) (d5 + 512)

theorem slotSegs_reads (pick : Sector → Option Nat) (fd : Sector) (n a3 d5 : Nat) : Reads (slotSegs pick fd n a3 d5) := by
  induction n generalizing a3 d5 with
  | zero => exact Reads.pure none
  | succ n ih =>
    unfold slotSegs
    split
    · exact Reads.pure none
    · refine (slotSectors_reads pick _ _ _).bind (fun found => ?_)
      cases found with
      | some slot => exact Reads.pure _
      | none => exact ih _ _

theorem freeSlot_reads (d3 : Nat) : Reads (freeSlot d3) := by
  refine (readSector_reads d3).bind (fun fd => ?_)
  refine (slotSegs_reads _ fd _ _ _).bind (fun found => ?_)
  cases found with
  | none => exact Reads.throw _
  | some slot => exact Reads.pure _

/-- The slots that a search comes to are in the sectors of the directory. -/
theorem slotSectors_lsn {pick : Sector → Option Nat} {d0 d4 d5 : Nat} {v v' : Drive} {slot : Slot}
    (ran : slotSectors pick d0 d4 d5 v = .ok (some slot) v') : slot.lsn ∈ (List.range d0).map (d4 + ·) := by
  induction d0 generalizing d4 d5 v with
  | zero => cases ran
  | succ d0 ih =>
    obtain ⟨sector, v1, _, ran⟩ := ran_ok ran
    rw [List.range_succ_eq_map, List.map_cons, List.map_map]
    cases found : pick sector with
    | some a0 =>
      rw [found] at ran
      cases ran
      exact List.mem_cons_self
    | none =>
      rw [found] at ran
      obtain ⟨k, inside, same⟩ := List.mem_map.mp (ih ran)
      refine List.mem_cons_of_mem _ (List.mem_map.mpr ⟨k, inside, ?_⟩)
      rw [← same, Function.comp_apply]
      omega

theorem slotSegs_lsn {pick : Sector → Option Nat} {fd : Sector} {n a3 d5 : Nat} {v v' : Drive} {slot : Slot}
    (ran : slotSegs pick fd n a3 d5 v = .ok (some slot) v') : slot.lsn ∈ tableFrom fd n a3 := by
  induction n generalizing a3 d5 v with
  | zero => cases ran
  | succ n ih =>
    unfold slotSegs at ran
    unfold tableFrom
    split at ran
    · cases ran
    · next some =>
      rw [if_neg some]
      obtain ⟨found, v1, scan, ran⟩ := ran_ok ran
      cases found with
      | some slot' =>
        cases ran
        exact List.mem_append_left _ (slotSectors_lsn scan)
      | none => exact List.mem_append_right _ (ih ran)

end Q9OS.Rbf

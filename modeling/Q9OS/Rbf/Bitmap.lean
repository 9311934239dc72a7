import Mathlib.Tactic
import Mathlib.Data.List.Find
import Mathlib.Data.Nat.Bitwise
import Q9OS.Rbf.Write

/-!
# The bitmap of a volume

`Rbf_AllocCluster` looks through the bitmap bit by bit, byte by byte and sector
by sector. Together that is one search for the first free cluster.
-/

namespace Q9OS.Rbf

/-! ### Searches -/

/-- The place of the first number below `n` that `p` holds of. -/
def firstOf {β : Type} (p : Nat → Bool) (place : Nat → β) (n : Nat) : Option β := ((List.range n).find? p).map place

section
variable {β : Type} {p q : Nat → Bool} {f g : Nat → β}

/-- A search is one over the front and then one over the rest. -/
theorem firstOf_add (p : Nat → Bool) (f : Nat → β) (m n : Nat) :
    firstOf p f (m + n) = (firstOf p f m).or (firstOf (fun j => p (m + j)) (fun j => f (m + j)) n) := by
  unfold firstOf
  rw [List.range_add, List.find?_append, Option.map_or, List.find?_map, Option.map_map]
  rfl

theorem firstOf_none (full : ∀ j < n, p j = false) (f : Nat → β) : firstOf p f n = none := by
  unfold firstOf
  rw [List.find?_eq_none.mpr (fun j member => by simp [full j (List.mem_range.mp member)])]
  rfl

theorem firstOf_congr (n : Nat) (same : ∀ j < n, p j = q j) (place : ∀ j < n, f j = g j) : firstOf p f n = firstOf q g n := by
  unfold firstOf
  rw [List.find?_congr (fun j member => same j (List.mem_range.mp member))]
  cases found : (List.range n).find? q with
  | none => rfl
  | some j => exact congrArg some (place j (List.mem_range.mp (List.mem_of_find?_eq_some found)))

end

/-! ### The scan -/

/-- The highest clear bit is the first one from the top. -/
theorem bitLoop_first (byte n d5 : Nat) :
    bitLoop byte n d5 = firstOf (fun k => !byte.testBit (n - 1 - k)) (fun k => (n - 1 - k, d5 + k)) n := by
  induction n generalizing d5 with
  | zero => rfl
  | succ n ih =>
    rw [bitLoop, Nat.add_comm n 1, firstOf_add, ih]
    have top : firstOf (fun k => !byte.testBit (1 + n - 1 - k)) (fun k => (1 + n - 1 - k, d5 + k)) 1 =
        if byte.testBit n then none else some (n, d5) := by
      unfold firstOf
      by_cases set : byte.testBit n = true <;> simp [List.range_succ, set]
    rw [top]
    split
    · refine (firstOf_congr n (fun k _ => ?_) (fun k _ => ?_)).trans Option.none_or.symm
      · rw [show 1 + n - 1 - (1 + k) = n - 1 - k by omega]
      · rw [show 1 + n - 1 - (1 + k) = n - 1 - k by omega, Nat.add_assoc]
    · rfl

/-- The bit `j` behind the byte at `a0`, counted from the top of each byte. -/
def bitFree (buf : Sector) (a0 j : Nat) : Bool := !(buf.getU8 (a0 + j / 8)).testBit (7 - j % 8)

theorem testBit_full {k : Nat} (low : k < 8) : (0xFF : Nat).testBit k = true := by
  interval_cases k <;> rfl

theorem byteLoop_first (buf : Sector) (lsn n a0 d5 : Nat) :
    byteLoop buf lsn n a0 d5 = firstOf (bitFree buf a0) (fun j => ⟨lsn, a0 + j / 8, 7 - j % 8, d5 + j⟩) (8 * n) := by
  induction n generalizing a0 d5 with
  | zero => rfl
  | succ n ih =>
    have later : byteLoop buf lsn n (a0 + 1) (d5 + 8) = firstOf (fun j => bitFree buf a0 (8 + j))
        (fun j => (⟨lsn, a0 + (8 + j) / 8, 7 - (8 + j) % 8, d5 + (8 + j)⟩ : FreeBit)) (8 * n) := by
      rw [ih]
      refine firstOf_congr _ (fun j _ => ?_) (fun j _ => ?_)
      · unfold bitFree
        rw [show a0 + (8 + j) / 8 = a0 + 1 + j / 8 by omega, show (8 + j) % 8 = j % 8 by omega]
      · rw [show a0 + (8 + j) / 8 = a0 + 1 + j / 8 by omega, show (8 + j) % 8 = j % 8 by omega, Nat.add_assoc d5 8 j]
    have first : (bitLoop (buf.getU8 a0) 8 d5).map (fun found => (⟨lsn, a0, found.1, found.2⟩ : FreeBit)) =
        firstOf (bitFree buf a0) (fun j => ⟨lsn, a0 + j / 8, 7 - j % 8, d5 + j⟩) 8 := by
      rw [bitLoop_first]
      unfold firstOf
      rw [Option.map_map]
      refine firstOf_congr 8 (fun j low => ?_) (fun j low => ?_)
      · unfold bitFree
        rw [show a0 + j / 8 = a0 by omega, show j % 8 = j by omega]
      · rw [Function.comp_apply, show a0 + j / 8 = a0 by omega, show j % 8 = j by omega]
    rw [byteLoop, show 8 * (n + 1) = 8 + 8 * n by omega, firstOf_add, ← first, ← later]
    split
    · next full =>
      have none : bitLoop (buf.getU8 a0) 8 d5 = none := by
        rw [bitLoop_first, full]
        exact firstOf_none (fun j low => by rw [testBit_full (by omega)]; rfl) _
      rw [none]
      rfl
    · cases bitLoop (buf.getU8 a0) 8 d5 with
      | none => rfl
      | some found => rfl

/-- Whether the bit `i` of the bitmap that starts at sector `d7` is clear. -/
def sectorsFree (disk : Disk) (d7 i : Nat) : Bool := bitFree (disk (d7 + i / 4096)) 0 (i % 4096)

theorem sctLoop_first (disk : Disk) {fuel bytes : Nat} (d7 d5 : Nat) (enough : bytes ≤ 512 * fuel) :
    sctLoop disk fuel bytes d7 d5 = firstOf (sectorsFree disk d7)
      (fun i => ⟨d7 + i / 4096, i % 4096 / 8, 7 - i % 8, d5 + i⟩) (8 * bytes) := by
  induction fuel generalizing bytes d7 d5 with
  | zero =>
    rw [show bytes = 0 by omega]
    rfl
  | succ fuel ih =>
    rw [sctLoop]
    by_cases none : bytes = 0
    · rw [if_pos none, none]
      rfl
    rw [if_neg none, byteLoop_first]
    have first : firstOf (bitFree (disk d7) 0) (fun j => (⟨d7, 0 + j / 8, 7 - j % 8, d5 + j⟩ : FreeBit)) (8 * min 512 bytes) =
        firstOf (sectorsFree disk d7) (fun i => ⟨d7 + i / 4096, i % 4096 / 8, 7 - i % 8, d5 + i⟩) (8 * min 512 bytes) := by
      refine firstOf_congr _ (fun j low => ?_) (fun j low => ?_)
      · unfold sectorsFree
        rw [show d7 + j / 4096 = d7 by omega, show j % 4096 = j by omega]
      · rw [show d7 + j / 4096 = d7 by omega, show j % 4096 = j by omega, Nat.zero_add]
    rw [first, show 8 * bytes = 8 * min 512 bytes + 8 * (bytes - min 512 bytes) by omega, firstOf_add,
      ih (d7 + 1) (d5 + 8 * min 512 bytes) (by omega)]
    have later : firstOf (sectorsFree disk (d7 + 1))
        (fun i => (⟨d7 + 1 + i / 4096, i % 4096 / 8, 7 - i % 8, d5 + 8 * min 512 bytes + i⟩ : FreeBit)) (8 * (bytes - min 512 bytes)) =
        firstOf (fun i => sectorsFree disk d7 (8 * min 512 bytes + i))
          (fun i => ⟨d7 + (8 * min 512 bytes + i) / 4096, (8 * min 512 bytes + i) % 4096 / 8, 7 - (8 * min 512 bytes + i) % 8,
            d5 + (8 * min 512 bytes + i)⟩) (8 * (bytes - min 512 bytes)) := by
      refine firstOf_congr _ (fun i low => ?_) (fun i low => ?_)
      -- more than this sector is left only when it has 512 bytes of the bitmap
      · unfold sectorsFree
        rw [show d7 + (8 * min 512 bytes + i) / 4096 = d7 + 1 + i / 4096 by omega,
          show (8 * min 512 bytes + i) % 4096 = i % 4096 by omega]
      · rw [show d7 + (8 * min 512 bytes + i) / 4096 = d7 + 1 + i / 4096 by omega,
          show (8 * min 512 bytes + i) % 4096 = i % 4096 by omega, show (8 * min 512 bytes + i) % 8 = i % 8 by omega,
          Nat.add_assoc d5 (8 * min 512 bytes) i]
    rw [later]
    cases firstOf (sectorsFree disk d7) (fun i => (⟨d7 + i / 4096, i % 4096 / 8, 7 - i % 8, d5 + i⟩ : FreeBit))
      (8 * min 512 bytes) with
    | none => rfl
    | some found => rfl

/-! ### First fit -/

/-- A volume: sector 0 is valid, and names the bytes of the bitmap and the sectors of a cluster. -/
structure Volume where
  disk : Disk
  lsn0 : Lsn0
  valid : parseLSN0 (disk 0) = some lsn0
  map : 1 ≤ (disk 0).getU16 ddMap
  bit : 1 ≤ lsn0.bit

namespace Volume

/-- How many clusters the bitmap has. -/
def clusters (v : Volume) : Nat := 8 * (v.disk 0).getU16 ddMap

/-- The sector, the byte and the bit for a cluster. -/
def spot (v : Volume) (i : Nat) : Nat × Nat × Nat := (v.lsn0.mapLsn + i / 4096, i % 4096 / 8, 7 - i % 8)

def bitAt (disk : Disk) (spot : Nat × Nat × Nat) : Bool := ((disk spot.1).getU8 spot.2.1).testBit spot.2.2

/-- The lowest cluster whose bit is 0. -/
structure LowestFree (v : Volume) (i : Nat) : Prop where
  inside : i < v.clusters
  free : bitAt v.disk (v.spot i) = false
  lowest : ∀ j < i, bitAt v.disk (v.spot j) = true

/-- Disk full when no bit is 0; else the start of the lowest free cluster, whose bit is set and nothing more. -/
def FirstFit (v : Volume) : Except Nat (Disk × Nat × Nat) → Prop
  | .error code => code = errDkFul ∧ ∀ i < v.clusters, bitAt v.disk (v.spot i) = true
  | .ok (disk', start, _) => ∃ i, v.LowestFree i ∧ start = i * v.lsn0.bit ∧
      ∀ lsn off bit, bit < 8 →
        bitAt disk' (lsn, off, bit) = if (lsn, off, bit) = v.spot i then true else bitAt v.disk (lsn, off, bit)

theorem bit_set (disk : Disk) (lsn off bit lsn' off' bit' : Nat) (low : bit < 8) :
    bitAt (disk.put lsn ((disk lsn).setU8 off ((disk lsn).getU8 off ||| 2 ^ bit))) (lsn', off', bit') =
      if (lsn', off', bit') = (lsn, off, bit) then true else bitAt disk (lsn', off', bit') := by
  unfold bitAt Disk.put
  by_cases sector : lsn' = lsn
  · subst sector
    rw [Function.update_self]
    by_cases byte : off' = off
    · subst byte
      have small : (disk lsn').getU8 off' ||| 2 ^ bit < 256 :=
        Nat.or_lt_two_pow (n := 8) ((disk lsn').getU8_lt off') (Nat.pow_lt_pow_right (by omega) low)
      rw [Mem.getU8_setU8, Nat.mod_eq_of_lt small, Nat.testBit_or, Nat.testBit_two_pow]
      by_cases here : bit' = bit
      · simp [here]
      · simp [here, Ne.symm here]
    · have apart : off' + 1 ≤ off ∨ off + 1 ≤ off' := by omega
      rw [Mem.getU8_setU8_apart _ _ apart, if_neg (by simp [byte])]
  · rw [Function.update_of_ne sector, if_neg (by simp [sector])]

/-- The disk with the bit of cluster `i` set. -/
def taken (v : Volume) (i : Nat) : Disk :=
  v.disk.put (v.spot i).1 ((v.disk (v.spot i).1).setU8 (v.spot i).2.1
    ((v.disk (v.spot i).1).getU8 (v.spot i).2.1 ||| 2 ^ (v.spot i).2.2))

theorem scan_eq (v : Volume) : sctLoop v.disk (mapBytes (v.disk 0)) (mapBytes (v.disk 0)) v.lsn0.mapLsn 0 =
    firstOf (sectorsFree v.disk v.lsn0.mapLsn) (fun i => ⟨v.lsn0.mapLsn + i / 4096, i % 4096 / 8, 7 - i % 8, 0 + i⟩)
      v.clusters := by
  have map := v.map
  have bytes : mapBytes (v.disk 0) = (v.disk 0).getU16 ddMap := if_neg (by omega)
  rw [bytes]
  exact sctLoop_first v.disk v.lsn0.mapLsn 0 (Nat.le_mul_of_pos_left _ (by decide))

theorem allocCluster_full (v : Volume) (search : firstOf (sectorsFree v.disk v.lsn0.mapLsn) id v.clusters = none) :
    allocCluster v.disk = .error errDkFul := by
  have scan := scan_eq v
  unfold firstOf at search scan
  rw [Option.map_eq_none_iff.mp search, Option.map_none] at scan
  rw [allocCluster, v.valid]
  dsimp only
  rw [scan]

/-- The search finds a cluster, and the start of it takes the lower word of its number. -/
theorem allocCluster_found (v : Volume) {i : Nat}
    (search : firstOf (sectorsFree v.disk v.lsn0.mapLsn) id v.clusters = some i) :
    allocCluster v.disk = .ok (v.taken i, i % 65536 * v.lsn0.bit, v.lsn0.bit) := by
  have scan := scan_eq v
  unfold firstOf at search scan
  rw [Option.map_id, id] at search
  rw [search, Option.map_some, Nat.zero_add] at scan
  rw [allocCluster, v.valid]
  dsimp only
  rw [scan]
  rfl

theorem sectorsFree_spot (v : Volume) (i : Nat) : sectorsFree v.disk v.lsn0.mapLsn i = !bitAt v.disk (v.spot i) := by
  unfold sectorsFree bitFree bitAt spot
  rw [Nat.zero_add, Nat.mod_mod_of_dvd i (by decide : 8 ∣ 4096)]

theorem LowestFree.unique {v : Volume} {i j : Nat} (first : v.LowestFree i) (second : v.LowestFree j) : i = j := by
  rcases Nat.lt_trichotomy i j with before | same | behind
  · exact absurd (second.lowest i before) (by simp [first.free])
  · exact same
  · exact absurd (first.lowest j behind) (by simp [second.free])

theorem search_none {v : Volume} (search : firstOf (sectorsFree v.disk v.lsn0.mapLsn) id v.clusters = none) :
    ∀ i < v.clusters, bitAt v.disk (v.spot i) = true := by
  unfold firstOf at search
  rw [Option.map_id, id] at search
  intro i inside
  have set := List.find?_eq_none.mp search i (List.mem_range.mpr inside)
  rw [sectorsFree_spot] at set
  simpa using set

theorem search_some {v : Volume} {i : Nat} (search : firstOf (sectorsFree v.disk v.lsn0.mapLsn) id v.clusters = some i) :
    v.LowestFree i := by
  unfold firstOf at search
  rw [Option.map_id, id, List.find?_range_eq_some] at search
  obtain ⟨free, inside, lower⟩ := search
  refine ⟨List.mem_range.mp inside, ?_, fun j before => ?_⟩
  · rw [sectorsFree_spot] at free
    simpa using free
  · have set := lower j before
    rw [sectorsFree_spot] at set
    simpa using set

/-- `Rbf_AllocCluster` is first fit as long as the number of the lowest free cluster is a word. -/
theorem allocCluster_firstFit (v : Volume) :
    v.FirstFit (allocCluster v.disk) ↔ ∀ i, v.LowestFree i → i < 65536 := by
  have bit := v.bit
  cases search : firstOf (sectorsFree v.disk v.lsn0.mapLsn) id v.clusters with
  | none =>
    rw [allocCluster_full v search]
    have full := search_none search
    refine iff_of_true ⟨rfl, full⟩ (fun i lowest => ?_)
    exact absurd (full i lowest.inside) (by simp [lowest.free])
  | some i =>
    rw [allocCluster_found v search]
    have lowest := search_some search
    constructor
    · rintro ⟨j, other, start, -⟩ k third
      obtain rfl := lowest.unique other
      obtain rfl := lowest.unique third
      have word := Nat.eq_of_mul_eq_mul_right bit start
      omega
    · intro word
      refine ⟨i, lowest, ?_, fun lsn off bit' _ => ?_⟩
      · rw [Nat.mod_eq_of_lt (word i lowest)]
      · exact bit_set v.disk _ _ _ lsn off bit' (by unfold spot; dsimp only; omega)

/-- Sector 0 of a volume of 65544 sectors, each a cluster, with a bitmap of 8193 bytes from sector 1 on. -/
def headSector : Sector := fun x =>
  if x = 0 then 1 else if x = 2 then 8 else if x = 4 then 0x20 else if x = 5 then 1 else if x = 7 then 1 else 0

/-- Only the last byte of the bitmap has clear bits. -/
def nearlyFullDisk : Disk
  | 0 => headSector
  | n => fun _ => if n ≤ 16 then 0xFF else 0

def nearlyFull : Volume where
  disk := nearlyFullDisk
  lsn0 := { tot := 65544, lsnSize := 512, dir := 0, mapLsn := 1, bit := 1 }
  valid := by
    have tot : getU24 headSector ddTot = 65544 := by decide
    have size : headSector.getU16 ddLsnSize = 0 := by decide
    have dir : getU24 headSector ddDir = 0 := by decide
    have map : headSector.getU32 ddMapLsn = 0 := by decide
    have bit : headSector.getU16 ddBit = 1 := by decide
    show parseLSN0 headSector = _
    unfold parseLSN0
    rw [tot, size, dir, map, bit, if_neg (by decide)]
    rfl
  map := by decide
  bit := by decide

/-- The first 65536 clusters are taken, and the next one is said to start at sector 0. -/
theorem nearlyFull_start : ¬ nearlyFull.FirstFit (allocCluster nearlyFull.disk) := by
  have lowest : nearlyFull.LowestFree 65536 := by
    refine ⟨by decide, by decide, fun j before => ?_⟩
    have sector : nearlyFull.disk (nearlyFull.spot j).1 = fun _ => 0xFF := by
      show nearlyFull.disk (1 + j / 4096) = _
      rw [Nat.add_comm]
      show (fun _ => if j / 4096 + 1 ≤ 16 then 0xFF else 0) = _
      rw [if_pos (by omega)]
    unfold bitAt
    rw [sector]
    exact testBit_full (by unfold spot; dsimp only; omega)
  have search : firstOf (sectorsFree nearlyFull.disk nearlyFull.lsn0.mapLsn) id nearlyFull.clusters = some 65536 := by
    cases found : firstOf (sectorsFree nearlyFull.disk nearlyFull.lsn0.mapLsn) id nearlyFull.clusters with
    | none => exact absurd (search_none found 65536 lowest.inside) (by simp [lowest.free])
    | some i => rw [(search_some found).unique lowest]
  rw [allocCluster_found nearlyFull search]
  rintro ⟨i, other, start, -⟩
  obtain rfl := lowest.unique other
  exact absurd start (by decide)

end Volume

end Q9OS.Rbf

import Mathlib.Tactic
import Q9OS.Rbf.File

/-!
# Writing to a file and reading it back

The sectors of a file in the order of its segments, what a write does to them
and what a read finds there.
-/

namespace Q9OS.Rbf

/-! ### The sectors of a file -/

/-- The sectors the segment entries from `a1` on name, `n` entries at most. -/
def sectorsFrom (fd : Sector) : Nat → Nat → List Nat
  | 0, _ => []
  | n + 1, a1 =>
    if getU24 fd a1 = 0 ∧ fd.getU16 (a1 + fdslB) = 0 then []
    else (List.range (fd.getU16 (a1 + fdslB))).map (getU24 fd a1 + ·) ++ sectorsFrom fd n (a1 + fdslS)

def sectors (fd : Sector) : List Nat := sectorsFrom fd maxSegs fdSeg

/-- No segment of 32768 or more sectors lies wholly in front of the sector with this number. -/
def ShortBefore (fd : Sector) : Nat → Nat → Nat → Prop
  | 0, _, _ => True
  | n + 1, a1, index =>
    (getU24 fd a1 = 0 ∧ fd.getU16 (a1 + fdslB) = 0) ∨ index < fd.getU16 (a1 + fdslB) ∨
      (fd.getU16 (a1 + fdslB) < 32768 ∧ ShortBefore fd n (a1 + fdslS) (index - fd.getU16 (a1 + fdslB)))

theorem ShortBefore.mono {fd : Sector} {n a1 index index' : Nat} (short : ShortBefore fd n a1 index')
    (le : index ≤ index') : ShortBefore fd n a1 index := by
  induction n generalizing a1 index index' with
  | zero => trivial
  | succ n ih =>
    obtain none | inside | ⟨small, rest⟩ := short
    · exact .inl none
    · exact .inr (.inl (by omega))
    · exact .inr (.inr ⟨small, ih rest (by omega)⟩)

theorem extL_zero {w : Nat} (small : w < 65536) : extL w = 0 ↔ w = 0 := by
  unfold extL
  split <;> omega

theorem getU24_lt (m : Mem) (a : Nat) : getU24 m a < 16777216 := by
  have high := m.getU8_lt a
  have low := m.getU16_lt (a + 1)
  unfold getU24
  omega

/-- The walk over the segments finds the sector with the number. -/
theorem mapLoop_sectors {fd : Sector} {n a1 index : Nat} (short : ShortBefore fd n a1 index) (small : index < 65536) :
    mapLoop fd n a1 index = (sectorsFrom fd n a1)[index]? := by
  induction n generalizing a1 index with
  | zero => rfl
  | succ n ih =>
    have count := fd.getU16_lt (a1 + fdslB)
    have start := getU24_lt fd a1
    have same := extL_zero count
    rw [mapLoop, sectorsFrom]
    by_cases none : getU24 fd a1 = 0 ∧ fd.getU16 (a1 + fdslB) = 0
    · rw [if_pos ⟨none.1, same.mpr none.2⟩, if_pos none]
      rfl
    rw [if_neg (fun both => none ⟨both.1, same.mp both.2⟩), if_neg none]
    by_cases inside : index < fd.getU16 (a1 + fdslB)
    · have below : index < extL (fd.getU16 (a1 + fdslB)) := by
        unfold extL
        split <;> omega
      have sum : add32 (getU24 fd a1) index = getU24 fd a1 + index := by
        unfold add32
        exact Nat.mod_eq_of_lt (by omega)
      rw [if_pos below, sum, List.getElem?_append_left (by simpa using inside)]
      simp [inside]
    · obtain empty | here | ⟨few, rest⟩ := short
      · exact absurd empty none
      · exact absurd here inside
      · have same : extL (fd.getU16 (a1 + fdslB)) = fd.getU16 (a1 + fdslB) := if_pos few
        rw [same, if_neg inside, ih rest (by omega), List.getElem?_append_right (by simpa using inside)]
        simp

theorem mapOffsetToLSN_sectors {fd : Sector} {off size : Nat}
    (short : ShortBefore fd maxSegs fdSeg (off / size)) (small : off / size < 65536) (inside : off < fd.getU32 fdSiz) :
    mapOffsetToLSN fd off size = ((sectors fd)[off / size]?).map (fun lsn => (lsn, off % size)) := by
  unfold mapOffsetToLSN divu
  rw [if_neg (by omega), if_pos small]
  dsimp only
  rw [mapLoop_sectors short small]
  rfl

/-! ### Files -/

/-- An open file: no sector of it is named twice or is its descriptor, and its size lies within
its segments. -/
structure WellFormed (disk : Disk) (p : Path) : Prop where
  big : 256 ≤ p.size
  fits : p.size ≤ 512
  nodup : (sectors (disk p.fd)).Nodup
  apart : p.fd ∉ sectors (disk p.fd)
  covers : (disk p.fd).getU32 fdSiz ≤ p.size * (sectors (disk p.fd)).length

/-- After the first `k` bytes of a write at `cp`. -/
structure Written (disk disk' : Disk) (list : List Nat) (size cp : Nat) (user : Mem) (a0 k : Nat) : Prop where
  bytes : ∀ off lsn, list[off / size]? = some lsn →
    disk' lsn (off % size) = if cp ≤ off ∧ off < cp + k then user (a0 + (off - cp)) else disk lsn (off % size)
  others : ∀ lsn, lsn ∉ list → disk' lsn = disk lsn

theorem Written.zero (disk : Disk) (list : List Nat) (size cp : Nat) (user : Mem) (a0 : Nat) :
    Written disk disk list size cp user a0 0 := by
  refine ⟨?_, fun _ _ => rfl⟩
  intro off lsn _
  rw [if_neg (by omega)]

theorem within_sector {q j size : Nat} (room : q % size + j < size) :
    (q + j) / size = q / size ∧ (q + j) % size = q % size + j := by
  have split := Nat.div_add_mod q size
  have whole : q + j = size * (q / size) + (q % size + j) := by omega
  constructor
  · rw [whole, Nat.mul_add_div (by omega), Nat.div_eq_of_lt room, Nat.add_zero]
  · rw [whole, Nat.mul_add_mod, Nat.mod_eq_of_lt room]

theorem next_sector {q size : Nat} (positive : 0 < size) :
    (q + (size - q % size)) / size = q / size + 1 ∧ (q + (size - q % size)) % size = 0 := by
  have split := Nat.div_add_mod q size
  have below := Nat.mod_lt q positive
  have whole : q + (size - q % size) = size * (q / size + 1) := by
    rw [Nat.mul_add]
    omega
  rw [whole]
  exact ⟨Nat.mul_div_cancel_left _ positive, Nat.mul_mod_right _ _⟩

/-- The next `n` bytes, all in the sector of `cp + k`. -/
theorem Written.more {disk disk' : Disk} {list : List Nat} {size cp : Nat} {user : Mem} {a0 k lsn n : Nat}
    (written : Written disk disk' list size cp user a0 k) (nodup : list.Nodup)
    (here : list[(cp + k) / size]? = some lsn) (positive : 0 < size) (room : n ≤ size - (cp + k) % size) :
    Written disk (disk'.put lsn ((disk' lsn).blit ((cp + k) % size) user (a0 + k) n)) list size cp user a0 (k + n) := by
  have below := Nat.mod_lt (cp + k) positive
  refine ⟨?_, ?_⟩
  · intro off lsn' named
    by_cases same : lsn' = lsn
    · subst same
      -- a sector that is named twice would have two numbers
      have number : off / size = (cp + k) / size := by
        have inside := (List.getElem?_eq_some_iff.mp named).1
        exact (List.getElem?_inj inside nodup).mp (named.trans here.symm)
      have offSplit := Nat.div_add_mod off size
      have split := Nat.div_add_mod (cp + k) size
      rw [number] at offSplit
      unfold Disk.put
      rw [Function.update_self]
      unfold Mem.blit
      by_cases new : cp + k ≤ off ∧ off < cp + k + n
      · rw [if_pos ⟨by omega, by omega⟩, if_pos ⟨by omega, by omega⟩]
        congr 1
        omega
      · rw [if_neg (by omega), written.bytes off lsn' named]
        by_cases old : cp ≤ off ∧ off < cp + k
        · rw [if_pos old, if_pos ⟨old.1, by omega⟩]
        · rw [if_neg old, if_neg (by omega)]
    · have apart : ¬ (cp + k ≤ off ∧ off < cp + k + n) := by
        rintro ⟨low, high⟩
        obtain ⟨j, rfl⟩ := Nat.exists_eq_add_of_le low
        have number : (cp + k + j) / size = (cp + k) / size := (within_sector (by omega)).1
        rw [number, here] at named
        exact same (Option.some.inj named).symm
      unfold Disk.put
      rw [Function.update_of_ne same, written.bytes off lsn' named]
      by_cases old : cp ≤ off ∧ off < cp + k
      · rw [if_pos old, if_pos ⟨old.1, by omega⟩]
      · rw [if_neg old, if_neg (by omega)]
  · intro lsn' outside
    have other : lsn' ≠ lsn := by
      rintro rfl
      exact outside (List.mem_of_getElem? here)
    unfold Disk.put
    rw [Function.update_of_ne other, written.others lsn' outside]

/-! ### The write loop -/

theorem roomFrom_eq {size d3 : Nat} (fits : size ≤ 512) (inside : d3 < size) : roomFrom size d3 = size - d3 := by
  unfold roomFrom
  omega

theorem findFreeSeg_le {fd : Sector} {n a3 found : Nat} (some : findFreeSeg fd n a3 = some found) : a3 ≤ found := by
  induction n generalizing a3 with
  | zero => cases some
  | succ n ih =>
    rw [findFreeSeg] at some
    split at some
    · cases some
      exact le_refl _
    · have later := ih some
      unfold fdslS at later
      omega

/-- A new segment leaves the size alone. -/
theorem appended_size (fd : Sector) {a3 : Nat} (behind : fdSeg ≤ a3) (d2 d4 : Nat) :
    ((setU24 fd a3 d2).setU16 (a3 + fdslB) d4).getU32 fdSiz = fd.getU32 fdSiz := by
  unfold fdSeg at behind
  unfold setU24 fdSiz fdslB
  rw [Mem.getU32_setU16_apart _ _ (by omega), Mem.getU32_setU8_apart _ _ (by omega),
    Mem.getU32_setU8_apart _ _ (by omega), Mem.getU32_setU8_apart _ _ (by omega)]

theorem mapOffsetToLSN_end {fd : Sector} {off : Nat} (beyond : fd.getU32 fdSiz ≤ off) (size : Nat) :
    mapOffsetToLSN fd off size = none := if_pos beyond

theorem append_ok {w w' : Wr} {d2 d4 : Nat} (made : w.append d2 d4 = .ok w') :
    w'.fd.getU32 fdSiz = w.fd.getU32 fdSiz ∧ w'.d5 = w.d5 := by
  cases free : findFreeSeg w.fd maxSegs fdSeg with
  | none =>
    rw [Wr.append, free] at made
    cases made
  | some a3 =>
    rw [Wr.append, free] at made
    cases made
    exact ⟨appended_size w.fd (findFreeSeg_le free) d2 d4, rfl⟩

theorem extend_ok {w w' : Wr} (made : w.extend = .ok w') :
    w'.fd.getU32 fdSiz = w.fd.getU32 fdSiz ∧ w'.d5 = w.d5 := by
  cases cluster : allocCluster w.disk with
  | error code =>
    rw [Wr.extend, cluster] at made
    cases made
  | ok taken =>
    obtain ⟨disk, d2, d4⟩ := taken
    rw [Wr.extend, cluster] at made
    obtain ⟨size, position⟩ := append_ok made
    exact ⟨size, position⟩

theorem find_end {w : Wr} (beyond : w.fd.getU32 fdSiz ≤ w.d5) (size : Nat) : w.find size = none := by
  rw [Wr.find, mapOffsetToLSN_end beyond, Option.map_none]

/-- At the end of the file a new segment does not help: the size still says that it ends here. -/
theorem place_end {w : Wr} (beyond : w.fd.getU32 fdSiz ≤ w.d5) (size : Nat) : ∃ e, w.place size = .error e := by
  rw [Wr.place, find_end beyond, Option.elim_none]
  cases made : w.extend with
  | error e => exact ⟨e, rfl⟩
  | ok w' =>
    obtain ⟨same, position⟩ := extend_ok made
    have still : w'.find size = none := find_end (by rw [same, position]; exact beyond) size
    have bound : ∀ f : Wr → Except (Nat × Wr) (Wr × Nat × Nat), (Except.ok w' : Except (Nat × Wr) Wr).bind f = f w' :=
      fun _ => rfl
    rw [bound, still]
    exact ⟨_, rfl⟩

section Loop
variable {disk : Disk} {p : Path} {user : Mem} {a0 n : Nat}

/-- The number of the sector with the last byte. -/
def lastSector (p : Path) (n : Nat) : Nat := (p.cp + n - 1) / p.size

/-- Where the segment walk finds the sectors of a write. -/
structure Mapped (disk : Disk) (p : Path) (n : Nat) : Prop where
  small : lastSector p n < 65536
  short : ShortBefore (disk p.fd) maxSegs fdSeg (lastSector p n)

/-- The loop at the byte with number `k`, which is the first or starts a sector. -/
structure At (disk : Disk) (p : Path) (user : Mem) (a0 n k : Nat) (w : Wr) : Prop where
  le : k ≤ n
  aligned : k = 0 ∨ k = n ∨ (p.cp + k) % p.size = 0
  written : Written disk w.disk (sectors (disk p.fd)) p.size p.cp user a0 k
  fd : w.fd = disk p.fd
  d4 : w.d4 = n - k
  d5 : w.d5 = p.cp + k
  d7 : w.d7 = k
  a2 : w.a2 = a0 + k

/-- Before the last byte every sector has a number up to the last. -/
theorem number_le {k : Nat} (p : Path) (before : k < n) : (p.cp + k) / p.size ≤ lastSector p n :=
  Nat.div_le_div_right (by omega)

theorem place_inside (wf : WellFormed disk p) (mapped : Mapped disk p n) {k : Nat} {w : Wr}
    (here : At disk p user a0 n k w) (before : k < n) (inside : p.cp + k < (disk p.fd).getU32 fdSiz) :
    ∃ lsn, (sectors (disk p.fd))[(p.cp + k) / p.size]? = some lsn ∧
      w.place p.size = .ok (w, lsn, (p.cp + k) % p.size) := by
  have number := number_le p before
  have listed : (p.cp + k) / p.size < (sectors (disk p.fd)).length := by
    have covers := wf.covers
    exact Nat.div_lt_of_lt_mul (by omega)
  refine ⟨_, List.getElem?_eq_getElem listed, ?_⟩
  have found := mapOffsetToLSN_sectors (mapped.short.mono number) (by have := mapped.small; omega) inside
  rw [Wr.place, Wr.find, here.fd, here.d5, found, List.getElem?_eq_getElem listed]
  rfl

theorem Mapped.total (wf : WellFormed disk p) (mapped : Mapped disk p n) : p.cp + n < 4294967296 := by
  have fits := wf.fits
  have big := wf.big
  have small := mapped.small
  unfold lastSector at small
  rw [Nat.div_lt_iff_lt_mul (by omega)] at small
  have bound : 65536 * p.size ≤ 65536 * 512 := Nat.mul_le_mul_left _ fits
  omega

/-- One round of the loop. The last one starts in the last sector. -/
theorem At.round (wf : WellFormed disk p) (mapped : Mapped disk p n) {k : Nat} {w : Wr}
    (here : At disk p user a0 n k w) (before : k < n) (inside : p.cp + k < (disk p.fd).getU32 fdSiz) (fuel : Nat) :
    ∃ k' w', k < k' ∧ At disk p user a0 n k' w' ∧ (k' = n → lastSector p n = (p.cp + k) / p.size) ∧
      writeLoop user p.size (fuel + 1) w = writeLoop user p.size fuel w' := by
  have total := mapped.total wf
  obtain ⟨lsn, listed, placed⟩ := place_inside wf mapped here before inside
  obtain ⟨le, aligned, written, fd, d4, d5, d7, a2⟩ := here
  have big := wf.big
  have fits := wf.fits
  have below := Nat.mod_lt (p.cp + k) (show 0 < p.size by omega)
  have room := roomFrom_eq fits below
  refine ⟨k + min (n - k) (p.size - (p.cp + k) % p.size), w.put user lsn ((p.cp + k) % p.size)
    (min (n - k) (p.size - (p.cp + k) % p.size)), by omega, ?_, ?_, ?_⟩
  · refine ⟨by omega, ?_, ?_, fd, ?_, ?_, ?_, ?_⟩
    · by_cases ends : n - k ≤ p.size - (p.cp + k) % p.size
      · exact .inr (.inl (by omega))
      · refine .inr (.inr ?_)
        rw [min_eq_right (by omega), ← Nat.add_assoc]
        exact (next_sector (by omega)).2
    · have more := written.more wf.nodup listed (by omega) (min_le_right (n - k) (p.size - (p.cp + k) % p.size))
      rw [← a2] at more
      exact more
    · show w.d4 - _ = _
      omega
    · show (w.d5 + _) % 4294967296 = _
      omega
    · show (w.d7 + _) % 4294967296 = _
      omega
    · show w.a2 + _ = _
      omega
  · intro ends
    unfold lastSector
    rw [show p.cp + n - 1 = p.cp + k + (n - k - 1) by omega]
    exact (within_sector (by omega)).1
  · rw [writeLoop, if_neg (by omega), placed]
    dsimp only
    rw [room, d4, if_neg (by omega)]

/-- What the write has done when its loop ends. -/
theorem At.done {k : Nat} {w : Wr} (here : At disk p user a0 n k w) (ends : k = n) (fuel : Nat) :
    writeLoop user p.size (fuel + 1) w = some (none, w) := by
  have none := here.d4
  rw [writeLoop, if_pos (by omega)]

/-- The start of a round is inside the file when the start of the last sector is. -/
theorem At.inside {k : Nat} {w : Wr} (here : At disk p user a0 n k w) (before : k < n) {bound : Nat}
    (first : p.cp < bound) (last : p.size * lastSector p n < bound) : p.cp + k < bound := by
  obtain rfl | rfl | aligned := here.aligned
  · exact first
  · omega
  · have number := number_le p before
    have whole : p.cp + k = p.size * ((p.cp + k) / p.size) := by
      have split := Nat.div_add_mod (p.cp + k) p.size
      omega
    calc p.cp + k = p.size * ((p.cp + k) / p.size) := whole
      _ ≤ p.size * lastSector p n := Nat.mul_le_mul_left _ number
      _ < bound := last

/-- Every sector of the write starts inside the file: the loop writes it all. -/
theorem writeLoop_inside (wf : WellFormed disk p) (mapped : Mapped disk p n)
    (first : p.cp < (disk p.fd).getU32 fdSiz) (last : p.size * lastSector p n < (disk p.fd).getU32 fdSiz)
    {fuel k : Nat} {w : Wr} (here : At disk p user a0 n k w) (fueled : n - k < fuel) :
    ∃ w', writeLoop user p.size fuel w = some (none, w') ∧ At disk p user a0 n n w' := by
  induction fuel generalizing k w with
  | zero => omega
  | succ fuel ih =>
    by_cases ends : k = n
    · subst ends
      exact ⟨w, here.done rfl fuel, here⟩
    · have le := here.le
      have before : k < n := by omega
      obtain ⟨k', w', further, next, -, same⟩ := here.round wf mapped before (here.inside before first last) fuel
      have le' := next.le
      rw [same]
      exact ih next (by omega)

/-- A loop that ends without an error has found every sector inside the file. -/
theorem writeLoop_ok (wf : WellFormed disk p) (mapped : Mapped disk p n)
    {fuel k : Nat} {w w' : Wr} (here : At disk p user a0 n k w) (before : k < n)
    (ran : writeLoop user p.size fuel w = some (none, w')) :
    p.cp + k < (disk p.fd).getU32 fdSiz ∧ p.size * lastSector p n < (disk p.fd).getU32 fdSiz := by
  induction fuel generalizing k w with
  | zero => cases ran
  | succ fuel ih =>
    have inside : p.cp + k < (disk p.fd).getU32 fdSiz := by
      by_contra beyond
      obtain ⟨e, failed⟩ := place_end (w := w) (by rw [here.fd, here.d5]; omega) p.size
      have d4 := here.d4
      rw [writeLoop, if_neg (by omega), failed] at ran
      cases ran
    refine ⟨inside, ?_⟩
    obtain ⟨k', w₁, further, next, final, same⟩ := here.round wf mapped before inside fuel
    rw [same] at ran
    by_cases ends : k' = n
    · rw [final ends]
      exact lt_of_le_of_lt (Nat.mul_div_le _ _) inside
    · have le := next.le
      exact (ih next (by omega) ran).2

/-! ### The read loop -/

/-- The read at the byte with number `k`; `content` is what the file holds. -/
structure ReadAt (p : Path) (content : Nat → UInt8) (a0 n k : Nat) (r : Rd) : Prop where
  le : k ≤ n
  bytes : ∀ j < k, r.user (a0 + j) = content (p.cp + j)
  d4 : r.d4 = n - k
  d5 : r.d5 = p.cp + k
  d7 : r.d7 = k
  a2 : r.a2 = a0 + k

theorem ReadAt.round {content : Nat → UInt8} (wf : WellFormed disk p) (mapped : Mapped disk p n) {k : Nat} {r : Rd}
    (here : ReadAt p content a0 n k r) (before : k < n) (inside : p.cp + k < (disk p.fd).getU32 fdSiz)
    (holds : ∀ off lsn, off < p.cp + n → p.cp ≤ off → (sectors (disk p.fd))[off / p.size]? = some lsn →
      disk lsn (off % p.size) = content off) (listed : lastSector p n < (sectors (disk p.fd)).length) (fuel : Nat) :
    ∃ k' r', k < k' ∧ ReadAt p content a0 n k' r' ∧
      readLoop disk (disk p.fd) p.size false (fuel + 1) r = readLoop disk (disk p.fd) p.size false fuel r' := by
  obtain ⟨le, bytes, d4, d5, d7, a2⟩ := here
  have big := wf.big
  have fits := wf.fits
  have number := number_le p before
  have below := Nat.mod_lt (p.cp + k) (show 0 < p.size by omega)
  have room := roomFrom_eq fits below
  have known : (p.cp + k) / p.size < (sectors (disk p.fd)).length := by omega
  have named := List.getElem?_eq_getElem known
  generalize (sectors (disk p.fd))[(p.cp + k) / p.size] = lsn at named
  have found : mapOffsetToLSN (disk p.fd) r.d5 p.size = some (lsn, (p.cp + k) % p.size) := by
    rw [d5, mapOffsetToLSN_sectors (mapped.short.mono number) (by have := mapped.small; omega) inside, named]
    rfl
  refine ⟨k + min (n - k) (p.size - (p.cp + k) % p.size), r.take (disk lsn) ((p.cp + k) % p.size)
    (min (n - k) (p.size - (p.cp + k) % p.size)), by omega, ?_, ?_⟩
  · refine ⟨by omega, ?_, ?_, ?_, ?_, ?_⟩
    · intro j inRange
      show (r.user.blit r.a2 (disk lsn) ((p.cp + k) % p.size) _) (a0 + j) = _
      by_cases old : j < k
      · rw [Mem.blit_outside _ _ _ (by omega)]
        exact bytes j old
      · obtain ⟨i, rfl⟩ := Nat.exists_eq_add_of_le (Nat.le_of_not_lt old)
        obtain ⟨sector, offset⟩ : (p.cp + k + i) / p.size = (p.cp + k) / p.size ∧
            (p.cp + k + i) % p.size = (p.cp + k) % p.size + i := within_sector (by omega)
        have value := holds (p.cp + k + i) lsn (by omega) (by omega) (by rw [sector]; exact named)
        rw [offset] at value
        unfold Mem.blit
        rw [if_pos ⟨by omega, by omega⟩, show a0 + (k + i) - r.a2 + (p.cp + k) % p.size = (p.cp + k) % p.size + i by omega,
          value, Nat.add_assoc]
    · show r.d4 - _ = _
      omega
    · show r.d5 + _ = _
      omega
    · show r.d7 + _ = _
      omega
    · show r.a2 + _ = _
      omega
  · rw [readLoop, if_neg (by omega), found]
    dsimp only
    rw [room, d4, if_neg (by omega)]
    rfl

theorem readLoop_all {content : Nat → UInt8} (wf : WellFormed disk p) (mapped : Mapped disk p n)
    (inside : p.cp + n ≤ (disk p.fd).getU32 fdSiz)
    (holds : ∀ off lsn, off < p.cp + n → p.cp ≤ off → (sectors (disk p.fd))[off / p.size]? = some lsn →
      disk lsn (off % p.size) = content off) {fuel k : Nat} {r : Rd}
    (listed : lastSector p n < (sectors (disk p.fd)).length) (here : ReadAt p content a0 n k r) (fueled : n - k < fuel) :
    ∃ r', readLoop disk (disk p.fd) p.size false fuel r = some r' ∧ ReadAt p content a0 n n r' := by
  induction fuel generalizing k r with
  | zero => omega
  | succ fuel ih =>
    have le := here.le
    by_cases ends : k = n
    · subst ends
      have none := here.d4
      refine ⟨r, ?_, here⟩
      rw [readLoop, if_pos (by omega)]
    · obtain ⟨k', r', further, next, same⟩ := here.round wf mapped (by omega) (by omega) holds listed fuel
      have le' := next.le
      rw [same]
      exact ih next (by omega)

end Loop

/-! ### A descriptor with another size -/

theorem getU24_congr {m m' : Mem} {a : Nat} (same : ∀ x, a ≤ x → x < a + 3 → m' x = m x) : getU24 m' a = getU24 m a := by
  unfold getU24
  rw [Mem.getU8_congr (same a (by omega) (by omega)),
    Mem.getU16_congr (fun x low high => same x (by omega) (by omega))]

section Segments
variable {fd fd' : Sector} {a1 : Nat} (same : ∀ x, a1 ≤ x → fd' x = fd x)
include same

theorem entry_congr : getU24 fd' a1 = getU24 fd a1 ∧ fd'.getU16 (a1 + fdslB) = fd.getU16 (a1 + fdslB) :=
  ⟨getU24_congr (fun x low _ => same x low), Mem.getU16_congr (fun x low _ => same x (by omega))⟩

theorem sectorsFrom_congr (n : Nat) : sectorsFrom fd' n a1 = sectorsFrom fd n a1 := by
  induction n generalizing a1 with
  | zero => rfl
  | succ n ih =>
    obtain ⟨start, count⟩ := entry_congr same
    rw [sectorsFrom, sectorsFrom, start, count, ih (fun x low => same x (by unfold fdslS at low; omega))]

theorem shortBefore_congr {n index : Nat} (short : ShortBefore fd n a1 index) : ShortBefore fd' n a1 index := by
  induction n generalizing a1 index with
  | zero => trivial
  | succ n ih =>
    obtain ⟨start, count⟩ := entry_congr same
    unfold ShortBefore at short ⊢
    rw [start, count]
    obtain none | inside | ⟨small, rest⟩ := short
    · exact .inl none
    · exact .inr (.inl inside)
    · exact .inr (.inr ⟨small, ih (fun x low => same x (by unfold fdslS at low; omega)) rest⟩)

end Segments

/-! ### Write, then read -/

/-- The write succeeds and grows the file as it has to, leaves everything else alone, and a read of
as many bytes from where it was finds what was written. -/
structure WritesThrough (disk : Disk) (p : Path) (user : Mem) (q : Regs) (out : Out) : Prop where
  wrote : write disk p user q = some out
  ok : out.err = none
  count : out.d1 = q.d1
  position : out.path.cp = p.cp + q.d1
  size : (out.disk p.fd).getU32 fdSiz = max ((disk p.fd).getU32 fdSiz) (p.cp + q.d1)
  descriptor : ∀ x, x < fdSiz ∨ fdSiz + 4 ≤ x → out.disk p.fd x = disk p.fd x
  file : ∀ off lsn, off < p.cp ∨ p.cp + q.d1 ≤ off → (sectors (disk p.fd))[off / p.size]? = some lsn →
    out.disk lsn (off % p.size) = disk lsn (off % p.size)
  others : ∀ lsn, lsn ∉ sectors (disk p.fd) → lsn ≠ p.fd → out.disk lsn = disk lsn
  back : ∀ (mem : Mem) (r : Regs), r.d1 = q.d1 → ∃ b, read out.disk { out.path with cp := p.cp } mem r = some b ∧
    b.err = none ∧ b.d1 = q.d1 ∧ b.user.bytes r.a0 q.d1 = user.bytes q.a0 q.d1

/-- Every sector of the write starts inside the file, and the path knows the size of the file as
far as the write reaches. -/
structure InFile (disk : Disk) (p : Path) (n : Nat) : Prop where
  first : p.cp < (disk p.fd).getU32 fdSiz
  last : p.size * lastSector p n < (disk p.fd).getU32 fdSiz
  known : (disk p.fd).getU32 fdSiz ≤ p.cp + n ∨ p.cp + n ≤ p.siz

section Main
variable {disk : Disk} {p : Path} {user : Mem} {q : Regs}

/-- The state `Rbf_Write` enters its loop in. -/
def Wr.start (disk : Disk) (p : Path) (q : Regs) : Wr :=
  { disk := disk, fd := disk p.fd, d4 := q.d1, d5 := p.cp, d7 := 0, a2 := q.a0 }

theorem At.start (disk : Disk) (p : Path) (user : Mem) (q : Regs) : At disk p user q.a0 q.d1 0 (Wr.start disk p q) :=
  ⟨Nat.zero_le _, .inl rfl, Written.zero _ _ _ _ _ _, rfl, rfl, rfl, rfl, rfl⟩

theorem write_eq (positive : 1 ≤ q.d1) : write disk p user q =
    match writeLoop user p.size loopBound (Wr.start disk p q) with
    | none => none
    | some (none, w) => some (flushFD { p with sctSiz := p.size } user w)
    | some (some code, w) =>
      some { disk := w.disk, path := { p with sctSiz := p.size }, user := user, err := some code, d1 := w.d7 } :=
  if_neg (by omega)

theorem readLoop_count {disk : Disk} {fd : Sector} {size fuel : Nat} {r r' : Rd}
    (ran : readLoop disk fd size false fuel r = some r') : r'.d7 ≤ r.d7 + r.d4 := by
  induction fuel generalizing r with
  | zero => cases ran
  | succ fuel ih =>
    rw [readLoop] at ran
    split at ran
    · cases ran
      omega
    · split at ran
      · cases ran
        omega
      · dsimp only at ran
        split at ran
        · cases ran
        · have rest := ih ran
          unfold Rd.take at rest
          dsimp only at rest
          omega

/-- What is left of a write whose loop has ended. -/
structure Flushed (disk : Disk) (p : Path) (n : Nat) (out : Out) : Prop where
  fd : out.path.fd = p.fd
  sctSiz : out.path.sctSiz = p.size
  siz : out.path.siz = if (disk p.fd).getU32 fdSiz ≤ p.cp + n then p.cp + n else p.siz
  size : (out.disk p.fd).getU32 fdSiz = max ((disk p.fd).getU32 fdSiz) (p.cp + n)
  same : ∀ x, x < fdSiz ∨ fdSiz + 4 ≤ x → out.disk p.fd x = disk p.fd x

theorem flushFD_flushed {w : Wr} {n : Nat} (fd : w.fd = disk p.fd) (d5 : w.d5 = p.cp + n) (total : p.cp + n < 4294967296) :
    Flushed disk p n (flushFD { p with sctSiz := p.size } user w) := by
  have sector : (flushFD { p with sctSiz := p.size } user w).disk p.fd =
      if (disk p.fd).getU32 fdSiz ≤ p.cp + n then (disk p.fd).setU32 fdSiz (p.cp + n) else disk p.fd := by
    unfold flushFD Disk.put
    dsimp only
    rw [Function.update_self, fd, d5]
  refine ⟨rfl, rfl, ?_, ?_, ?_⟩
  · unfold flushFD
    dsimp only
    rw [fd, d5]
  · rw [sector]
    split
    · next grown => rw [Mem.getU32_setU32_of_lt _ _ total, max_eq_right grown]
    · next small => rw [max_eq_left (by omega)]
  · intro x outside
    rw [sector]
    split
    · exact Mem.setU32_outside _ _ outside
    · rfl

namespace Flushed
variable {n : Nat} {out : Out} (flushed : Flushed disk p n out)
include flushed

theorem segments : ∀ x, fdSeg ≤ x → out.disk p.fd x = disk p.fd x := by
  intro x behind
  exact flushed.same x (.inr (by unfold fdSeg at behind; unfold fdSiz; omega))

theorem sectors_same : sectors (out.disk p.fd) = sectors (disk p.fd) := sectorsFrom_congr flushed.segments _

/-- The path back at the old position. -/
theorem size_same (wf : WellFormed disk p) : ({ out.path with cp := p.cp } : Path).size = p.size := by
  have big := wf.big
  have known : out.path.sctSiz ≠ 0 := by
    rw [flushed.sctSiz]
    omega
  unfold Path.size
  rw [if_neg known]
  exact flushed.sctSiz

theorem wellFormed (wf : WellFormed disk p) (listed : lastSector p n < (sectors (disk p.fd)).length) :
    WellFormed out.disk { out.path with cp := p.cp } := by
  have size := flushed.size_same wf
  have same := flushed.sectors_same
  have big := wf.big
  refine ⟨?_, ?_, ?_, ?_, ?_⟩
  · rw [size]
    exact wf.big
  · rw [size]
    exact wf.fits
  · rw [flushed.fd, same]
    exact wf.nodup
  · rw [flushed.fd, same]
    exact wf.apart
  · rw [size]
    show (out.disk out.path.fd).getU32 fdSiz ≤ p.size * (sectors (out.disk out.path.fd)).length
    rw [flushed.fd, same, flushed.size]
    refine max_le wf.covers ?_
    unfold lastSector at listed
    rw [Nat.div_lt_iff_lt_mul (by omega), Nat.mul_comm] at listed
    omega

theorem mapped (wf : WellFormed disk p) (mapped : Mapped disk p n) : Mapped out.disk { out.path with cp := p.cp } n := by
  have last : lastSector { out.path with cp := p.cp } n = lastSector p n := by
    unfold lastSector
    rw [flushed.size_same wf]
  refine ⟨?_, ?_⟩
  · rw [last]
    exact mapped.small
  · rw [last]
    show ShortBefore (out.disk out.path.fd) _ _ _
    rw [flushed.fd]
    exact shortBefore_congr flushed.segments mapped.short

/-- A read from the old position of no more than the path knows of. -/
theorem read_back (wf : WellFormed disk p) (positive : 1 ≤ n) (mapped : Mapped disk p n)
    (listed : lastSector p n < (sectors (disk p.fd)).length) (known : p.cp + n ≤ out.path.siz)
    {content : Nat → UInt8} (holds : ∀ off lsn, off < p.cp + n → p.cp ≤ off →
      (sectors (disk p.fd))[off / p.size]? = some lsn → out.disk lsn (off % p.size) = content off)
    (mem : Mem) {r : Regs} (asked : r.d1 = n) :
    ∃ b, read out.disk { out.path with cp := p.cp } mem r = some b ∧ b.err = none ∧ b.d1 = n ∧
      ∀ j < n, b.user (r.a0 + j) = content (p.cp + j) := by
  have size := flushed.size_same wf
  have same := flushed.sectors_same
  have d4 : (if r.d1 < out.path.siz - p.cp then r.d1 else out.path.siz - p.cp) = n := by
    split <;> omega
  have start : ReadAt { out.path with cp := p.cp } content r.a0 n 0
      { user := mem, d4 := n, d5 := p.cp, d7 := 0, a2 := r.a0 } :=
    ⟨Nat.zero_le _, nofun, rfl, rfl, rfl, rfl⟩
  have last : lastSector { out.path with cp := p.cp } n = lastSector p n := by
    unfold lastSector
    rw [size]
  have descriptor : ({ out.path with cp := p.cp } : Path).fd = p.fd := flushed.fd
  obtain ⟨r', ran, -, bytes, -, -, d7, -⟩ : ∃ r', readLoop out.disk (out.disk out.path.fd) p.size false loopBound
      { user := mem, d4 := n, d5 := p.cp, d7 := 0, a2 := r.a0 } = some r' ∧
      ReadAt { out.path with cp := p.cp } content r.a0 n n r' := by
    rw [← size]
    refine readLoop_all (flushed.wellFormed wf listed) (flushed.mapped wf mapped) ?_ ?_ ?_ start ?_
    · rw [descriptor, flushed.size]
      exact le_max_right _ _
    · intro off lsn below above named
      rw [size, descriptor, same] at named
      rw [size]
      exact holds off lsn below above named
    · rw [last, descriptor, same]
      exact listed
    · have total := mapped.total wf
      unfold loopBound
      omega
  unfold read readCommon
  dsimp only
  rw [d4, if_neg (by omega), size, ran]
  exact ⟨_, rfl, rfl, d7, bytes⟩

end Flushed

theorem lastSector_listed (wf : WellFormed disk p) {n : Nat} (last : p.size * lastSector p n < (disk p.fd).getU32 fdSiz) :
    lastSector p n < (sectors (disk p.fd)).length := by
  have covers := wf.covers
  exact Nat.lt_of_mul_lt_mul_left (lt_of_lt_of_le last covers)

theorem writesThrough_of_inFile (wf : WellFormed disk p) (positive : 1 ≤ q.d1) (mapped : Mapped disk p q.d1)
    (inFile : InFile disk p q.d1) : ∃ out, WritesThrough disk p user q out := by
  obtain ⟨first, last, known⟩ := inFile
  have total := mapped.total wf
  have listed := lastSector_listed wf last
  obtain ⟨w, ran, -, -, written, fd, -, d5, d7, -⟩ : ∃ w, writeLoop user p.size loopBound (Wr.start disk p q) =
      some (none, w) ∧ At disk p user q.a0 q.d1 q.d1 w :=
    writeLoop_inside wf mapped first last (At.start disk p user q) (by unfold loopBound; omega)
  have flushed : Flushed disk p q.d1 (flushFD { p with sctSiz := p.size } user w) := flushFD_flushed fd d5 total
  have disk' : ∀ lsn, lsn ≠ p.fd → (flushFD { p with sctSiz := p.size } user w).disk lsn = w.disk lsn :=
    fun lsn other => Function.update_of_ne other _ _
  have named : ∀ off lsn, (sectors (disk p.fd))[off / p.size]? = some lsn → lsn ≠ p.fd := by
    rintro off lsn here rfl
    exact wf.apart (List.mem_of_getElem? here)
  refine ⟨flushFD { p with sctSiz := p.size } user w, ?_, rfl, d7, d5, flushed.size, flushed.same, ?_, ?_, ?_⟩
  · rw [write_eq positive, ran]
  · intro off lsn outside here
    rw [disk' lsn (named off lsn here), written.bytes off lsn here, if_neg (by omega)]
  · intro lsn outside other
    rw [disk' lsn other, written.others lsn outside]
  · intro mem r asked
    have holds : ∀ off lsn, off < p.cp + q.d1 → p.cp ≤ off → (sectors (disk p.fd))[off / p.size]? = some lsn →
        (flushFD { p with sctSiz := p.size } user w).disk lsn (off % p.size) = user (q.a0 + (off - p.cp)) := by
      intro off lsn below above here
      rw [disk' lsn (named off lsn here), written.bytes off lsn here, if_pos ⟨above, below⟩]
    have reach : p.cp + q.d1 ≤ (flushFD { p with sctSiz := p.size } user w).path.siz := by
      rw [flushed.siz]
      split <;> omega
    obtain ⟨b, ran, ok, count, bytes⟩ := flushed.read_back wf positive mapped listed reach holds mem asked
    refine ⟨b, ran, ok, count, Mem.bytes_eq ?_⟩
    intro j inside
    rw [bytes j inside, Nat.add_sub_cancel_left]

theorem inFile_of_writesThrough (wf : WellFormed disk p) (positive : 1 ≤ q.d1) (mapped : Mapped disk p q.d1) {out : Out}
    (through : WritesThrough disk p user q out) : InFile disk p q.d1 := by
  have total := mapped.total wf
  have wrote := through.wrote
  rw [write_eq positive] at wrote
  cases ran : writeLoop user p.size loopBound (Wr.start disk p q) with
  | none =>
    rw [ran] at wrote
    cases wrote
  | some ended =>
    obtain ⟨err, w⟩ := ended
    rw [ran] at wrote
    cases err with
    | some code =>
      cases wrote
      cases through.ok
    | none =>
      have start := At.start disk p user q
      obtain ⟨first, last⟩ := writeLoop_ok wf mapped start (by omega) ran
      obtain ⟨w', ran', -, -, -, fd, -, d5, -, -⟩ : ∃ w', writeLoop user p.size loopBound (Wr.start disk p q) =
          some (none, w') ∧ At disk p user q.a0 q.d1 q.d1 w' :=
        writeLoop_inside wf mapped first last start (by unfold loopBound; omega)
      rw [ran] at ran'
      cases ran'
      have flushed : Flushed disk p q.d1 out := by
        cases wrote
        exact flushFD_flushed fd d5 total
      refine ⟨first, last, ?_⟩
      by_contra stale
      push Not at stale
      have siz : out.path.siz = p.siz := by
        rw [flushed.siz, if_neg (by omega)]
      obtain ⟨b, readBack, ok, count, -⟩ := through.back (fun _ => 0) q rfl
      unfold read readCommon at readBack
      dsimp only at readBack
      rw [siz, if_neg (show ¬ q.d1 < p.siz - p.cp by omega)] at readBack
      split at readBack
      · cases readBack
        cases ok
      · split at readBack
        · cases readBack
        · next r ended =>
          cases readBack
          have few := readLoop_count ended
          dsimp only at few count
          omega

/-- A write does what it has to if all its sectors start inside the file; without that it fails,
because the size of the file decides where it ends and is brought up to date only behind the loop. -/
theorem write_read (wf : WellFormed disk p) (positive : 1 ≤ q.d1) :
    (InFile disk p q.d1 → Mapped disk p q.d1 → ∃ out, WritesThrough disk p user q out) ∧
      (Mapped disk p q.d1 → (∃ out, WritesThrough disk p user q out) → InFile disk p q.d1) := by
  refine ⟨fun inFile mapped => writesThrough_of_inFile wf positive mapped inFile, ?_⟩
  rintro mapped ⟨out, through⟩
  exact inFile_of_writesThrough wf positive mapped through

end Main

/-! ### A volume with one file -/

/-- Whether the cluster with this number is free. -/
def clusterFree (disk : Disk) (l : Lsn0) (i : Nat) : Bool :=
  !((disk (l.mapLsn + i / 4096)).getU8 (i / 8 % 512)).testBit (7 - i % 8)

def freeClusters (disk : Disk) : Nat :=
  match parseLSN0 (disk 0) with
  | none => 0
  | some l => ((List.range (8 * mapBytes (disk 0))).filter (clusterFree disk l)).length

def freeEntries (fd : Sector) : Nat :=
  ((List.range maxSegs).filter fun i => getU24 fd (fdSeg + fdslS * i) = 0).length

/-- Sixteen sectors, each a cluster: sector 0, the bitmap, the descriptor at 2, whose file has the
sectors 3 and 4 and `size` bytes. -/
def smallDisk (size : Nat) : Disk := fun lsn =>
  match lsn with
  | 0 => fun x => if x = 2 then 16 else if x = 5 then 2 else if x = 7 then 1 else 0
  | 1 => fun x => if x = 0 then 0xF8 else 0
  | 2 => Mem.setU32 (fun x => if x = 18 then 3 else if x = 20 then 2 else 0) fdSiz size
  | _ => fun _ => 0

def smallPath (cp size : Nat) : Path := { fd := 2, dfd := 0, cp := cp, siz := size, att := 3, sctSiz := 512 }

theorem smallDisk_wellFormed {cp size : Nat} (fits : size ≤ 1024) : WellFormed (smallDisk size) (smallPath cp size) := by
  have outside : ∀ x, fdSeg ≤ x → smallDisk size 2 x = smallDisk 0 2 x := by
    intro x behind
    unfold fdSeg at behind
    have kept : ∀ v, smallDisk v 2 x = if x = 18 then 3 else if x = 20 then 2 else 0 :=
      fun v => Mem.setU32_outside _ _ (by unfold fdSiz; omega)
    rw [kept, kept]
  have list : sectors (smallDisk size 2) = [3, 4] := by
    unfold sectors
    rw [sectorsFrom_congr outside]
    decide
  have known : (smallDisk size 2).getU32 fdSiz = size := Mem.getU32_setU32_of_lt _ _ (by omega)
  have sized : (smallPath cp size).size = 512 := rfl
  refine ⟨by omega, by omega, ?_, ?_, ?_⟩
  · show (sectors (smallDisk size 2)).Nodup
    rw [list]
    decide
  · show 2 ∉ sectors (smallDisk size 2)
    rw [list]
    decide
  · show (smallDisk size 2).getU32 fdSiz ≤ 512 * (sectors (smallDisk size 2)).length
    rw [list, known]
    exact fits

/-- Thirty bytes over the border of two sectors. -/
theorem write_read_thirty :
    ∃ out, WritesThrough (smallDisk 600) (smallPath 500 600) (fun x => x.toUInt8) ⟨0, 30, 0, 0⟩ out := by
  have wf : WellFormed (smallDisk 600) (smallPath 500 600) := smallDisk_wellFormed (by decide)
  have inFile : InFile (smallDisk 600) (smallPath 500 600) 30 :=
    ⟨by decide, by decide, .inr (by decide)⟩
  have inside : 1 < (smallDisk 600 2).getU16 (fdSeg + fdslB) := by decide
  have mapped : Mapped (smallDisk 600) (smallPath 500 600) 30 := ⟨by decide, .inr (.inl inside)⟩
  exact (write_read wf (q := ⟨0, 30, 0, 0⟩) (by decide)).1 inFile mapped

/-- One byte at the end of the file, with free clusters and free segment entries, is refused. -/
theorem write_read_append :
    ¬ ∀ (disk : Disk) (p : Path) (user : Mem) (q : Regs), WellFormed disk p → 1 ≤ q.d1 →
      p.cp ≤ (disk p.fd).getU32 fdSiz → p.siz = (disk p.fd).getU32 fdSiz → q.d1 ≤ freeClusters disk →
        q.d1 ≤ freeEntries (disk p.fd) → ∃ out, WritesThrough disk p user q out := by
  intro always
  obtain ⟨out, through⟩ := always (smallDisk 600) (smallPath 600 600) (fun _ => 0) ⟨0, 1, 0, 0⟩
    (smallDisk_wellFormed (by decide)) (by decide) (by decide +kernel) (by decide +kernel) (by decide +kernel)
    (by decide)
  have failed : (write (smallDisk 600) (smallPath 600 600) (fun _ => 0) ⟨0, 1, 0, 0⟩).map Out.err =
      some (some errEof) := by decide +kernel
  rw [through.wrote] at failed
  have code : out.err = some errEof := Option.some.inj failed
  rw [through.ok] at code
  cases code

end Q9OS.Rbf

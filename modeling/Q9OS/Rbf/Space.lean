import Mathlib.Tactic
import Q9OS.Rbf.Delete

/-!
# Space that is not given back

A cluster is taken when its bit is written, and nothing writes a clear bit. What
a call that fails leaves behind, and what a delete does not free.
-/

namespace Q9OS.Rbf

/-! ### The allocator on a drive that never fails -/

theorem scanBitmap_quiet (disk : Disk) (fuel bytes d7 d5 : Nat) : scanBitmap fuel bytes d7 d5 (Drive.quiet disk) =
    .ok ((sctLoop disk fuel bytes d7 d5).map fun found => (found, disk found.lsn)) (Drive.quiet disk) := by
  induction fuel generalizing bytes d7 d5 with
  | zero => rfl
  | succ fuel ih =>
    unfold scanBitmap sctLoop
    by_cases none : bytes = 0
    · simp only [if_pos none]
      rfl
    simp only [if_neg none]
    rw [bind_ok (Drive.readSector_quiet disk d7)]
    cases found : byteLoop (disk d7) d7 (min 512 bytes) 0 d5 with
    | some f =>
      simp only [Option.map_some, byteLoop_lsn found]
      rfl
    | none => exact ih _ _ _

/-- The allocator on the disk of a drive that never fails. -/
theorem allocClusterOn_quiet (disk : Disk) : allocClusterOn (Drive.quiet disk) =
    match allocCluster disk with
    | .ok (disk', r) => .ok r (Drive.quiet disk')
    | .error code => .error (.error code) (Drive.quiet disk) := by
  unfold allocClusterOn allocCluster
  rw [bind_ok (Drive.readSector_quiet disk 0)]
  cases parseLSN0 (disk 0) with
  | none => rfl
  | some l =>
    dsimp only
    rw [bind_ok (scanBitmap_quiet disk _ _ _ _)]
    cases sctLoop disk (mapBytes (disk 0)) (mapBytes (disk 0)) l.mapLsn 0 <;> rfl

theorem allocCluster_ok {disk disk' : Disk} {r : Nat × Nat} (ran : allocCluster disk = .ok (disk', r)) :
    ∃ l i, Allocates disk disk' r l i := by
  have quiet := allocClusterOn_quiet disk
  rw [ran] at quiet
  exact allocClusterOn_ok quiet

/-- No cluster is free when the allocator fails. -/
theorem allocCluster_error {disk : Disk} {l : Lsn0} (valid : parseLSN0 (disk 0) = some l) :
    (∃ code, allocCluster disk = .error code) ↔ ∀ i < 8 * mapBytes (disk 0), sectorsFree disk l.mapLsn i = false := by
  have scan := sctLoop_first disk l.mapLsn 0 (show mapBytes (disk 0) ≤ 512 * mapBytes (disk 0) from Nat.le_mul_of_pos_left _ (by decide))
  unfold firstOf at scan
  constructor
  · rintro ⟨code, ran⟩ i inside
    cases search : (List.range (8 * mapBytes (disk 0))).find? (sectorsFree disk l.mapLsn) with
    | none => simpa using List.find?_eq_none.mp search i (List.mem_range.mpr inside)
    | some j =>
      rw [search] at scan
      rw [allocCluster, valid] at ran
      dsimp only at ran
      rw [scan] at ran
      cases ran
  · intro full
    have search : (List.range (8 * mapBytes (disk 0))).find? (sectorsFree disk l.mapLsn) = none :=
      List.find?_eq_none.mpr (fun i member => by simp [full i (List.mem_range.mp member)])
    rw [search] at scan
    refine ⟨errDkFul, ?_⟩
    unfold allocCluster
    rw [valid]
    dsimp only
    rw [scan]
    rfl

/-! ### The entries of a segment list -/

/-- A segment entry, by its number, has the sector. -/
def Entered (fd : Sector) (j lsn : Nat) : Prop :=
  ∃ k < extL (fd.getU16 (fdSeg + 5 * j + fdslB)), lsn = add32 (getU24 fd (fdSeg + 5 * j)) k

/-- A sector of the segment list, of all its entries. -/
def Named (fd : Sector) (lsn : Nat) : Prop := ∃ j < maxSegs, Entered fd j lsn

theorem mapLoop_entered {fd : Sector} {n j index lsn : Nat} (some : mapLoop fd n (fdSeg + 5 * j) index = some lsn) :
    ∃ j' < j + n, Entered fd j' lsn := by
  induction n generalizing j index with
  | zero => cases some
  | succ n ih =>
    rw [mapLoop] at some
    split at some
    · cases some
    split at some
    · next inside =>
      cases some
      exact ⟨j, by omega, index, inside, rfl⟩
    · obtain ⟨j', low, entered⟩ := ih (j := j + 1) some
      exact ⟨j', by omega, entered⟩

theorem mapOffsetToLSN_named {fd : Sector} {off size : Nat} {r : Nat × Nat} (some : mapOffsetToLSN fd off size = some r) :
    Named fd r.1 := by
  unfold mapOffsetToLSN at some
  split at some
  · cases some
  · obtain ⟨lsn, found, rfl⟩ := Option.map_eq_some_iff.mp some
    obtain ⟨j, low, entered⟩ := mapLoop_entered (j := 0) found
    exact ⟨j, by omega, entered⟩

theorem findFreeSeg_index {fd : Sector} {n j found : Nat} (some : findFreeSeg fd n (fdSeg + 5 * j) = some found) :
    ∃ j', found = fdSeg + 5 * j' := by
  induction n generalizing j with
  | zero => cases some
  | succ n ih =>
    rw [findFreeSeg] at some
    split at some
    · cases some
      exact ⟨j, rfl⟩
    · exact ih (j := j + 1) some

theorem getU24_setU24 (m : Mem) {a v : Nat} (small : v < 16777216) : getU24 (setU24 m a v) a = v := by
  have high : (setU24 m a v).getU8 a = v / 65536 := by
    unfold setU24
    rw [Mem.getU8_setU8]
    omega
  have mid : (setU24 m a v).getU8 (a + 1) = v / 256 % 256 := by
    unfold setU24
    rw [Mem.getU8_setU8_apart _ _ (by omega), Mem.getU8_setU8]
  have low : (setU24 m a v).getU8 (a + 2) = v % 256 := by
    unfold setU24
    rw [Mem.getU8_setU8_apart _ _ (by omega), Mem.getU8_setU8_apart _ _ (by omega), Mem.getU8_setU8]
  unfold getU24 Mem.getU16
  rw [high, mid, low]
  omega

/-- A new entry names its own sectors; the others name what they did. -/
theorem append_named {w w' : Wr} {d2 d4 : Nat} (small : d2 < 16777216) (few : d4 < 32768) (made : w.append d2 d4 = .ok w') {lsn : Nat}
    (named : Named w'.fd lsn) : Named w.fd lsn ∨ ∃ k < d4, lsn = add32 d2 k := by
  unfold Wr.append at made
  split at made
  · cases made
  next a3 free =>
  cases made
  obtain ⟨j', rfl⟩ := findFreeSeg_index (j := 0) free
  obtain ⟨j, low, k, inside, rfl⟩ := named
  by_cases here : j = j'
  · subst here
    have start : getU24 ((setU24 w.fd (fdSeg + 5 * j) d2).setU16 (fdSeg + 5 * j + fdslB) d4) (fdSeg + 5 * j) = d2 := by
      unfold getU24 fdslB
      rw [Mem.getU8_setU16_apart _ _ (by omega), Mem.getU16_setU16_apart _ _ (by omega)]
      exact getU24_setU24 _ small
    have count : ((setU24 w.fd (fdSeg + 5 * j) d2).setU16 (fdSeg + 5 * j + fdslB) d4).getU16 (fdSeg + 5 * j + fdslB) = d4 := by
      rw [Mem.getU16_setU16]
      omega
    dsimp only at inside ⊢
    rw [count, extL, if_pos few] at inside
    exact .inr ⟨k, inside, by rw [start]⟩
  · have apart : fdSeg + 5 * j + 5 ≤ fdSeg + 5 * j' ∨ fdSeg + 5 * j' + 5 ≤ fdSeg + 5 * j := by omega
    have start : getU24 ((setU24 w.fd (fdSeg + 5 * j') d2).setU16 (fdSeg + 5 * j' + fdslB) d4) (fdSeg + 5 * j) =
        getU24 w.fd (fdSeg + 5 * j) := by
      unfold getU24 setU24 fdslB
      rw [Mem.getU8_setU16_apart _ _ (by omega), Mem.getU8_setU8_apart _ _ (by omega), Mem.getU8_setU8_apart _ _ (by omega),
        Mem.getU8_setU8_apart _ _ (by omega), Mem.getU16_setU16_apart _ _ (by omega), Mem.getU16_setU8_apart _ _ (by omega),
        Mem.getU16_setU8_apart _ _ (by omega), Mem.getU16_setU8_apart _ _ (by omega)]
    have count : ((setU24 w.fd (fdSeg + 5 * j') d2).setU16 (fdSeg + 5 * j' + fdslB) d4).getU16 (fdSeg + 5 * j + fdslB) =
        w.fd.getU16 (fdSeg + 5 * j + fdslB) := by
      unfold setU24 fdslB
      rw [Mem.getU16_setU16_apart _ _ (by omega), Mem.getU16_setU8_apart _ _ (by omega), Mem.getU16_setU8_apart _ _ (by omega),
        Mem.getU16_setU8_apart _ _ (by omega)]
    dsimp only at inside ⊢
    rw [count] at inside
    exact .inl ⟨j, low, k, inside, by rw [start]⟩

/-! ### Volumes -/

/-- Sector 0 and the bitmap. -/
def System (disk : Disk) (l : Lsn0) (lsn : Nat) : Prop := lsn = 0 ∨ ∃ i < 8 * mapBytes (disk 0), lsn = l.mapLsn + i / 4096

/-- A volume with its files: the entries of directories lead to files, the clusters of descriptors are marked, no file
has a sector of the bitmap, and what the allocator hands out is neither in it nor beyond 24 bits. -/
structure SoundVolume where
  disk : Disk
  l : Lsn0
  valid : parseLSN0 (disk 0) = some l
  live : Nat → Prop
  kept : ∀ d, live d → isDirectory (disk d) = true → ∀ entry ∈ entries disk d, live entry.2
  used : ∀ d, live d → d / l.bit < 8 * mapBytes (disk 0) ∧ sectorsFree disk l.mapLsn (d / l.bit) = false
  apart : ∀ d, live d → ∀ i < 8 * mapBytes (disk 0), l.mapLsn + i / 4096 ≠ d ∧ l.mapLsn + i / 4096 ∉ table (disk d)
  cluster : 1 ≤ l.bit ∧ l.bit < 32768
  room : ∀ i < 8 * mapBytes (disk 0), sectorsFree disk l.mapLsn i = true → i % 65536 * l.bit + l.bit ≤ 16777216
  outside : ∀ i < 8 * mapBytes (disk 0), sectorsFree disk l.mapLsn i = true →
    ∀ k < l.bit, ¬ System disk l (i % 65536 * l.bit + k)

namespace SoundVolume

/-- Sector 0, the bitmap, the descriptors and the sectors of directories. -/
def Meta (s : SoundVolume) (lsn : Nat) : Prop :=
  System s.disk s.l lsn ∨ ∃ d, s.live d ∧ (lsn = d ∨ isDirectory (s.disk d) = true ∧ lsn ∈ table (s.disk d))

/-- The bitmap and every directory and descriptor are as before. -/
def Unchanged (s : SoundVolume) (disk : Disk) : Prop := ∀ lsn, s.Meta lsn → disk lsn = s.disk lsn

/-- The clusters of the descriptor and of its segments are free again, and the other bits are as before. -/
def GivenBack (s : SoundVolume) (fd : Nat) (disk : Disk) : Prop := ∀ i < 8 * mapBytes (s.disk 0),
  sectorsFree disk s.l.mapLsn i = true ↔
    sectorsFree s.disk s.l.mapLsn i = true ∨ ∃ lsn ∈ fd :: table (s.disk fd), lsn / s.l.bit = i

/-- No cluster is free. -/
def Full (s : SoundVolume) : Prop := ∃ code, allocCluster s.disk = .error code

variable {s : SoundVolume}

theorem bitmap_meta {i : Nat} (inside : i < 8 * mapBytes (s.disk 0)) : s.Meta (s.l.mapLsn + i / 4096) :=
  .inl (.inr ⟨i, inside, rfl⟩)

theorem Unchanged.free {disk : Disk} (same : s.Unchanged disk) {i : Nat} (inside : i < 8 * mapBytes (s.disk 0)) :
    sectorsFree disk s.l.mapLsn i = sectorsFree s.disk s.l.mapLsn i := by
  unfold sectorsFree
  rw [same _ (bitmap_meta inside)]

/-- The allocator fails on a disk with the same bitmap as well. -/
theorem Unchanged.full {disk : Disk} (same : s.Unchanged disk) : (∃ code, allocCluster disk = .error code) ↔ s.Full := by
  have head : disk 0 = s.disk 0 := same 0 (.inl (.inl rfl))
  unfold Full
  rw [allocCluster_error s.valid, allocCluster_error (by rw [head]; exact s.valid), head]
  exact forall_congr' fun i => forall_congr' fun inside => by rw [same.free inside]

/-- No bit is clear that was set. -/
structure Grown (s : SoundVolume) (disk : Disk) : Prop where
  head : disk 0 = s.disk 0
  only : ∀ i < 8 * mapBytes (s.disk 0), sectorsFree disk s.l.mapLsn i = true → sectorsFree s.disk s.l.mapLsn i = true

theorem Unchanged.grown {disk : Disk} (same : s.Unchanged disk) : Grown s disk :=
  ⟨same 0 (.inl (.inl rfl)), fun _ inside free => (same.free inside).symm.trans free⟩

theorem Grown.setBit {disk : Disk} (grown : Grown s disk) (i : Nat) : Grown s (setBit disk s.l.mapLsn i) := by
  have first := parseLSN0_map s.valid
  exact ⟨(setBit_other (by omega)).trans grown.head, fun j inside free => grown.only j inside (setBit_free free)⟩

/-- An allocation takes a cluster that was free at the start. -/
theorem Grown.allocates {disk disk' : Disk} (grown : Grown s disk) {r : Nat × Nat} (ran : allocCluster disk = .ok (disk', r)) :
    ∃ i, i < 8 * mapBytes (s.disk 0) ∧ sectorsFree s.disk s.l.mapLsn i = true ∧ r = (i % 65536 * s.l.bit, s.l.bit) ∧
      disk' = Rbf.setBit disk s.l.mapLsn i := by
  obtain ⟨l, i, a⟩ := allocCluster_ok ran
  have valid := a.valid
  obtain ⟨inside, free⟩ := a.clear
  rw [grown.head] at valid inside
  obtain rfl := Option.some.inj (s.valid.symm.trans valid)
  exact ⟨i, inside, grown.only i inside free, a.start, a.set⟩

/-- A cluster that may be handed out does not start in the bitmap. -/
theorem start_outside {i j : Nat} (inside : i < 8 * mapBytes (s.disk 0)) (free : sectorsFree s.disk s.l.mapLsn i = true)
    (inside' : j < 8 * mapBytes (s.disk 0)) : s.l.mapLsn + j / 4096 ≠ i % 65536 * s.l.bit := by
  intro same
  exact s.outside i inside free 0 s.cluster.1 (.inr ⟨j, inside', same.symm⟩)

/-- A bit that was clear and is set is a change. -/
theorem not_unchanged {disk : Disk} {i : Nat} (inside : i < 8 * mapBytes (s.disk 0))
    (free : sectorsFree s.disk s.l.mapLsn i = true) (set : sectorsFree disk s.l.mapLsn i = false) : ¬ s.Unchanged disk := by
  intro same
  rw [same.free inside, free] at set
  cases set

/-! ### Rbf_Create and Rbf_MakDir -/

theorem writeSector_left (disk : Disk) (lsn : Nat) (bytes : Sector) :
    Drive.writeSector lsn bytes (Drive.quiet disk) = .ok () (Drive.quiet (disk.put lsn bytes)) := rfl

/-- The bit stays set where a sector outside the bitmap is written. -/
theorem put_free {disk : Disk} {d7 i lsn : Nat} (bytes : Sector) (apart : d7 + i / 4096 ≠ lsn) :
    sectorsFree (disk.put lsn bytes) d7 i = sectorsFree disk d7 i := by
  unfold sectorsFree Disk.put
  rw [Function.update_of_ne apart]

theorem setBit_still {disk : Disk} {d7 i j : Nat} (set : sectorsFree disk d7 i = false) : sectorsFree (setBit disk d7 j) d7 i = false := by
  cases free : sectorsFree (setBit disk d7 j) d7 i with
  | false => rfl
  | true => rw [setBit_free free] at set; exact set

/-- A descriptor is made with the bit of its cluster set, whether the rest of it can be made or not. -/
theorem make_bit (kind : Kind) (parent : Nat) {i : Nat} (inside : i < 8 * mapBytes (s.disk 0))
    (free : sectorsFree s.disk s.l.mapLsn i = true)
    (ran : allocCluster s.disk = .ok (setBit s.disk s.l.mapLsn i, i % 65536 * s.l.bit, s.l.bit)) :
    ∃ disk', left (kind.make parent (Drive.quiet s.disk)) = Drive.quiet disk' ∧ sectorsFree disk' s.l.mapLsn i = false := by
  have alloc := allocClusterOn_quiet s.disk
  rw [ran] at alloc
  have set := setBit_set s.disk s.l.mapLsn i
  have start : s.l.mapLsn + i / 4096 ≠ i % 65536 * s.l.bit := start_outside inside free inside
  cases kind with
  | file d1 =>
    refine ⟨_, ?_, (put_free (fdHead (fileAttr d1) 0) start).trans set⟩
    show left (newFile d1 (Drive.quiet s.disk)) = _
    unfold newFile
    rw [bind_ok alloc, bind_ok (writeSector_left _ _ _)]
    rfl
  | dir =>
    show ∃ disk', left (newDir parent (Drive.quiet s.disk)) = Drive.quiet disk' ∧ sectorsFree disk' s.l.mapLsn i = false
    unfold newDir
    rw [bind_ok alloc]
    have second := allocClusterOn_quiet (setBit s.disk s.l.mapLsn i)
    cases ran' : allocCluster (setBit s.disk s.l.mapLsn i) with
    | error code =>
      rw [ran'] at second
      rw [bind_error second]
      exact ⟨_, rfl, set⟩
    | ok taken =>
      obtain ⟨disk2, r⟩ := taken
      rw [ran'] at second
      have same : s.Unchanged s.disk := fun _ _ => rfl
      obtain ⟨j, inside', free', rfl, rfl⟩ := (same.grown.setBit i).allocates ran'
      have start' : s.l.mapLsn + i / 4096 ≠ j % 65536 * s.l.bit := start_outside inside' free' inside
      have still : sectorsFree (setBit (setBit s.disk s.l.mapLsn i) s.l.mapLsn j) s.l.mapLsn i = false := setBit_still set
      rw [bind_ok second, bind_ok (writeSector_left _ _ _), bind_ok (writeSector_left _ _ _)]
      exact ⟨_, rfl, (put_free _ start).trans ((put_free _ start').trans still)⟩

/-- With a slot nothing fails any more. -/
theorem enter_quiet (d3 d7 : Nat) (a2 : Chars) (fd : Sector) (slot : Slot) (disk : Disk) :
    ∃ disk', enter d3 d7 a2 fd slot (Drive.quiet disk) = .ok () (Drive.quiet disk') := by
  unfold enter
  rw [bind_ok (writeSector_left _ _ _)]
  split
  · exact ⟨_, rfl⟩
  · exact ⟨_, rfl⟩

/-- The path leads to the name of a new file. -/
def Leads (s : SoundVolume) (c : Caller) : Prop := ∃ f v, parsePathCreate c (Drive.quiet s.disk) = .ok f v ∧ f.z = false

/-- A call that fails gives back what it took only when it took nothing. -/
theorem createCommon_back {kind : Kind} {c : Caller} {e : Failure} {v' : Drive}
    (ran : createCommon kind c (Drive.quiet s.disk) = .error e v') : s.Unchanged v'.disk ↔ ¬ Leads s c ∨ s.Full := by
  have nothing (same : v' = Drive.quiet s.disk) : s.Unchanged v'.disk := by
    rw [same]
    exact fun _ _ => rfl
  cases path : parsePathCreate c (Drive.quiet s.disk) with
  | error e1 v1 =>
    have early : createCommon kind c (Drive.quiet s.disk) = .error e1 v1 := bind_error (bind_error path)
    have still := (parsePathCreate_reads c).quiet_error path
    rw [early] at ran
    cases ran
    exact iff_of_true (nothing still) (.inl (fun ⟨f, v, ok, _⟩ => nomatch path.symm.trans ok))
  | ok f v1 =>
    obtain rfl := (parsePathCreate_reads c).quiet path
    by_cases self : f.z = true
    · have early : createCommon kind c (Drive.quiet s.disk) = .error (.error errParam) (Drive.quiet s.disk) := by
        refine bind_error ?_
        unfold findPlace
        rw [bind_ok path, if_pos self]
        rfl
      rw [early] at ran
      cases ran
      refine iff_of_true (nothing rfl) (.inl ?_)
      rintro ⟨f', v, ok, new⟩
      rw [path] at ok
      cases ok
      rw [self] at new
      cases new
    have new : f.z = false := by simpa using self
    have leads : Leads s c := ⟨f, _, path, new⟩
    cases alloc : allocCluster s.disk with
    | error code =>
      have failed := allocClusterOn_quiet s.disk
      rw [alloc] at failed
      have made : kind.make f.d7 (Drive.quiet s.disk) = .error (.error code) (Drive.quiet s.disk) := by
        cases kind with
        | file d1 => exact bind_error failed
        | dir => exact bind_error failed
      have early : createCommon kind c (Drive.quiet s.disk) = .error (.error code) (Drive.quiet s.disk) := by
        refine bind_error ?_
        unfold findPlace
        rw [bind_ok path, if_neg self, bind_error made]
      rw [early] at ran
      cases ran
      exact iff_of_true (nothing rfl) (.inr ⟨code, alloc⟩)
    | ok taken =>
      obtain ⟨disk1, r⟩ := taken
      obtain ⟨i, inside, free, rfl, rfl⟩ := (Unchanged.grown (fun _ _ => rfl)).allocates alloc
      obtain ⟨disk', leaves, set⟩ := make_bit kind f.d7 inside free alloc
      have ended : v'.disk = disk' := by
        cases made : kind.make f.d7 (Drive.quiet s.disk) with
        | error e1 v1 =>
          rw [made] at leaves
          have early : createCommon kind c (Drive.quiet s.disk) = .error e1 v1 := by
            refine bind_error ?_
            unfold findPlace
            rw [bind_ok path, if_neg self, bind_error made]
          rw [early] at ran
          cases ran
          exact congrArg Drive.disk leaves
        | ok d7 v1 =>
          rw [made] at leaves
          obtain rfl : v1 = Drive.quiet disk' := leaves
          cases slot : freeSlot f.d7 (Drive.quiet disk') with
          | error e2 v2 =>
            rw [createCommon_late path new made slot] at ran
            cases ran
            exact (freeSlot_reads f.d7).error slot
          | ok found v2 =>
            -- with a slot the call does not fail
            obtain rfl := (freeSlot_reads f.d7).quiet slot
            obtain ⟨disk2, entered⟩ := enter_quiet f.d7 d7 f.a2 found.1 found.2 disk'
            have place : findPlace kind c (Drive.quiet s.disk) = .ok ⟨f.d7, f.a2, d7, found.1, found.2⟩ (Drive.quiet disk') := by
              unfold findPlace
              rw [bind_ok path, if_neg self, bind_ok made, bind_ok slot]
              rfl
            have done : createCommon kind c (Drive.quiet s.disk) = .ok (kind.made d7 f.d7) (Drive.quiet disk2) := by
              unfold createCommon
              rw [bind_ok place, bind_ok entered]
              rfl
            rw [done] at ran
            cases ran
      refine iff_of_false ?_ ?_
      · rw [ended]
        exact not_unchanged inside free set
      · rintro (astray | ⟨code, full⟩)
        · exact astray leads
        · rw [alloc] at full
          cases full

/-! ### Rbf_Write -/

/-- An open file: no entry of its segment list names metadata. -/
structure Regular (s : SoundVolume) (p : Path) : Prop where
  named : ∀ lsn, Named (s.disk p.fd) lsn → ¬ s.Meta lsn

/-- A cluster that was free is marked. -/
def Took (s : SoundVolume) (disk : Disk) : Prop :=
  ∃ i < 8 * mapBytes (s.disk 0), sectorsFree s.disk s.l.mapLsn i = true ∧ sectorsFree disk s.l.mapLsn i = false

/-- A write on its way: either it took no cluster yet and wrote no metadata, or it took one. -/
structure Writing (s : SoundVolume) (p : Path) (w : Wr) : Prop where
  grown : Grown s w.disk
  named : ∀ lsn, Named w.fd lsn → ¬ System s.disk s.l lsn
  phase : (w.fd = s.disk p.fd ∧ s.Unchanged w.disk) ∨ Took s w.disk

theorem Writing.put {p : Path} (file : Regular s p) {w : Wr} (writing : Writing s p w) (user : Mem) {lsn : Nat} (d3 n : Nat)
    (named : Named w.fd lsn) : Writing s p (w.put user lsn d3 n) := by
  have outside := writing.named lsn named
  have kept {i : Nat} (inside : i < 8 * mapBytes (s.disk 0)) :
      sectorsFree (w.put user lsn d3 n).disk s.l.mapLsn i = sectorsFree w.disk s.l.mapLsn i :=
    put_free _ (fun here => outside (.inr ⟨i, inside, here.symm⟩))
  refine ⟨⟨?_, fun i inside free => ?_⟩, writing.named, ?_⟩
  · have other : 0 ≠ lsn := fun here => outside (.inl here.symm)
    exact (Function.update_of_ne other _ _).trans writing.grown.head
  · rw [kept inside] at free
    exact writing.grown.only i inside free
  · rcases writing.phase with ⟨fd, same⟩ | ⟨i, inside, free, set⟩
    · refine .inl ⟨fd, fun lsn' known => ?_⟩
      rw [fd] at named
      have other : lsn' ≠ lsn := fun here => file.named lsn named (here ▸ known)
      exact (Function.update_of_ne other _ _).trans (same lsn' known)
    · exact .inr ⟨i, inside, free, (kept inside).trans set⟩

/-- What a write that fails may leave. -/
def Failed (s : SoundVolume) (disk : Disk) : Prop := Took s disk ∨ s.Full ∧ s.Unchanged disk

theorem Writing.extend {p : Path} {w : Wr} (writing : Writing s p w) :
    (∃ code w', w.extend = .error (code, w') ∧ Failed s w'.disk) ∨
      ∃ w', w.extend = .ok w' ∧ Writing s p w' ∧ Took s w'.disk := by
  unfold Wr.extend
  cases alloc : allocCluster w.disk with
  | error code =>
    refine .inl ⟨code, w, rfl, ?_⟩
    rcases writing.phase with ⟨-, same⟩ | took
    · exact .inr ⟨same.full.mp ⟨code, alloc⟩, same⟩
    · exact .inl took
  | ok taken =>
    obtain ⟨disk, r⟩ := taken
    obtain ⟨i, inside, free, rfl, rfl⟩ := writing.grown.allocates alloc
    have took : Took s (setBit w.disk s.l.mapLsn i) := ⟨i, inside, free, setBit_set _ _ _⟩
    dsimp only
    cases made : Wr.append { w with disk := setBit w.disk s.l.mapLsn i, d4 := w.d4 / 65536 * 65536 + s.l.bit }
      (i % 65536 * s.l.bit) s.l.bit with
    | error failed =>
      obtain ⟨code, w'⟩ := failed
      refine .inl ⟨code, w', rfl, .inl ?_⟩
      unfold Wr.append at made
      split at made
      · cases made
        exact took
      · cases made
    | ok w' =>
      have room := s.room i inside free
      have disk : w'.disk = setBit w.disk s.l.mapLsn i := by
        unfold Wr.append at made
        split at made
        · cases made
        · cases made
          rfl
      refine .inr ⟨w', rfl, ⟨?_, fun lsn named => ?_, ?_⟩, ?_⟩
      · rw [disk]
        exact writing.grown.setBit i
      · have positive := s.cluster.1
        rcases append_named (by omega) s.cluster.2 made named with old | ⟨k, low, rfl⟩
        · exact writing.named lsn old
        · have sum : add32 (i % 65536 * s.l.bit) k = i % 65536 * s.l.bit + k := by
            unfold add32
            exact Nat.mod_eq_of_lt (by omega)
          rw [sum]
          exact s.outside i inside free k low
      · rw [disk]
        exact .inr took
      · rw [disk]
        exact took

/-- A write finds the sector of the next byte, or fails. -/
theorem Writing.place {p : Path} {w : Wr} (writing : Writing s p w) (size : Nat) :
    (∃ code w', w.place size = .error (code, w') ∧ Failed s w'.disk) ∨
      ∃ w' lsn d3, w.place size = .ok (w', lsn, d3) ∧ Writing s p w' ∧ Named w'.fd lsn := by
  unfold Wr.place
  cases found : mapOffsetToLSN w.fd w.d5 size with
  | some r =>
    refine .inr ⟨w, r.1, r.2, ?_, writing, mapOffsetToLSN_named found⟩
    rw [Wr.find, found]
    rfl
  | none =>
    have none : w.find size = none := by
      rw [Wr.find, found]
      rfl
    rw [none, Option.elim_none]
    rcases writing.extend with ⟨code, w', failed, left⟩ | ⟨w', made, writing', took⟩
    · rw [failed]
      exact .inl ⟨code, w', rfl, left⟩
    · have bound : ∀ f : Wr → Except (Nat × Wr) (Wr × Nat × Nat), (Except.ok w' : Except (Nat × Wr) Wr).bind f = f w' :=
        fun _ => rfl
      rw [made, bound]
      cases found' : mapOffsetToLSN w'.fd w'.d5 size with
      | none =>
        refine .inl ⟨errEof, w', ?_, .inl took⟩
        rw [Wr.find, found']
        rfl
      | some r =>
        refine .inr ⟨w', r.1, r.2, ?_, writing', mapOffsetToLSN_named found'⟩
        rw [Wr.find, found']
        rfl

/-- The loop up to where it fails. -/
theorem Writing.loop {p : Path} (file : Regular s p) {user : Mem} {fuel code : Nat} {w w' : Wr} (writing : Writing s p w)
    (ran : writeLoop user p.size fuel w = some (some code, w')) : Failed s w'.disk := by
  induction fuel generalizing w with
  | zero => cases ran
  | succ fuel ih =>
    rw [writeLoop] at ran
    by_cases done : w.d4 = 0
    · rw [if_pos done] at ran
      cases ran
    rw [if_neg done] at ran
    rcases writing.place p.size with ⟨code', w1, failed, left⟩ | ⟨w1, lsn, d3, placed, writing', named⟩
    · rw [failed] at ran
      cases ran
      exact left
    · rw [placed] at ran
      dsimp only at ran
      split at ran
      · cases ran
      · exact ih (writing'.put file user d3 _ named) ran

/-- A write that fails gives back what it took only when there was nothing to take. -/
theorem write_back {p : Path} (file : Regular s p) {user : Mem} {q : Regs} {out : Out} {code : Nat}
    (ran : write s.disk p user q = some out) (failed : out.err = some code) : s.Unchanged out.disk ↔ s.Full := by
  have start : Writing s p { disk := s.disk, fd := s.disk p.fd, d4 := q.d1, d5 := p.cp, d7 := 0, a2 := q.a0 } :=
    ⟨Unchanged.grown (fun _ _ => rfl), fun lsn named system => file.named lsn named (.inl system), .inl ⟨rfl, fun _ _ => rfl⟩⟩
  unfold write at ran
  by_cases none : q.d1 = 0
  · rw [if_pos none] at ran
    cases ran
    cases failed
  rw [if_neg none] at ran
  dsimp only at ran
  cases loop : writeLoop user p.size loopBound { disk := s.disk, fd := s.disk p.fd, d4 := q.d1, d5 := p.cp, d7 := 0, a2 := q.a0 } with
  | none =>
    rw [loop] at ran
    cases ran
  | some ended =>
    obtain ⟨err, w'⟩ := ended
    rw [loop] at ran
    cases err with
    | none =>
      cases ran
      cases failed
    | some code' =>
      cases ran
      rcases start.loop file loop with ⟨i, inside, free, set⟩ | ⟨full, same⟩
      · refine iff_of_false (not_unchanged inside free set) ?_
        intro full
        have none := (allocCluster_error s.valid).mp full i inside
        rw [free] at none
        cases none
      · exact iff_of_true same full

/-! ### Rbf_Delete -/

/-- A delete that succeeds never gives back the cluster of the descriptor. -/
theorem delete_back {mod : Nat} {c : Caller} {p : Opened} {v1 v' : Drive} {r : Unit} (start : s.live (c.origin s.l.dir).1)
    (opened : openOn mod c (Drive.quiet s.disk) = .ok p v1) (ran : delete mod c (Drive.quiet s.disk) = .ok r v') :
    ¬ s.GivenBack p.fd v'.disk := by
  obtain ⟨f, v2, path, found⟩ := ran_ok opened
  obtain ⟨target, parent⟩ := parsePath_live s.kept rfl s.valid start path
  obtain ⟨fd, v3, _, found⟩ := ran_ok found
  split at found
  · cases found
    intro back
    obtain ⟨inside, marked⟩ := s.used f.d2 target
    have same : v'.disk (s.l.mapLsn + f.d2 / s.l.bit / 4096) = s.disk (s.l.mapLsn + f.d2 / s.l.bit / 4096) :=
      delete_others opened ran (s.apart f.d2 target _ inside).1 (s.apart f.d7 parent _ inside).2
    have freed := (back (f.d2 / s.l.bit) inside).mpr (.inr ⟨f.d2, List.mem_cons_self, rfl⟩)
    unfold sectorsFree at freed marked
    rw [same, marked] at freed
    cases freed
  · cases found

/-! ### All three -/

/-- Space is given back by a call that fails only when it failed before it took any, and by a delete never. -/
theorem space_back (s : SoundVolume) :
    (∀ kind c e v', createCommon kind c (Drive.quiet s.disk) = .error e v' → (s.Unchanged v'.disk ↔ ¬ Leads s c ∨ s.Full)) ∧
    (∀ p user q out code, Regular s p → write s.disk p user q = some out → out.err = some code →
      (s.Unchanged out.disk ↔ s.Full)) ∧
    ∀ mod c p v1 v' r, s.live (c.origin s.l.dir).1 → openOn mod c (Drive.quiet s.disk) = .ok p v1 →
      delete mod c (Drive.quiet s.disk) = .ok r v' → ¬ s.GivenBack p.fd v'.disk :=
  ⟨fun _ _ _ _ ran => createCommon_back ran, fun _ _ _ _ _ file ran failed => write_back file ran failed,
    fun _ _ _ _ _ _ start opened ran => delete_back start opened ran⟩

end SoundVolume

/-! ### A volume with one file -/

theorem fileTree_clusters : 8 * mapBytes (fileTree 0) = 16 := by decide

theorem fileTree_outside (i : Nat) (inside : i < 8 * mapBytes (fileTree 0)) (free : sectorsFree fileTree 1 i = true) (k : Nat)
    (low : k < 1) : ¬ System fileTree ⟨9, 512, 2, 1, 1⟩ (i % 65536 * 1 + k) := by
  rw [fileTree_clusters] at inside
  have high : 7 ≤ i := by
    by_contra small
    have marked : ∀ i < 7, sectorsFree fileTree 1 i = false := by decide
    rw [marked i (by omega)] at free
    cases free
  rintro (zero | ⟨j, below, same⟩)
  · omega
  · rw [fileTree_clusters] at below
    dsimp only at same
    omega

/-- The root directory in sector 2, and its file in sector 4. -/
def fileVolume : SoundVolume where
  disk := fileTree
  l := ⟨9, 512, 2, 1, 1⟩
  valid := by decide +kernel
  live d := d = 2 ∨ d = 4
  kept := fileTree_kept
  used := by
    rintro d (rfl | rfl) <;> decide
  apart := by
    intro d file i inside
    rw [fileTree_clusters] at inside
    have first : 1 + i / 4096 = 1 := by omega
    dsimp only
    rw [first]
    rcases file with rfl | rfl <;> decide
  cluster := by decide
  room := by
    intro i inside _
    rw [fileTree_clusters] at inside
    dsimp only
    omega
  outside := fileTree_outside

/-- The file "dd", empty, open at its start. -/
def emptyPath : Path := ⟨4, 2, 0, 0, 3, 512⟩

/-- "dd". -/
def ddCaller : Caller := ⟨[0x64, 0x64], none, false, none⟩

/-- The file that is open, and whether a cluster is free behind a call. -/
def openedFile (r : EStateM.Result Failure Drive Opened) : Option Nat :=
  match r with
  | .ok p _ => some p.fd
  | .error _ _ => none

def freeBehind (i : Nat) (r : EStateM.Result Failure Drive Unit) : Option Bool :=
  match r with
  | .ok _ v => some (sectorsFree v.disk 1 i)
  | .error _ _ => none

/-- A byte at the end of the file: the write fails, and cluster 7 stays taken. A delete leaves the cluster of the
descriptor taken. -/
theorem space_lost :
    (∃ out, write fileVolume.disk emptyPath (fun _ => 0) ⟨0, 1, 0, 0⟩ = some out ∧ out.err = some errEof ∧
      ¬ fileVolume.Unchanged out.disk) ∧
    ∃ p v1 v' r, openOn 0 ddCaller (Drive.quiet fileVolume.disk) = .ok p v1 ∧
      delete 0 ddCaller (Drive.quiet fileVolume.disk) = .ok r v' ∧ ¬ fileVolume.GivenBack p.fd v'.disk := by
  constructor
  · have ended : (write fileTree emptyPath (fun _ => 0) ⟨0, 1, 0, 0⟩).map (fun out => (out.err, sectorsFree out.disk 1 7)) =
        some (some errEof, false) := by decide +kernel
    obtain ⟨out, ran, both⟩ := Option.map_eq_some_iff.mp ended
    obtain ⟨error, taken⟩ := Prod.mk.inj both
    have free : sectorsFree fileTree 1 7 = true := by decide
    exact ⟨out, ran, error, SoundVolume.not_unchanged (s := fileVolume) (by decide) free taken⟩
  · have file : openedFile (openOn 0 ddCaller (Drive.quiet fileTree)) = some 4 := by decide
    have still : freeBehind 4 (delete 0 ddCaller (Drive.quiet fileTree)) = some false := by decide
    cases opened : openOn 0 ddCaller (Drive.quiet fileTree) with
    | error e v1 =>
      rw [opened] at file
      cases file
    | ok p v1 =>
      cases ran : delete 0 ddCaller (Drive.quiet fileTree) with
      | error e v' =>
        rw [ran] at still
        cases still
      | ok r v' =>
        rw [opened] at file
        rw [ran] at still
        have fd : p.fd = 4 := Option.some.inj file
        have marked : sectorsFree v'.disk 1 4 = false := Option.some.inj still
        refine ⟨p, v1, v', r, opened, ran, fun back => ?_⟩
        have freed := (back 4 (by decide)).mpr (.inr ⟨p.fd, List.mem_cons_self, by rw [fd]; rfl⟩)
        have same : sectorsFree v'.disk 1 4 = true := freed
        rw [marked] at same
        cases same

/-! ### A directory without room -/

/-- A root directory in sector 2 without any sectors of its own; `bits` is every byte of the bitmap. -/
def bareTree (bits : UInt8) : Disk
  | 0 => fileTree 0
  | 1 => fun _ => bits
  | 2 => fun k => if k = 0 then 0xBF else 0
  | _ => fun _ => 0

/-- With 0xFE every eighth cluster is free, with 0xFF none. -/
def bareVolume (bits : UInt8) (marked : bits = 0xFE ∨ bits = 0xFF) : SoundVolume where
  disk := bareTree bits
  l := fileVolume.l
  valid := fileVolume.valid
  live d := d = 2
  kept := by
    rintro d rfl - entry member
    have none_there : entries (bareTree bits) 2 = [] := by rcases marked with rfl | rfl <;> decide
    rw [none_there] at member
    cases member
  used := by
    rintro d rfl
    rcases marked with rfl | rfl <;> decide
  apart := by
    rintro d rfl i inside
    have first : fileVolume.l.mapLsn + i / 4096 = 1 := by
      have clusters : 8 * mapBytes (bareTree bits 0) = 16 := fileTree_clusters
      have start : fileVolume.l.mapLsn = 1 := rfl
      omega
    rw [first]
    rcases marked with rfl | rfl <;> exact ⟨by decide, by decide⟩
  cluster := fileVolume.cluster
  room := by
    intro i inside _
    have clusters : 8 * mapBytes (bareTree bits 0) = 16 := fileTree_clusters
    have single : fileVolume.l.bit = 1 := rfl
    rw [single]
    omega
  outside := by
    intro i inside free k low
    have clusters : 8 * mapBytes (bareTree bits 0) = 16 := fileTree_clusters
    have single : fileVolume.l.bit = 1 := rfl
    have start : fileVolume.l.mapLsn = 1 := rfl
    have high : 7 ≤ i := by
      by_contra small
      have taken : ∀ i < 7, sectorsFree (bareTree bits) 1 i = false := by rcases marked with rfl | rfl <;> decide
      have clash := taken i (by omega)
      rw [start] at free
      rw [free] at clash
      cases clash
    rw [single] at low ⊢
    rintro (zero | ⟨j, below, same⟩)
    · omega
    · rw [start] at same
      omega

/-- Whether the path leads to a new name, and the error of a call. -/
def newName (r : EStateM.Result Failure Drive Found) : Option Bool :=
  match r with
  | .ok f _ => some (!f.z)
  | .error _ _ => none

def failureOf (r : EStateM.Result Failure Drive Made) : Option Failure :=
  match r with
  | .ok _ _ => none
  | .error e _ => some e

theorem failureOf_eq {r : EStateM.Result Failure Drive Made} {e : Failure} (is : failureOf r = some e) : ∃ v, r = .error e v := by
  cases r with
  | ok made v => cases is
  | error e' v =>
    obtain rfl := Option.some.inj is
    exact ⟨v, rfl⟩

/-- "x" finds no place in the directory and the cluster for it stays taken; with no cluster free nothing changes. -/
theorem space_back_bare :
    (∃ v', createCommon (.file 0) inRoot (Drive.quiet (bareTree 0xFE)) = .error (.error errDirFul) v' ∧
      ¬ (bareVolume 0xFE (Or.inl rfl)).Unchanged v'.disk) ∧
    ∃ v', createCommon (.file 0) inRoot (Drive.quiet (bareTree 0xFF)) = .error (.error errDkFul) v' ∧
      (bareVolume 0xFF (Or.inr rfl)).Unchanged v'.disk := by
  constructor
  · have full : failureOf (createCommon (.file 0) inRoot (Drive.quiet (bareTree 0xFE))) = some (.error errDirFul) := by
      decide +kernel
    have leads : newName (parsePathCreate inRoot (Drive.quiet (bareTree 0xFE))) = some true := by decide
    have free : (allocCluster (bareTree 0xFE)).toOption.isSome = true := by decide +kernel
    obtain ⟨v', ran⟩ := failureOf_eq full
    refine ⟨v', ran, fun same => ?_⟩
    rcases ((SoundVolume.space_back (bareVolume 0xFE (Or.inl rfl))).1 _ _ _ _ ran).mp same with astray | ⟨code, none_free⟩
    · refine astray ?_
      cases parsed : parsePathCreate inRoot (Drive.quiet (bareTree 0xFE)) with
      | error e v =>
        rw [parsed] at leads
        cases leads
      | ok f v =>
        rw [parsed] at leads
        exact ⟨f, v, parsed, by simpa [newName] using leads⟩
    · have alloc : allocCluster (bareTree 0xFE) = .error code := none_free
      rw [alloc] at free
      cases free
  · have full : failureOf (createCommon (.file 0) inRoot (Drive.quiet (bareTree 0xFF))) = some (.error errDkFul) := by
      decide +kernel
    have none_free : (allocCluster (bareTree 0xFF)).toOption.isSome = false := by decide +kernel
    obtain ⟨v', ran⟩ := failureOf_eq full
    refine ⟨v', ran, ((SoundVolume.space_back (bareVolume 0xFF (Or.inr rfl))).1 _ _ _ _ ran).mpr (Or.inr ?_)⟩
    cases alloc : allocCluster (bareTree 0xFF) with
    | error code => exact ⟨code, alloc⟩
    | ok r =>
      rw [alloc] at none_free
      cases none_free

end Q9OS.Rbf

import Mathlib.Tactic
import Q9OS.Rbf.Write

/-!
# Offsets and sectors

What `Rbf_MapOffsetToLSN` makes of an offset, against the segment list of the
descriptor read as one row of sectors.
-/

namespace Q9OS.Rbf

/-- An entry of the segment list: 24 bits for the first sector, 16 for their number. -/
structure Segment where
  start : Nat
  count : Nat
  start_lt : start < 16777216
  count_lt : count < 65536

def segmentAt (fd : Sector) (a1 : Nat) : Segment where
  start := getU24 fd a1
  count := fd.getU16 (a1 + fdslB)
  start_lt := getU24_lt fd a1
  count_lt := fd.getU16_lt _

/-- The entries from `a1` on, up to the first empty one. -/
def segmentsFrom (fd : Sector) : Nat → Nat → List Segment
  | 0, _ => []
  | n + 1, a1 =>
    if getU24 fd a1 = 0 ∧ fd.getU16 (a1 + fdslB) = 0 then [] else segmentAt fd a1 :: segmentsFrom fd n (a1 + fdslS)

def segments (fd : Sector) : List Segment := segmentsFrom fd maxSegs fdSeg

def Segment.sectors (s : Segment) : List Nat := (List.range s.count).map (s.start + ·)

/-- The sector with number `i` in the row, and how many there are from it to the end of its segment. -/
def locate : List Segment → Nat → Option (Nat × Nat)
  | [], _ => none
  | s :: rest, i => if i < s.count then some (s.start + i, s.count - i) else locate rest (i - s.count)

/-- What an offset denotes: the sector, the byte in it and the sectors that are left in the segment. -/
def denoted (fd : Sector) (d0 d1 : Nat) : Option (Nat × Nat × Nat) :=
  if fd.getU32 fdSiz ≤ d0 then none else (locate (segments fd) (d0 / d1)).map fun place => (place.1, d0 % d1, place.2)

/-- The registers `d2`, `d3` and `d4` on return. The word in `d4` is saved on entry and brought back on every exit. -/
def mapRegs (fd : Sector) (d0 d1 d4 : Nat) : Option (Nat × Nat × Nat) :=
  (mapOffsetToLSN fd d0 d1).map fun place => (place.1, place.2, d4 % 65536)

/-! ### The walk over the segments -/

theorem sectorsFrom_segments (fd : Sector) (n a1 : Nat) : sectorsFrom fd n a1 = (segmentsFrom fd n a1).flatMap Segment.sectors := by
  induction n generalizing a1 with
  | zero => rfl
  | succ n ih =>
    rw [sectorsFrom, segmentsFrom]
    split
    · rfl
    · rw [List.flatMap_cons, ← ih]
      rfl

theorem locate_sector (list : List Segment) (i : Nat) : (locate list i).map Prod.fst = (list.flatMap Segment.sectors)[i]? := by
  induction list generalizing i with
  | nil => rfl
  | cons s rest ih =>
    rw [locate, List.flatMap_cons]
    have length : s.sectors.length = s.count := by simp [Segment.sectors]
    split
    · next inside =>
      rw [List.getElem?_append_left (by omega)]
      simp [Segment.sectors, inside]
    · next outside => rw [List.getElem?_append_right (by omega), length, ih]

/-- `Rbf_MapLoop` on the entries. -/
def walk : List Segment → Nat → Option Nat
  | [], _ => none
  | s :: rest, i => if i < extL s.count then some (add32 s.start i) else walk rest (i - extL s.count)

theorem mapLoop_walk (fd : Sector) (n a1 i : Nat) : mapLoop fd n a1 i = walk (segmentsFrom fd n a1) i := by
  induction n generalizing a1 i with
  | zero => rfl
  | succ n ih =>
    rw [mapLoop, segmentsFrom]
    by_cases none : getU24 fd a1 = 0 ∧ fd.getU16 (a1 + fdslB) = 0
    · rw [if_pos none, if_pos ⟨none.1, (extL_zero (fd.getU16_lt _)).mpr none.2⟩]
      rfl
    · rw [if_neg none, if_neg (fun both => none ⟨both.1, (extL_zero (fd.getU16_lt _)).mp both.2⟩), ih]
      rfl

/-- The walk finds the sector with number `i` where the word `d4` says how many follow: no segment of 32768 or more
sectors is passed, unless the row goes on behind it without a gap. -/
def Straight (d4 : Nat) : List Segment → Nat → Prop
  | [], _ => True
  | s :: rest, i =>
    if i < s.count then s.count - i = d4
    else if s.count < 32768 then Straight d4 rest (i - s.count)
    else locate rest (i - s.count) = some (s.start + i, d4)

instance decStraight (d4 : Nat) : ∀ list i, Decidable (Straight d4 list i)
  | [], _ => isTrue trivial
  | s :: rest, i =>
    if inside : i < s.count then decidable_of_iff (s.count - i = d4) (by rw [Straight, if_pos inside])
    else if few : s.count < 32768 then
      have := decStraight d4 rest (i - s.count)
      decidable_of_iff (Straight d4 rest (i - s.count)) (by rw [Straight, if_neg inside, if_pos few])
    else
      decidable_of_iff (locate rest (i - s.count) = some (s.start + i, d4)) (by rw [Straight, if_neg inside, if_neg few])

/-- The walk ends behind all segments. -/
def Beyond : List Segment → Nat → Prop
  | [], _ => True
  | s :: rest, i => s.count ≤ i ∧ s.count < 32768 ∧ Beyond rest (i - s.count)

theorem extL_few {w : Nat} (few : w < 32768) : extL w = w := if_pos few

theorem extL_many {w : Nat} (many : ¬ w < 32768) : 65536 ≤ extL w := by
  unfold extL
  rw [if_neg many]
  omega

theorem le_extL (w : Nat) : w ≤ extL w := by
  unfold extL
  split <;> omega

theorem add32_start (s : Segment) {i : Nat} (small : i < 65536) : add32 s.start i = s.start + i := by
  have start := s.start_lt
  unfold add32
  exact Nat.mod_eq_of_lt (by omega)

theorem walk_locate (d4 : Nat) (list : List Segment) {i : Nat} (small : i < 65536) :
    ((walk list i).map fun lsn => (lsn, d4)) = locate list i ↔ Straight d4 list i := by
  induction list generalizing i with
  | nil => exact iff_of_true rfl trivial
  | cons s rest ih =>
    have above := le_extL s.count
    rw [walk, locate, Straight]
    by_cases inside : i < s.count
    · rw [if_pos inside, if_pos inside, if_pos (by omega), add32_start s small, Option.map_some]
      constructor
      · intro same
        exact (congrArg Prod.snd (Option.some.inj same)).symm
      · rintro rfl
        rfl
    rw [if_neg inside, if_neg inside]
    by_cases few : s.count < 32768
    · rw [if_pos few, extL_few few, if_neg inside]
      exact ih (by omega)
    · have many := extL_many few
      rw [if_neg few, if_pos (by omega), add32_start s small, Option.map_some]
      exact eq_comm

theorem walk_beyond (list : List Segment) {i : Nat} (small : i < 65536) : walk list i = none ↔ Beyond list i := by
  induction list generalizing i with
  | nil => exact iff_of_true rfl trivial
  | cons s rest ih =>
    have above := le_extL s.count
    rw [walk, Beyond]
    by_cases few : s.count < 32768
    · rw [extL_few few]
      by_cases inside : i < s.count
      · rw [if_pos inside]
        exact iff_of_false (by simp) (fun all => by omega)
      · rw [if_neg inside, ih (by omega)]
        exact ⟨fun rest => ⟨by omega, few, rest⟩, fun all => all.2.2⟩
    · have many := extL_many few
      rw [if_pos (by omega)]
      exact iff_of_false (by simp) (fun all => few all.2.1)

/-! ### Offsets -/

/-- At or behind the end of the file; or the quotient is a word, and the walk finds its sector; or it is not, the row
is shorter and the walk for the lower word of the offset ends behind it. -/
def Mappable (fd : Sector) (d0 d1 d4 : Nat) : Prop :=
  fd.getU32 fdSiz ≤ d0 ∨ (d0 / d1 < 65536 ∧ Straight (d4 % 65536) (segments fd) (d0 / d1)) ∨
    (65536 ≤ d0 / d1 ∧ locate (segments fd) (d0 / d1) = none ∧ Beyond (segments fd) (d0 % 65536))

theorem mapRegs_inside {fd : Sector} {d0 d1 : Nat} (inside : ¬ fd.getU32 fdSiz ≤ d0) (d4 : Nat) :
    mapRegs fd d0 d1 d4 = (walk (segments fd) (divu d0 d1).1).map fun lsn => (lsn, (divu d0 d1).2, d4 % 65536) := by
  unfold mapRegs mapOffsetToLSN
  rw [if_neg inside, mapLoop_walk, Option.map_map]
  rfl

/-- Behind an overflow the byte offset is no byte of a sector. -/
theorem overflow_byte {d0 d1 : Nat} (positive : 0 < d1) (large : 65536 ≤ d0 / d1) : d0 % d1 < d0 / 65536 := by
  have below := Nat.mod_lt d0 positive
  have bound := (Nat.le_div_iff_mul_le positive).mp large
  have high : d1 ≤ d0 / 65536 := (Nat.le_div_iff_mul_le (by decide)).mpr (by rw [Nat.mul_comm]; exact bound)
  omega

theorem mapRegs_denoted_iff (fd : Sector) {d0 d1 : Nat} (positive : 0 < d1) (d4 : Nat) :
    mapRegs fd d0 d1 d4 = denoted fd d0 d1 ↔ Mappable fd d0 d1 d4 := by
  unfold Mappable denoted
  by_cases inside : fd.getU32 fdSiz ≤ d0
  · refine iff_of_true ?_ (.inl inside)
    unfold mapRegs mapOffsetToLSN
    rw [if_pos inside, if_pos inside]
    rfl
  rw [mapRegs_inside inside, if_neg inside]
  unfold divu
  by_cases word : d0 / d1 < 65536
  · rw [if_pos word, ← walk_locate _ _ word]
    constructor
    · intro same
      refine .inr (.inl ⟨word, ?_⟩)
      cases found : walk (segments fd) (d0 / d1) <;> cases there : locate (segments fd) (d0 / d1) <;>
        simp_all [Prod.ext_iff]
    · rintro (beyond | ⟨-, same⟩ | ⟨large, -⟩)
      · exact absurd beyond inside
      · rw [← same, Option.map_map]
        rfl
      · omega
  · have large : 65536 ≤ d0 / d1 := by omega
    have byte := overflow_byte positive large
    rw [if_neg word, ← walk_beyond _ (Nat.mod_lt d0 (by decide))]
    dsimp only
    constructor
    · intro same
      refine .inr (.inr ⟨large, ?_⟩)
      -- a sector that is found has its byte offset wrong
      cases found : walk (segments fd) (d0 % 65536) with
      | none =>
        rw [found] at same
        exact ⟨Option.map_eq_none_iff.mp same.symm, rfl⟩
      | some lsn =>
        rw [found] at same
        obtain ⟨place, -, wrong⟩ := Option.map_eq_some_iff.mp same.symm
        have bytes : d0 % d1 = d0 / 65536 := congrArg (fun regs => regs.2.1) wrong
        omega
    · rintro (beyond | ⟨small, -⟩ | ⟨-, none, ends⟩)
      · exact absurd beyond inside
      · exact absurd small word
      · rw [none, ends]
        rfl

theorem denoted_sector {fd : Sector} {d0 d1 lsn d3 d4 : Nat} (here : denoted fd d0 d1 = some (lsn, d3, d4)) :
    (sectors fd)[d0 / d1]? = some lsn ∧ d3 = d0 % d1 := by
  unfold denoted at here
  split at here
  · cases here
  · obtain ⟨place, found, same⟩ := Option.map_eq_some_iff.mp here
    obtain ⟨rfl, rfl, -⟩ : place.1 = lsn ∧ d0 % d1 = d3 ∧ place.2 = d4 := by simpa using same
    refine ⟨?_, rfl⟩
    have row := locate_sector (segments fd) (d0 / d1)
    rw [found] at row
    unfold sectors
    rw [sectorsFrom_segments]
    exact row.symm

/-- Offsets that are mapped to one byte of segments that do not meet are one offset. -/
theorem mapped_apart {fd : Sector} {d0 d0' d1 d4 d4' : Nat} (positive : 0 < d1) (nodup : (sectors fd).Nodup)
    (good : Mappable fd d0 d1 d4) (good' : Mappable fd d0' d1 d4') {place : Nat × Nat}
    (one : mapOffsetToLSN fd d0 d1 = some place) (two : mapOffsetToLSN fd d0' d1 = some place) : d0 = d0' := by
  have here := (mapRegs_denoted_iff fd positive d4).mpr good
  have there := (mapRegs_denoted_iff fd positive d4').mpr good'
  unfold mapRegs at here there
  rw [one] at here
  rw [two] at there
  obtain ⟨first, byte⟩ := denoted_sector here.symm
  obtain ⟨second, byte'⟩ := denoted_sector there.symm
  have inside := (List.getElem?_eq_some_iff.mp first).1
  have number : d0 / d1 = d0' / d1 := (List.getElem?_inj inside nodup).mp (first.trans second.symm)
  rw [← Nat.div_add_mod d0 d1, ← Nat.div_add_mod d0' d1, number, ← byte, ← byte']

/-- `Rbf_MapOffsetToLSN` gives what the offset denotes exactly where it is mappable, and mappable offsets of
disjoint segments do not meet. -/
theorem mapOffsetToLSN_exact (fd : Sector) {d1 : Nat} (positive : 0 < d1) :
    (∀ d0 d4, mapRegs fd d0 d1 d4 = denoted fd d0 d1 ↔ Mappable fd d0 d1 d4) ∧
      ((sectors fd).Nodup → ∀ d0 d0' d4 d4' place, Mappable fd d0 d1 d4 → Mappable fd d0' d1 d4' →
        mapOffsetToLSN fd d0 d1 = some place → mapOffsetToLSN fd d0' d1 = some place → d0 = d0') :=
  ⟨fun _ d4 => mapRegs_denoted_iff fd positive d4,
    fun nodup _ _ _ _ _ good good' one two => mapped_apart positive nodup good good' one two⟩

/-- The last sector of two, when the caller happens to hold a 1 in d4. -/
theorem mapOffsetToLSN_exact_last :
    mapRegs (smallDisk 1000 2) 600 512 1 = denoted (smallDisk 1000 2) 600 512 := by
  refine ((mapOffsetToLSN_exact (smallDisk 1000 2) (by decide : 0 < 512)).1 600 1).mpr (.inr (.inl ⟨by decide, ?_⟩))
  decide

/-- The caller's d4 stands for the number of sectors. -/
theorem mapRegs_count_kept : mapRegs (smallDisk 1000 2) 600 512 7 = some (4, 88, 7) ∧
    denoted (smallDisk 1000 2) 600 512 = some (4, 88, 1) := by
  decide

end Q9OS.Rbf

import Mathlib.Data.Nat.Bitwise
import Mathlib.Tactic
import Q9OS.Lib.Mem
import Q9OS.Lib.Stretch

/-!
# Allocation bitmaps

F$AllBit, F$DelBit and F$SchBit of `q9kernel_bitmap.c`. The first bit of a byte
is its most significant one.
-/

namespace Q9OS

namespace Bitmap

def bitMask (bit : Nat) : Nat := 0x80 >>> (bit % 8)

def bitmapTest (m : Mem) (base bit : Nat) : Bool := m.getU8 (base + bit / 8) &&& bitMask bit ≠ 0

/-- Applies `change` to the byte and the mask of `n` bits from `bit` on. -/
def eachBit (change : Nat → Nat → Nat) (m : Mem) (base bit : Nat) : Nat → Mem
  | 0 => m
  | n + 1 =>
    let index := bit / 8
    eachBit change (m.setU8 (base + index) (change (m.getU8 (base + index)) (bitMask bit))) base (bit + 1) n

/-- F$AllBit. -/
def bitmapAllocate (m : Mem) (base firstBit count : Nat) : Mem :=
  eachBit (fun byte mask => byte ||| mask) m base firstBit ((firstBit + count) % 2 ^ 32 - firstBit)

/-- F$DelBit. -/
def bitmapDeallocate (m : Mem) (base firstBit count : Nat) : Mem :=
  eachBit (fun byte mask => byte &&& (0xFF ^^^ mask)) m base firstBit ((firstBit + count) % 2 ^ 32 - firstBit)

structure Runs where
  runStart : Nat
  runLength : Nat
  bestStart : Nat
  bestLength : Nat

/-- The loop over `n` bits from `bit` on. -/
def searchLoop (m : Mem) (base count bit : Nat) (s : Runs) : Nat → Bool × Nat × Nat
  | 0 => (false, s.bestStart, s.bestLength)
  | n + 1 =>
    if bitmapTest m base bit then searchLoop m base count (bit + 1) { s with runLength := 0 } n
    else
      let runStart := if s.runLength = 0 then bit else s.runStart
      let runLength := s.runLength + 1
      let s : Runs :=
        if runLength > s.bestLength then ⟨runStart, runLength, runStart, runLength⟩
        else ⟨runStart, runLength, s.bestStart, s.bestLength⟩
      if count ≠ 0 ∧ runLength ≥ count then (true, runStart, count) else searchLoop m base count (bit + 1) s n

/-- F$SchBit: whether a run was found, its start and its length. -/
def bitmapSearch (m : Mem) (base endExclusive firstBit count : Nat) : Bool × Nat × Nat :=
  if base = 0 ∨ endExclusive ≤ base then (false, 0, 0)
  else
    let totalBits := (endExclusive - base) * 8 % 2 ^ 32
    if firstBit ≥ totalBits then (false, 0, 0)
    else searchLoop m base count firstBit ⟨0, 0, 0, 0⟩ (totalBits - firstBit)

/-! ### Single bits -/

theorem bitMask_eq (bit : Nat) : bitMask bit = 2 ^ (7 - bit % 8) := by
  have small : bit % 8 < 8 := Nat.mod_lt bit (by decide)
  unfold bitMask
  generalize bit % 8 = k at small
  decide +revert

theorem testBit_bitMask (bit i : Nat) : (bitMask bit).testBit i = decide (i = 7 - bit % 8) := by
  rw [bitMask_eq, Nat.testBit_two_pow]
  exact decide_eq_decide.mpr eq_comm

theorem bitmapTest_eq (m : Mem) (base bit : Nat) :
    bitmapTest m base bit = (m.getU8 (base + bit / 8)).testBit (7 - bit % 8) := by
  unfold bitmapTest
  rw [bitMask_eq, Nat.and_two_pow]
  cases (m.getU8 (base + bit / 8)).testBit (7 - bit % 8) <;> simp

theorem byte_eq {b b' : Nat} (small : b < 256) (small' : b' < 256) (same : ∀ i < 8, b.testBit i = b'.testBit i) : b = b' := by
  apply Nat.eq_of_testBit_eq
  intro i
  by_cases inside : i < 8
  · exact same i inside
  · have wide : 2 ^ 8 ≤ 2 ^ i := Nat.pow_le_pow_right Nat.two_pos (show 8 ≤ i by omega)
    rw [Nat.testBit_lt_two_pow (by omega), Nat.testBit_lt_two_pow (by omega)]

/-- The bits from `base` on and the bytes before it are all of a memory. -/
theorem mem_eq {m m' : Mem} (base : Nat) (before : ∀ x < base, m x = m' x)
    (bits : ∀ bit, bitmapTest m base bit = bitmapTest m' base bit) : m = m' := by
  funext x
  by_cases below : x < base
  · exact before x below
  · apply UInt8.toNat_inj.mp
    apply byte_eq (m.getU8_lt x) (m'.getU8_lt x)
    intro i inside
    have bit := bits ((x - base) * 8 + (7 - i))
    rw [bitmapTest_eq, bitmapTest_eq, show base + ((x - base) * 8 + (7 - i)) / 8 = x by omega,
      show 7 - ((x - base) * 8 + (7 - i)) % 8 = i by omega] at bit
    exact bit

/-- The change gives the bit under the mask the value `v` and keeps the other bits of the byte. -/
def Writes (change : Nat → Nat → Nat) (v : Bool) : Prop :=
  ∀ byte < 256, ∀ bit, change byte (bitMask bit) < 256 ∧
    ∀ i < 8, (change byte (bitMask bit)).testBit i = if i = 7 - bit % 8 then v else byte.testBit i

theorem bitMask_lt (bit : Nat) : bitMask bit < 256 := by
  rw [bitMask_eq]
  exact Nat.pow_lt_pow_right (n := 8) (by decide) (by omega)

theorem writes_or : Writes (fun byte mask => byte ||| mask) true := by
  intro byte small bit
  refine ⟨Nat.or_lt_two_pow (n := 8) small (bitMask_lt bit), ?_⟩
  intro i inside
  rw [Nat.testBit_or, testBit_bitMask]
  split <;> simp_all

theorem writes_and_not : Writes (fun byte mask => byte &&& (0xFF ^^^ mask)) false := by
  intro byte small bit
  refine ⟨lt_of_le_of_lt Nat.and_le_left small, ?_⟩
  intro i inside
  have full : (0xFF : Nat).testBit i = true := by
    rw [show (0xFF : Nat) = 2 ^ 8 - 1 from rfl, Nat.testBit_two_pow_sub_one]
    exact decide_eq_true inside
  rw [Nat.testBit_and, Nat.testBit_xor, full, testBit_bitMask]
  split <;> simp_all

/-! ### Runs of bits -/

/-- From `m` to `m'` the `n` bits from `start` on have become `v`, and nothing else has changed. -/
structure Marks (m m' : Mem) (base start n : Nat) (v : Bool) : Prop where
  bits : ∀ bit, bitmapTest m' base bit = if start ≤ bit ∧ bit < start + n then v else bitmapTest m base bit
  before : ∀ x < base, m' x = m x

variable {change : Nat → Nat → Nat} {v : Bool}

theorem marks_one (writes : Writes change v) (m : Mem) (base bit : Nat) :
    Marks m (m.setU8 (base + bit / 8) (change (m.getU8 (base + bit / 8)) (bitMask bit))) base bit 1 v := by
  obtain ⟨small, bits⟩ := writes _ (m.getU8_lt (base + bit / 8)) bit
  refine ⟨?_, fun x below => Mem.setU8_of_ne m _ (by omega)⟩
  intro b
  rw [bitmapTest_eq, bitmapTest_eq]
  by_cases same : b / 8 = bit / 8
  · rw [same, Mem.getU8_setU8, Nat.mod_eq_of_lt small, bits _ (by omega)]
    exact if_congr (by omega) rfl rfl
  · rw [Mem.getU8_setU8_apart m _ (by omega), if_neg (by omega)]

theorem marks_each (writes : Writes change v) (m : Mem) (base bit n : Nat) :
    Marks m (eachBit change m base bit n) base bit n v := by
  induction n generalizing m bit with
  | zero => exact ⟨fun b => (if_neg (by omega)).symm, fun x below => rfl⟩
  | succ n ih =>
    have first := marks_one writes m base bit
    have rest := ih (m.setU8 (base + bit / 8) (change (m.getU8 (base + bit / 8)) (bitMask bit))) (bit + 1)
    refine ⟨?_, fun x below => (rest.before x below).trans (first.before x below)⟩
    intro b
    rw [eachBit, rest.bits, first.bits]
    split_ifs <;> first | rfl | omega

theorem run_length {start n : Nat} (fits : 0 < n → start + n < 2 ^ 32) : (start + n) % 2 ^ 32 - start = n := by
  omega

theorem marks_allocate (m : Mem) (base : Nat) {start n : Nat} (fits : 0 < n → start + n < 2 ^ 32) :
    Marks m (bitmapAllocate m base start n) base start n true := by
  rw [bitmapAllocate, run_length fits]
  exact marks_each writes_or m base start n

theorem marks_deallocate (m : Mem) (base : Nat) {start n : Nat} (fits : 0 < n → start + n < 2 ^ 32) :
    Marks m (bitmapDeallocate m base start n) base start n false := by
  rw [bitmapDeallocate, run_length fits]
  exact marks_each writes_and_not m base start n

/-- Freeing what was taken restores a run that was free. -/
theorem Marks.restored {m m' m'' : Mem} {base start n : Nat} (taken : Marks m m' base start n true)
    (freed : Marks m' m'' base start n false) (free : ∀ bit, start ≤ bit → bit < start + n → bitmapTest m base bit = false) :
    m'' = m := by
  apply mem_eq base
  · intro x below
    rw [freed.before x below, taken.before x below]
  · intro bit
    rw [freed.bits, taken.bits]
    split
    · next inside => exact (free bit inside.1 inside.2).symm
    · rfl

/-! ### Search -/

def Clear (m : Mem) (base bit : Nat) : Prop := bitmapTest m base bit = false

/-- What a search for `count` bits answers about the bits from `low` up to `high`. -/
def Answer (clear : Nat → Prop) (low high count : Nat) : Bool × Nat × Nat → Prop
  | (true, start, found) => 0 < count ∧ found = count ∧ IsLeast {s | Stretch clear low high s count} start
  | (false, start, found) => (0 < count → found < count) ∧ Longest clear low high start found

/-- What the loop knows about the bits up to `bit`. -/
structure Seen (clear : Nat → Prop) (low bit count : Nat) (s : Runs) : Prop where
  inside : low ≤ bit
  reaching : Reaching clear low bit s.runStart s.runLength
  longest : Longest clear low bit s.bestStart s.bestLength
  short : 0 < count → s.bestLength < count

theorem searchLoop_answer {m : Mem} {base count low bit n : Nat} {s : Runs} (seen : Seen (Clear m base) low bit count s) :
    Answer (Clear m base) low (bit + n) count (searchLoop m base count bit s n) := by
  induction n generalizing bit s with
  | zero => exact ⟨seen.short, seen.longest⟩
  | succ n ih =>
    obtain ⟨inside, reaching, longest, short⟩ := seen
    rw [searchLoop, show bit + (n + 1) = bit + 1 + n by omega]
    by_cases test : bitmapTest m base bit = true
    · have taken : ¬ Clear m base bit := fun clear => absurd (test.symm.trans clear) (by decide)
      rw [if_pos test]
      exact ih ⟨by omega, .taken taken, longest.taken taken, short⟩
    · have free : Clear m base bit := Bool.eq_false_iff.mpr test
      have further := reaching.free free inside
      have best := longest.free further (by omega)
      rw [if_neg test]
      dsimp only
      generalize (if s.runLength = 0 then bit else s.runStart) = runStart at further best ⊢
      by_cases enough : count ≠ 0 ∧ s.runLength + 1 ≥ count
      · obtain ⟨same, least⟩ := further.least longest (short (by omega)) enough.2 (show bit < bit + 1 + n by omega)
        rw [if_pos enough]
        exact ⟨by omega, rfl, least⟩
      · rw [if_neg enough]
        apply ih
        split
        · next longer =>
          rw [if_pos longer] at best
          exact ⟨by omega, further, best, fun wanted => by dsimp only; omega⟩
        · next no_longer =>
          rw [if_neg no_longer] at best
          exact ⟨by omega, further, best, short⟩

/-- The number of bits of a bitmap; there are none at address 0. -/
def bits (base endExclusive : Nat) : Nat := if base = 0 then 0 else (endExclusive - base) * 8

theorem bitmapSearch_answer (m : Mem) {base endExclusive : Nat} (firstBit count : Nat)
    (size : endExclusive - base ≤ 2 ^ 29 - 1) :
    Answer (Clear m base) firstBit (bits base endExclusive) count (bitmapSearch m base endExclusive firstBit count) := by
  have nothing : bits base endExclusive ≤ firstBit →
      Answer (Clear m base) firstBit (bits base endExclusive) count (false, 0, 0) := by
    intro outside
    refine ⟨id, by omega, ?_, by omega⟩
    rintro s n ⟨above, below, -⟩
    omega
  unfold bitmapSearch
  by_cases empty : base = 0 ∨ endExclusive ≤ base
  · rw [if_pos empty]
    apply nothing
    unfold bits
    split <;> omega
  · have total : bits base endExclusive = (endExclusive - base) * 8 := if_neg (fun null => empty (.inl null))
    have fits : (endExclusive - base) * 8 % 2 ^ 32 = bits base endExclusive := by omega
    rw [if_neg empty]
    dsimp only
    rw [fits]
    split
    · next outside => exact nothing outside
    · next inside =>
      have start : Seen (Clear m base) firstBit firstBit count ⟨0, 0, 0, 0⟩ :=
        ⟨le_refl _, reaching_start firstBit 0, longest_start firstBit, id⟩
      have found := searchLoop_answer (n := bits base endExclusive - firstBit) start
      rwa [Nat.add_sub_cancel' (by omega)] at found

/-- F$SchBit finds the lowest run of the wanted length, or else reports the first of the longest runs; F$AllBit
and F$DelBit of the run it reports touch the bits of that run only, and the bitmap is as before after both. -/
theorem bitmapSearch_correct (m : Mem) (base endExclusive firstBit count : Nat)
    (size : endExclusive - base ≤ 2 ^ 29 - 1) (wanted : 0 < count) :
    ∃ ok start found, bitmapSearch m base endExclusive firstBit count = (ok, start, found) ∧
      (ok = true ↔ ∃ s, Stretch (Clear m base) firstBit (bits base endExclusive) s count) ∧
      (ok = true → found = count ∧
        IsLeast {s | Stretch (Clear m base) firstBit (bits base endExclusive) s count} start) ∧
      (ok = false → Longest (Clear m base) firstBit (bits base endExclusive) start found) ∧
      Marks m (bitmapAllocate m base start found) base start found true ∧
      Marks (bitmapAllocate m base start found) (bitmapDeallocate (bitmapAllocate m base start found) base start found)
        base start found false ∧
      bitmapDeallocate (bitmapAllocate m base start found) base start found = m := by
  have answer := bitmapSearch_answer m firstBit count size
  have total : bits base endExclusive < 2 ^ 32 := by
    unfold bits
    split <;> omega
  cases search : bitmapSearch m base endExclusive firstBit count with
  | mk ok rest =>
    obtain ⟨start, found⟩ := rest
    rw [search] at answer
    have run : 0 < found → Stretch (Clear m base) firstBit (bits base endExclusive) start found := by
      intro some
      cases ok with
      | true =>
        obtain ⟨-, rfl, least⟩ := answer
        exact least.1
      | false => exact answer.2.stretch some
    have fits : 0 < found → start + found < 2 ^ 32 := fun some => lt_of_le_of_lt (run some).high total
    have free : ∀ bit, start ≤ bit → bit < start + found → bitmapTest m base bit = false :=
      fun bit above below => (run (by omega)).clear bit above below
    have taken := marks_allocate m base fits
    have freed := marks_deallocate (bitmapAllocate m base start found) base fits
    refine ⟨ok, start, found, rfl, ?_, ?_, ?_, taken, freed, taken.restored freed free⟩
    · cases ok with
      | true => exact iff_of_true rfl ⟨start, answer.2.2.1⟩
      | false =>
        refine iff_of_false Bool.false_ne_true ?_
        rintro ⟨s, stretch⟩
        have := answer.2.longest s count stretch
        have := answer.1 wanted
        omega
    · rintro rfl
      exact answer.2
    · rintro rfl
      exact answer.2

/-- Bits 0 to 2 and 6 of the byte at 16 are taken, and none of the next one. -/
def sample : Mem := fun x => if x = 16 then 0xE2 else 0

example : bitmapSearch sample 16 18 1 4 = (true, 7, 4) := by decide

theorem bitmapSearch_correct_small :
    ∃ ok start found, bitmapSearch sample 16 18 1 4 = (ok, start, found) ∧
      (ok = true ↔ ∃ s, Stretch (Clear sample 16) 1 (bits 16 18) s 4) ∧
      (ok = true → found = 4 ∧ IsLeast {s | Stretch (Clear sample 16) 1 (bits 16 18) s 4} start) ∧
      (ok = false → Longest (Clear sample 16) 1 (bits 16 18) start found) ∧
      Marks sample (bitmapAllocate sample 16 start found) 16 start found true ∧
      Marks (bitmapAllocate sample 16 start found) (bitmapDeallocate (bitmapAllocate sample 16 start found) 16 start found)
        16 start found false ∧
      bitmapDeallocate (bitmapAllocate sample 16 start found) 16 start found = sample :=
  bitmapSearch_correct sample 16 18 1 4 (by decide) (by decide)

end Bitmap

end Q9OS

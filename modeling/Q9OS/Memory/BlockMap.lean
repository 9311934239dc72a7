import Mathlib.Tactic
import Q9OS.Memory.FreeList

/-!
# F$GBlkMp

`Q9K_BlkMpCollect` of `q9kernel_blkmap.c`: the free list, copied as pairs into a
buffer of the caller.
-/

namespace Q9OS

namespace BlkMp

open Arena

def eBpaddr : Nat := 0xD2
def pairBytes : Nat := 8

/-- What the walk over the free list leaves. -/
structure Report where
  frags : Nat
  free : Nat
  written : Nat
  mem : Mem

def storePair (m : Mem) (buf i addr size : Nat) : Mem :=
  (m.setU32 (buf + i * pairBytes) addr).setU32 (buf + i * pairBytes + 4) size

/-- One free block: counted, and written as long as there is room. -/
def report (buf capacity beginAt block : Nat) (r : Report) : Report :=
  let size := r.mem.getU32 (block + 4)
  if block ≥ beginAt then
    let r := { r with frags := (r.frags + 1) % 4294967296, free := (r.free + size) % 4294967296 }
    if r.written < capacity then
      { r with mem := storePair r.mem buf r.written block size, written := r.written + 1 }
    else r
  else r

def collectWalk (buf capacity beginAt : Nat) : Nat → Nat → Report → Report
  | 0, _, r => r
  | fuel + 1, block, r =>
    if block = 0 then r
    else
      let r := report buf capacity beginAt block r
      collectWalk buf capacity beginAt fuel (r.mem.getU32 block) r

/-- The number of fragments, the free total and the memory, with the error when the buffer has no room. -/
def blkMpCollect (m : Mem) (buf bufSize beginAt : Nat) : Except Nat Unit × Nat × Nat × Mem :=
  let block := m.getU32 arenaHead
  if buf = 0 then (.error eBpaddr, 0, 0, m)
  else if bufSize < pairBytes then (.error eBpaddr, 0, 0, m)
  else
    let capacity := bufSize / pairBytes - 1
    let r := collectWalk buf capacity beginAt walkLimit block ⟨0, 0, 0, m⟩
    (.ok (), r.frags, r.free, storePair r.mem buf r.written 0 0)

/-! ### Sizes -/

/-- Blocks that are apart cover as many addresses as they are long together. -/
theorem covered (blocks : List Block) (apart : blocks.Pairwise Block.Apart) :
    ∃ addresses : Finset Nat, addresses.card = (blocks.map Block.size).sum ∧
      ∀ x, x ∈ addresses ↔ ∃ b ∈ blocks, b.Covers x := by
  induction blocks with
  | nil => exact ⟨∅, rfl, by simp⟩
  | cons b blocks ih =>
    obtain ⟨first, rest⟩ := List.pairwise_cons.mp apart
    obtain ⟨addresses, card, covers⟩ := ih rest
    have own : ∀ x, x ∈ Finset.Ico b.addr (b.addr + b.size) ↔ b.Covers x := fun x => Finset.mem_Ico
    have disjoint : Disjoint (Finset.Ico b.addr (b.addr + b.size)) addresses := by
      apply Finset.disjoint_left.mpr
      intro x here there
      obtain ⟨c, member, inside⟩ := (covers x).mp there
      have here := (own x).mp here
      have apart := first c member
      unfold Block.Covers Block.Apart at *
      omega
    refine ⟨Finset.Ico b.addr (b.addr + b.size) ∪ addresses, ?_, ?_⟩
    · rw [Finset.card_union_of_disjoint disjoint, card, Nat.card_Ico, Nat.add_sub_cancel_left]
      simp
    · intro x
      rw [Finset.mem_union, own, covers]
      simp

/-- The blocks of a free list are not longer together than the address space. -/
theorem total_lt {m : Mem} {head : Nat} {free some : List Block} (list : IsFreeList m head free) (spaced : Spaced free)
    (sub : some.Sublist free) : (some.map Block.size).sum < 4294967296 := by
  obtain ⟨addresses, card, covers⟩ := covered some (spaced.apart.sublist sub)
  have inside : addresses ⊆ Finset.Icc 1 4294967295 := by
    intro x member
    obtain ⟨b, inSome, above, below⟩ := (covers x).mp member
    have inFree := sub.subset inSome
    have fits := spaced.fits b inFree
    have live := list.1.ne_null (List.mem_map_of_mem (f := Block.addr) inFree)
    exact Finset.mem_Icc.mpr ⟨by omega, by omega⟩
  have bound := Finset.card_le_card inside
  rw [Nat.card_Icc] at bound
  omega

/-! ### Pairs in the buffer -/

/-- The blocks stand at `a` as pairs of address and size. -/
def Pairs (m : Mem) : Nat → List Block → Prop
  | _, [] => True
  | a, b :: blocks => m.getU32 a = b.addr ∧ m.getU32 (a + 4) = b.size ∧ Pairs m (a + pairBytes) blocks

theorem Pairs.congr {m m' : Mem} {a : Nat} {blocks : List Block} (pairs : Pairs m a blocks)
    (same : ∀ x, a ≤ x → x < a + blocks.length * pairBytes → m' x = m x) : Pairs m' a blocks := by
  induction blocks generalizing a with
  | nil => trivial
  | cons b blocks ih =>
    obtain ⟨addr, size, rest⟩ := pairs
    simp only [List.length_cons, pairBytes] at same
    refine ⟨(Mem.getU32_congr (fun x low high => same x low (by omega))).trans addr,
      (Mem.getU32_congr (fun x low high => same x (by omega) (by omega))).trans size, ih rest ?_⟩
    intro x low high
    unfold pairBytes at low high
    exact same x (by omega) (by omega)

theorem Pairs.append {m : Mem} {a : Nat} {front back : List Block} (pairs : Pairs m a front)
    (more : Pairs m (a + front.length * pairBytes) back) : Pairs m a (front ++ back) := by
  induction front generalizing a with
  | nil => simpa using more
  | cons b front ih =>
    obtain ⟨addr, size, rest⟩ := pairs
    refine ⟨addr, size, ih rest ?_⟩
    have place : a + (b :: front).length * pairBytes = a + pairBytes + front.length * pairBytes := by
      rw [List.length_cons]
      unfold pairBytes
      omega
    rwa [place] at more

theorem storePair_outside (m : Mem) (buf i addr size : Nat) {x : Nat}
    (outside : x < buf + i * pairBytes ∨ buf + i * pairBytes + pairBytes ≤ x) : storePair m buf i addr size x = m x := by
  unfold storePair
  unfold pairBytes at *
  rw [Mem.setU32_outside _ _ (by omega), Mem.setU32_outside _ _ (by omega)]

theorem storePair_pairs (m : Mem) (buf i : Nat) {b : Block} (addr : b.addr < 4294967296) (size : b.size < 4294967296) :
    Pairs (storePair m buf i b.addr b.size) (buf + i * pairBytes) [b] := by
  unfold storePair
  refine ⟨?_, Mem.getU32_setU32_of_lt _ _ size, trivial⟩
  rw [Mem.getU32_setU32_apart _ _ (by omega), Mem.getU32_setU32_of_lt _ _ addr]

theorem Pairs.store {m : Mem} {buf : Nat} {blocks : List Block} (pairs : Pairs m buf blocks) {b : Block}
    (addr : b.addr < 4294967296) (size : b.size < 4294967296) :
    Pairs (storePair m buf blocks.length b.addr b.size) buf (blocks ++ [b]) := by
  refine Pairs.append (pairs.congr ?_) (storePair_pairs m buf blocks.length addr size)
  intro x low high
  exact storePair_outside m buf _ _ _ (.inl high)

/-! ### The walk -/

def reported (beginAt : Nat) (blocks : List Block) : List Block := blocks.filter (fun b => beginAt ≤ b.addr)

/-- A buffer of the caller: some range of addresses beside the free blocks and the cells of the list. -/
structure Buffer (buf bufSize : Nat) (free : List Block) : Prop where
  fits : buf + bufSize ≤ 4294967296
  apart : ∀ b ∈ free, b.addr + b.size ≤ buf ∨ buf + bufSize ≤ b.addr
  cells : buf + bufSize ≤ arenaHead ∨ arenaTail + 4 ≤ buf

variable {m : Mem} {buf bufSize capacity beginAt head : Nat} {free seen rest : List Block} {b : Block} {r : Report}

/-- The report on the blocks seen so far. -/
structure Counted (m : Mem) (buf capacity beginAt : Nat) (seen : List Block) (r : Report) : Prop where
  frags : r.frags = (reported beginAt seen).length
  free : r.free = ((reported beginAt seen).map Block.size).sum
  written : r.written = ((reported beginAt seen).take capacity).length
  pairs : Pairs r.mem buf ((reported beginAt seen).take capacity)
  outside : ∀ x, x < buf ∨ buf + capacity * pairBytes ≤ x → r.mem x = m x

theorem reported_length_lt (list : IsFreeList m head free) (spaced : Spaced free) :
    (reported beginAt free).length < 4294967296 := by
  have short := list.length_lt (fun b member => by
    have := spaced.fits b member
    have := spaced.header b member
    omega)
  exact lt_of_le_of_lt (List.length_filter_le _ _) short

theorem Counted.report (counted : Counted m buf capacity beginAt seen r) (size : r.mem.getU32 (b.addr + 4) = b.size)
    (few : (reported beginAt (seen ++ [b])).length < 4294967296)
    (small : ((reported beginAt (seen ++ [b])).map Block.size).sum < 4294967296) (fits : b.addr < 4294967296) :
    Counted m buf capacity beginAt (seen ++ [b]) (report buf capacity beginAt b.addr r) := by
  obtain ⟨frags, total, written, pairs, outside⟩ := counted
  by_cases later : beginAt ≤ b.addr
  · have more : reported beginAt (seen ++ [b]) = reported beginAt seen ++ [b] := by simp [reported, later]
    rw [more] at few small
    simp only [List.length_append, List.length_singleton, List.map_append, List.map_singleton, List.sum_append,
      List.sum_singleton] at few small
    unfold BlkMp.report
    rw [size, if_pos later]
    dsimp only
    by_cases room : (reported beginAt seen).length < capacity
    · have all : (reported beginAt seen).take capacity = reported beginAt seen := List.take_of_length_le room.le
      have all' : (reported beginAt (seen ++ [b])).take capacity = reported beginAt seen ++ [b] := by
        rw [more]
        exact List.take_of_length_le (by simpa using room)
      rw [all] at written pairs
      rw [if_pos (by omega)]
      refine ⟨?_, ?_, ?_, ?_, ?_⟩
      · rw [more, frags]
        simp only [List.length_append, List.length_singleton]
        exact Nat.mod_eq_of_lt few
      · rw [more, total]
        simp only [List.map_append, List.map_singleton, List.sum_append, List.sum_singleton]
        exact Nat.mod_eq_of_lt small
      · rw [all', written]
        simp
      · rw [all', written]
        exact pairs.store fits (by omega)
      · intro x apart
        have beside := outside x apart
        unfold pairBytes at apart
        rw [← beside]
        apply storePair_outside
        unfold pairBytes
        omega
    · have full : (reported beginAt (seen ++ [b])).take capacity = (reported beginAt seen).take capacity := by
        rw [more, List.take_append_of_le_length (by omega)]
      have long : ((reported beginAt seen).take capacity).length = capacity := by
        rw [List.length_take]
        omega
      rw [if_neg (by omega)]
      refine ⟨?_, ?_, ?_, ?_, outside⟩
      · rw [more, frags]
        simp only [List.length_append, List.length_singleton]
        exact Nat.mod_eq_of_lt few
      · rw [more, total]
        simp only [List.map_append, List.map_singleton, List.sum_append, List.sum_singleton]
        exact Nat.mod_eq_of_lt small
      · rw [full]
        exact written
      · rw [full]
        exact pairs
  · have same : reported beginAt (seen ++ [b]) = reported beginAt seen := by simp [reported, later]
    have skipped : BlkMp.report buf capacity beginAt b.addr r = r := if_neg later
    rw [skipped]
    exact ⟨same ▸ frags, same ▸ total, same ▸ written, same ▸ pairs, outside⟩

theorem collectWalk_counted {fuel cur : Nat} (list : IsFreeList m cur rest) (enough : rest.length < fuel)
    (counted : Counted m buf capacity beginAt seen r)
    (few : (reported beginAt (seen ++ rest)).length < 4294967296)
    (small : ((reported beginAt (seen ++ rest)).map Block.size).sum < 4294967296) (spaced : Spaced rest)
    (apart : ∀ b ∈ rest, b.addr + b.size ≤ buf ∨ buf + capacity * pairBytes ≤ b.addr) :
    Counted m buf capacity beginAt (seen ++ rest) (collectWalk buf capacity beginAt fuel cur r) := by
  induction rest generalizing fuel cur seen r with
  | nil =>
    cases fuel with
    | zero => exact absurd enough (Nat.not_lt_zero _)
    | succ fuel =>
      rw [collectWalk, if_pos (IsFreeList.nil_iff.mp list), List.append_nil]
      exact counted
  | cons b rest ih =>
    cases fuel with
    | zero => exact absurd enough (Nat.not_lt_zero _)
    | succ fuel =>
      obtain ⟨rfl, live, size, onward⟩ := IsFreeList.cons_iff.mp list
      have header := spaced.header b List.mem_cons_self
      have fits := spaced.fits b List.mem_cons_self
      have beside := apart b List.mem_cons_self
      have shift : seen ++ b :: rest = seen ++ [b] ++ rest := by simp
      have front : (reported beginAt (seen ++ [b])).Sublist (reported beginAt (seen ++ b :: rest)) := by
        rw [shift]
        exact (List.sublist_append_left _ rest).filter _
      have next : Counted m buf capacity beginAt (seen ++ [b]) (BlkMp.report buf capacity beginAt b.addr r) := by
        apply counted.report
        · rw [← size]
          exact Mem.getU32_congr (fun x low high => counted.outside x (by omega))
        · exact lt_of_le_of_lt front.length_le few
        · exact lt_of_le_of_lt ((front.map Block.size).sum_le_sum (fun n _ => Nat.zero_le n)) small
        · omega
      have link : (BlkMp.report buf capacity beginAt b.addr r).mem.getU32 b.addr = m.getU32 b.addr :=
        Mem.getU32_congr (fun x low high => next.outside x (by omega))
      rw [collectWalk, if_neg live, shift]
      dsimp only
      rw [link]
      rw [shift] at few small
      exact ih onward (Nat.lt_of_succ_lt_succ enough) next few small (spaced.sublist (List.sublist_cons_self b rest))
        (fun c member => apart c (List.mem_cons_of_mem b member))

/-- What a report is to say: all blocks from `beginAt` on counted, and the first of them in the buffer, as many as
fit in front of the zero pair that ends them. -/
structure Reports (m : Mem) (buf bufSize beginAt : Nat) (free : List Block) (frags total : Nat) (m' : Mem) : Prop where
  frags : frags = (reported beginAt free).length
  total : total = ((reported beginAt free).map Block.size).sum
  pairs : Pairs m' buf ((reported beginAt free).take (bufSize / pairBytes - 1) ++ [⟨0, 0⟩])
  outside : ∀ x, x < buf ∨ buf + bufSize ≤ x → m' x = m x
  list : IsFreeList m' (m'.getU32 arenaHead) free

theorem blkMpCollect_ok (list : IsFreeList m (m.getU32 arenaHead) free) (spaced : Spaced free) (buffer : Buffer buf bufSize free)
    (live : buf ≠ 0) (room : pairBytes ≤ bufSize) :
    ∃ frags total m', blkMpCollect m buf bufSize beginAt = (.ok (), frags, total, m') ∧
      Reports m buf bufSize beginAt free frags total m' := by
  obtain ⟨fits, apart, cells⟩ := buffer
  have whole : bufSize / pairBytes * pairBytes ≤ bufSize := Nat.div_mul_le_self _ _
  have pair : 1 ≤ bufSize / pairBytes := (Nat.one_le_div_iff (by decide)).mpr room
  have inside : buf + (bufSize / pairBytes - 1) * pairBytes + pairBytes ≤ buf + bufSize := by
    unfold pairBytes at *
    omega
  have short := list.length_lt (fun b member => by
    have := spaced.fits b member
    have := spaced.header b member
    omega)
  have start : Counted m buf (bufSize / pairBytes - 1) beginAt [] ⟨0, 0, 0, m⟩ :=
    ⟨rfl, rfl, by simp [reported], by simp [reported, Pairs], fun x _ => rfl⟩
  have counted := collectWalk_counted list short start (reported_length_lt list spaced)
    (total_lt list spaced List.filter_sublist) spaced (fun b member => (apart b member).imp_right (by omega))
  rw [List.nil_append] at counted
  refine ⟨_, _, _, by rw [blkMpCollect, if_neg live, if_neg (Nat.not_lt.mpr room)], ?_⟩
  generalize collectWalk buf (bufSize / pairBytes - 1) beginAt walkLimit (m.getU32 arenaHead) ⟨0, 0, 0, m⟩ = r at counted
  have few : r.written ≤ bufSize / pairBytes - 1 := by
    rw [counted.written]
    exact List.length_take_le _ _
  have place : r.written * pairBytes ≤ (bufSize / pairBytes - 1) * pairBytes := Nat.mul_le_mul_right _ few
  have outside : ∀ x, x < buf ∨ buf + bufSize ≤ x → storePair r.mem buf r.written 0 0 x = m x := by
    intro x apart
    rw [storePair_outside _ _ _ _ _ (by omega), counted.outside x (by omega)]
  refine ⟨counted.frags, counted.free, ?_, outside, ?_⟩
  · rw [counted.written]
    exact @Pairs.store _ _ _ counted.pairs ⟨0, 0⟩ (by decide) (by decide)
  · have head : (storePair r.mem buf r.written 0 0).getU32 arenaHead = m.getU32 arenaHead :=
      Mem.getU32_congr (fun x low high => outside x (by unfold arenaHead arenaTail at *; omega))
    rw [head]
    apply list.congr
    intro b member
    have beside := apart b member
    have header := spaced.header b member
    exact ⟨Mem.getU32_congr (fun x low high => outside x (by omega)),
      Mem.getU32_congr (fun x low high => outside x (by omega))⟩

/-- F$GBlkMp reports the free list into any buffer that has room for the zero pair, and refuses any other buffer without
writing to it. -/
theorem blkMpCollect_reports (m : Mem) (buf bufSize beginAt : Nat) (free : List Block)
    (list : IsFreeList m (m.getU32 arenaHead) free) (spaced : Spaced free) (buffer : Buffer buf bufSize free) :
    (buf = 0 ∨ bufSize < pairBytes → blkMpCollect m buf bufSize beginAt = (.error eBpaddr, 0, 0, m)) ∧
      (buf ≠ 0 → pairBytes ≤ bufSize → ∃ frags total m', blkMpCollect m buf bufSize beginAt = (.ok (), frags, total, m') ∧
        Reports m buf bufSize beginAt free frags total m') := by
  refine ⟨?_, blkMpCollect_ok list spaced buffer⟩
  intro unusable
  unfold blkMpCollect
  by_cases null : buf = 0
  · rw [if_pos null]
  · rw [if_neg null, if_pos (unusable.resolve_left null)]

/-- One free block of 256 bytes at 0x1000. -/
def sample : Mem := Mem.setU32 (Mem.setU32 (fun _ => 0) arenaHead 0x1000) 0x1004 0x100

theorem sample_list : IsFreeList sample (sample.getU32 arenaHead) [⟨0x1000, 0x100⟩] := by
  refine IsFreeList.cons_iff.mpr ⟨?_, ?_, ?_, IsFreeList.nil_iff.mpr ?_⟩
  all_goals decide

theorem sample_spaced : Spaced [⟨0x1000, 0x100⟩] := by
  constructor
  all_goals simp [arenaHead, arenaTail]

theorem sample_buffer {bufSize : Nat} (small : bufSize ≤ 20) : Buffer 0x2000 bufSize [⟨0x1000, 0x100⟩] := by
  refine ⟨by omega, by simp, .inr (by decide)⟩

theorem blkMpCollect_reports_sample :
    (0x2000 = 0 ∨ 20 < pairBytes → blkMpCollect sample 0x2000 20 0 = (.error eBpaddr, 0, 0, sample)) ∧
      (0x2000 ≠ 0 → pairBytes ≤ 20 → ∃ frags total m', blkMpCollect sample 0x2000 20 0 = (.ok (), frags, total, m') ∧
        Reports sample 0x2000 20 0 [⟨0x1000, 0x100⟩] frags total m') :=
  blkMpCollect_reports sample 0x2000 20 0 [⟨0x1000, 0x100⟩] sample_list sample_spaced (sample_buffer (le_refl 20))

/-- A buffer of four bytes gets no report. -/
theorem blkMpCollect_refuses :
    ¬ ∀ (m : Mem) (buf bufSize beginAt : Nat) (free : List Block), IsFreeList m (m.getU32 arenaHead) free → Spaced free →
      Buffer buf bufSize free → ∃ status frags total m', blkMpCollect m buf bufSize beginAt = (status, frags, total, m') ∧
        Reports m buf bufSize beginAt free frags total m' := by
  intro always
  obtain ⟨status, frags, total, m', collected, reports⟩ := always sample 0x2000 4 0 [⟨0x1000, 0x100⟩]
    sample_list sample_spaced (sample_buffer (by decide))
  have refused : blkMpCollect sample 0x2000 4 0 = (.error eBpaddr, 0, 0, sample) := rfl
  rw [refused] at collected
  have none := (congrArg (fun out => out.2.1) collected).trans reports.frags
  simp [reported] at none

end BlkMp

end Q9OS

import Mathlib.Tactic
import Q9OS.Lib.Run
import Q9OS.Memory.FreeList

/-!
# The arena partitions its region

Free blocks and outstanding blocks tile the region the arena was given, over
every run of requests, returns and writes by the owners.
-/

namespace Q9OS.Arena

/-- A region the boot code may give to the arena: aligned, away from address 0
and from the two list cells. -/
structure Region where
  base : Nat
  size : Nat
  base_aligned : base % 16 = 0
  size_aligned : size % 16 = 0
  size_pos : 16 ≤ size
  no_wrap : base + size ≤ 4294967296
  not_null : base ≠ 0
  clear : base + size ≤ arenaHead ∨ arenaTail + 4 ≤ base

def Grant.block (grant : Grant) : Block := ⟨grant.addr, roundUp16 grant.requested⟩

def State.used (s : State) : List Block := s.grants.map Grant.block

def Block.Shaped (b : Block) : Prop := b.addr % 16 = 0 ∧ b.size % 16 = 0 ∧ 0 < b.size

structure Partition (base size : Nat) (m : Mem) (free used : List Block) : Prop where
  list : IsFreeList m (m.getU32 arenaHead) free
  tail : m.getU32 arenaTail = lastAddr 0 free
  shaped : ∀ b ∈ free ++ used, Block.Shaped b
  tiles : Tiles base (base + size) (free ++ used)

theorem roundUp16_aligned (n : Nat) : roundUp16 n % 16 = 0 := by
  unfold roundUp16
  omega

theorem roundUp16_of_aligned {n : Nat} (aligned : n % 16 = 0) (fits : n < 4294967296) :
    roundUp16 n = n := by
  unfold roundUp16 allocGranularity
  omega

theorem roundUp16_pos {n : Nat} (positive : 1 ≤ n) (fits : n ≤ 4294967280) : 0 < roundUp16 n := by
  unfold roundUp16 allocGranularity
  omega

/-! ### One list update -/

theorem lastAddr_lt {blocks : List Block} (spaced : Spaced blocks) : lastAddr 0 blocks < 4294967296 := by
  rcases List.eq_nil_or_concat blocks with rfl | ⟨front, p, rfl⟩
  · exact Nat.zero_lt_succ _
  · rw [List.concat_eq_append] at *
    rw [lastAddr_append, lastAddr_cons, lastAddr_nil]
    have bound := spaced.fits p (by simp)
    have header := spaced.header p (by simp)
    omega

theorem setLink_tail (m : Mem) (new : Nat) {front : List Block} (spaced : Spaced front) :
    (setLink m (lastAddr 0 front) new).getU32 arenaTail = m.getU32 arenaTail := by
  unfold setLink
  split
  · exact Mem.getU32_setU32_apart _ _ (Or.inr (by decide))
  · next live =>
    rcases List.eq_nil_or_concat front with rfl | ⟨front, p, rfl⟩
    · exact absurd rfl live
    · rw [List.concat_eq_append] at *
      rw [lastAddr_append, lastAddr_cons, lastAddr_nil]
      have cells := clear_of_cell (Or.inr rfl) (spaced.header p (by simp)) (spaced.clear p (by simp))
      exact Mem.getU32_setU32_apart _ _ (by omega)

/-- Relinking behind `front`, with the tail cell kept or set to the new last block. -/
theorem relink_spec {m : Mem} {new : Nat} {front old rest : List Block} (last : Nat) (ends : Prop) [Decidable ends]
    (list : IsFreeList m (m.getU32 arenaHead) (front ++ old)) (onward : IsFreeList m new rest)
    (spaced : Spaced (front ++ rest)) (fits : new < 4294967296)
    (ended : ends → last = lastAddr 0 (front ++ rest))
    (kept : ¬ ends → m.getU32 arenaTail = lastAddr 0 (front ++ rest)) :
    let m' := if ends then (setLink m (lastAddr 0 front) new).setU32 arenaTail last
      else setLink m (lastAddr 0 front) new
    IsFreeList m' (m'.getU32 arenaHead) (front ++ rest) ∧ m'.getU32 arenaTail = lastAddr 0 (front ++ rest) := by
  have relinked := list.setLink onward spaced fits
  have tail := setLink_tail m new (spaced.sublist (List.sublist_append_left front rest))
  intro m'
  by_cases is : ends
  · have here : m' = (setLink m (lastAddr 0 front) new).setU32 arenaTail last := if_pos is
    rw [here, setU32_head_tail]
    refine ⟨relinked.setCell spaced (Or.inr rfl), ?_⟩
    rw [ended is]
    exact Mem.getU32_setU32_of_lt _ _ (lastAddr_lt spaced)
  · have here : m' = setLink m (lastAddr 0 front) new := if_neg is
    rw [here]
    exact ⟨relinked, tail.trans (kept is)⟩

/-- Blocks that tile a region keep their headers to themselves. -/
theorem Region.spaced (region : Region) {blocks : List Block} (shaped : ∀ b ∈ blocks, Block.Shaped b)
    (tiles : Tiles region.base (region.base + region.size) blocks) : Spaced blocks := by
  have bounds : ∀ b ∈ blocks, region.base ≤ b.addr ∧ b.addr + b.size ≤ region.base + region.size ∧
      16 ≤ b.size := by
    intro b member
    obtain ⟨-, multiple, positive⟩ := shaped b member
    obtain ⟨low, high⟩ := tiles.inside member positive
    exact ⟨low, high, by omega⟩
  have noWrap := region.no_wrap
  have clear := region.clear
  refine ⟨tiles.apart, fun b member => ?_, fun b member => ?_, fun b member => ?_⟩
  · have := bounds b member
    omega
  · have := bounds b member
    omega
  · have := bounds b member
    omega

namespace Partition

variable {base size : Nat} {m : Mem} {free used front back : List Block} {b : Block}

theorem spaced {region : Region} (partition : Partition region.base region.size m free used) :
    Spaced (free ++ used) :=
  region.spaced partition.shaped partition.tiles

theorem taken_perm (front back used : List Block) (b : Block) :
    ((front ++ b :: back) ++ used).Perm (b :: ((front ++ back) ++ used)) := by
  rw [List.perm_iff_count]
  intro c
  simp only [List.count_append, List.count_cons]
  omega

theorem split_perm (front back used : List Block) (b c : Block) :
    (b :: c :: ((front ++ back) ++ used)).Perm ((front ++ c :: back) ++ b :: used) := by
  rw [List.perm_iff_count]
  intro d
  simp only [List.count_append, List.count_cons]
  omega

theorem moved_perm (front back used : List Block) (b : Block) :
    ((front ++ b :: back) ++ used).Perm ((front ++ back) ++ b :: used) := by
  rw [List.perm_iff_count]
  intro c
  simp only [List.count_append, List.count_cons]
  omega

/-- Taking a whole block off the list. -/
theorem remove {region : Region} (partition : Partition region.base region.size m (front ++ b :: back) used) :
    let m' := if m.getU32 b.addr = 0
      then (setLink m (lastAddr 0 front) (m.getU32 b.addr)).setU32 arenaTail (lastAddr 0 front)
      else setLink m (lastAddr 0 front) (m.getU32 b.addr)
    Partition region.base region.size m' (front ++ back) (b :: used) := by
  intro m'
  have moved := moved_perm front back used b
  obtain ⟨-, -, -, onward⟩ := IsFreeList.cons_iff.mp partition.list.drop
  have spaced := (partition.spaced.perm moved).sublist (List.sublist_append_left _ _)
  have empty := onward.head_eq_zero
  obtain ⟨list, tail⟩ := relink_spec (lastAddr 0 front) (m.getU32 b.addr = 0)
    partition.list onward spaced (Mem.getU32_lt _ _)
    (by intro ended; rw [empty.mp ended, List.append_nil])
    (by
      intro goesOn
      have some := fun none => goesOn (empty.mpr none)
      rw [partition.tail, lastAddr_append, lastAddr_append, lastAddr_cons]
      exact lastAddr_cons_irrelevant _ _ some)
  refine ⟨list, tail, fun c member => partition.shaped c (moved.mem_iff.mpr member), ?_⟩
  exact partition.tiles.perm moved

/-- Writing inside a free block, behind its header, disturbs nothing. -/
theorem setU32_inside {region : Region} {w : Nat} (v : Nat)
    (partition : Partition region.base region.size m (front ++ b :: back) used)
    (low : b.addr + 8 ≤ w) (high : w + 4 ≤ b.addr + b.size) :
    Partition region.base region.size (m.setU32 w v) (front ++ b :: back) used := by
  have spaced := partition.spaced.perm (taken_perm front back used b)
  have others := (List.pairwise_cons.mp spaced.apart).1
  have outside : ∀ c ∈ front ++ b :: back, w + 4 ≤ c.addr ∨ c.addr + 8 ≤ w := by
    intro c member
    by_cases same : c = b
    · rw [same]
      exact Or.inr low
    · have other : c ∈ front ++ back ++ used := by
        simp only [List.mem_append, List.mem_cons, same, false_or] at member ⊢
        exact Or.inl member
      have apart := others c other
      have header := spaced.header c (by simp only [List.mem_cons]; exact Or.inr other)
      unfold Block.Apart at apart
      omega
  have cells : ∀ cell, cell = arenaHead ∨ cell = arenaTail → (m.setU32 w v).getU32 cell = m.getU32 cell := by
    intro cell is
    have apart := clear_of_cell is (spaced.header b (by simp)) (spaced.clear b (by simp))
    have clear := spaced.clear b (by simp)
    refine Mem.getU32_setU32_apart _ _ ?_
    unfold arenaHead arenaTail at *
    omega
  refine ⟨?_, ?_, partition.shaped, partition.tiles⟩
  · rw [cells _ (Or.inl rfl)]
    exact partition.list.setU32_outside outside
  · rw [cells _ (Or.inr rfl)]
    exact partition.tail

/-- The rear part of a block becomes a free block of its own. -/
theorem split {region : Region} {needed : Nat}
    (partition : Partition region.base region.size m (front ++ b :: back) used)
    (aligned : needed % 16 = 0) (positive : 0 < needed) (rest : 16 ≤ b.size - needed) :
    let w := b.addr + needed
    let m₁ := (m.setU32 w (m.getU32 b.addr)).setU32 (w + 4) (b.size - needed)
    let m' := if m.getU32 b.addr = 0 then (setLink m₁ (lastAddr 0 front) w).setU32 arenaTail w
      else setLink m₁ (lastAddr 0 front) w
    Partition region.base region.size m' (front ++ ⟨w, b.size - needed⟩ :: back) (⟨b.addr, needed⟩ :: used) := by
  intro w m₁ m'
  obtain ⟨addrAligned, sizeAligned, -⟩ := partition.shaped b (by simp)
  have bound := partition.spaced.fits b (by simp)
  obtain ⟨-, -, -, onward⟩ := IsFreeList.cons_iff.mp partition.list.drop
  have written : Partition region.base region.size m₁ (front ++ b :: back) used :=
    (partition.setU32_inside _ (by omega) (by omega)).setU32_inside _ (by omega) (by omega)
  obtain ⟨-, -, -, onward₁⟩ := IsFreeList.cons_iff.mp written.list.drop
  have nextKept : m₁.getU32 b.addr = m.getU32 b.addr := by
    rw [Mem.getU32_setU32_apart _ _ (by omega), Mem.getU32_setU32_apart _ _ (by omega)]
  have nextNew : m₁.getU32 w = m.getU32 b.addr := by
    rw [Mem.getU32_setU32_apart _ _ (by omega), Mem.getU32_setU32_of_lt _ _ (Mem.getU32_lt _ _)]
  have rear : IsFreeList m₁ w (⟨w, b.size - needed⟩ :: back) := by
    refine IsFreeList.cons_iff.mpr ⟨rfl, ?_, Mem.getU32_setU32_of_lt _ _ (by omega), ?_⟩
    · show w ≠ 0
      omega
    · rw [nextNew, ← nextKept]
      exact onward₁
  have cut := split_perm front back used ⟨b.addr, needed⟩ ⟨w, b.size - needed⟩
  have whole := (partition.tiles.perm (taken_perm front back used b)).split (show needed ≤ b.size by omega)
  have tiles := whole.perm cut
  have shaped : ∀ c ∈ (front ++ ⟨w, b.size - needed⟩ :: back) ++ ⟨b.addr, needed⟩ :: used, Block.Shaped c := by
    intro c member
    rcases List.mem_cons.mp (cut.mem_iff.mpr member) with rfl | later
    · exact ⟨addrAligned, aligned, positive⟩
    · rcases List.mem_cons.mp later with rfl | old
      · exact ⟨by simp only; omega, by simp only; omega, by simp only; omega⟩
      · exact partition.shaped c ((taken_perm front back used b).mem_iff.mpr (List.mem_cons_of_mem _ old))
  have empty := onward.head_eq_zero
  obtain ⟨list, tail⟩ := relink_spec w (m.getU32 b.addr = 0) written.list rear
    ((region.spaced shaped tiles).sublist (List.sublist_append_left _ _)) (by omega)
    (by
      intro ended
      rw [empty.mp ended, lastAddr_append, lastAddr_cons, lastAddr_nil])
    (by
      intro goesOn
      have some := fun none => goesOn (empty.mpr none)
      rw [written.tail, lastAddr_append, lastAddr_append, lastAddr_cons, lastAddr_cons]
      exact lastAddr_cons_irrelevant _ _ some)
  exact ⟨list, tail, shaped, tiles⟩

theorem takeBlock_split {region : Region} {needed : Nat}
    (partition : Partition region.base region.size m (front ++ b :: back) used)
    (aligned : needed % 16 = 0) (positive : 0 < needed) (rest : 16 ≤ b.size - needed) :
    Partition region.base region.size (takeBlock m needed (lastAddr 0 front) b.addr)
      (front ++ ⟨b.addr + needed, b.size - needed⟩ :: back) (⟨b.addr, needed⟩ :: used) := by
  obtain ⟨-, -, sizeIs, -⟩ := IsFreeList.cons_iff.mp partition.list.drop
  have bound := partition.spaced.fits b (by simp)
  unfold takeBlock
  simp only [sizeIs]
  rw [if_pos (show b.size - needed ≥ minSplitRemainder from rest), Nat.mod_eq_of_lt (by omega)]
  exact partition.split aligned positive rest

/-- A first fit either splits the block or takes all of it; both ways the caller
gets exactly the rounded size. -/
theorem take {region : Region} {needed : Nat}
    (partition : Partition region.base region.size m (front ++ b :: back) used)
    (aligned : needed % 16 = 0) (positive : 0 < needed) (fits : needed ≤ b.size) :
    ∃ free', Partition region.base region.size (takeBlock m needed (lastAddr 0 front) b.addr) free'
      (⟨b.addr, needed⟩ :: used) := by
  by_cases large : 16 ≤ b.size - needed
  · exact ⟨_, partition.takeBlock_split aligned positive large⟩
  · obtain ⟨-, -, sizeIs, -⟩ := IsFreeList.cons_iff.mp partition.list.drop
    obtain ⟨-, sizeAligned, -⟩ := partition.shaped b (by simp)
    have exact_fit : b = ⟨b.addr, needed⟩ := by
      obtain ⟨addr, size⟩ := b
      simp only at *
      congr
      omega
    refine ⟨front ++ back, ?_⟩
    rw [← exact_fit]
    unfold takeBlock
    simp only [sizeIs]
    rw [if_neg (show ¬ b.size - needed ≥ minSplitRemainder from large)]
    exact partition.remove

/-- Only the list cells and the bytes of free blocks matter to the partition. -/
theorem congr {region : Region} {m' : Mem} (partition : Partition region.base region.size m free used)
    (cells : ∀ x, arenaHead ≤ x → x < arenaTail + 4 → m' x = m x)
    (inFree : ∀ b ∈ free, ∀ x, b.Covers x → m' x = m x) :
    Partition region.base region.size m' free used := by
  have header : ∀ b ∈ free, ∀ x, b.addr ≤ x → x < b.addr + 8 → m' x = m x := by
    intro b member x low high
    have size := partition.spaced.header b (List.mem_append_left _ member)
    exact inFree b member x ⟨low, by omega⟩
  have headSame : m'.getU32 arenaHead = m.getU32 arenaHead :=
    Mem.getU32_congr (fun x low high => cells x low (by unfold arenaHead arenaTail at *; omega))
  have tailSame : m'.getU32 arenaTail = m.getU32 arenaTail :=
    Mem.getU32_congr (fun x low high => cells x (by unfold arenaHead arenaTail at *; omega) high)
  refine ⟨?_, tailSame.trans partition.tail, partition.shaped, partition.tiles⟩
  rw [headSame]
  refine partition.list.congr (fun b member => ⟨?_, ?_⟩)
  · exact Mem.getU32_congr (fun x low high => header b member x low (by omega))
  · exact Mem.getU32_congr (fun x low high => header b member x (by omega) (by omega))

/-- Whatever owners write into their own blocks, the partition stays. -/
theorem agree {region : Region} {m' : Mem} (partition : Partition region.base region.size m free used)
    (same : ∀ x, (∀ u ∈ used, ¬ u.Covers x) → m' x = m x) :
    Partition region.base region.size m' free used := by
  have spaced := partition.spaced
  obtain ⟨-, -, across⟩ := List.pairwise_append.mp spaced.apart
  refine partition.congr (fun x low high => same x ?_) (fun b member x here => same x ?_)
  · intro u inUsed covered
    have clear := spaced.clear u (List.mem_append_right _ inUsed)
    unfold Block.Covers at covered
    unfold arenaHead arenaTail at *
    omega
  · intro u inUsed covered
    have apart := across b member u inUsed
    unfold Block.Apart at apart
    unfold Block.Covers at here covered
    omega

theorem permUsed {used' : List Block} (partition : Partition base size m free used)
    (same : used.Perm used') : Partition base size m free used' where
  list := partition.list
  tail := partition.tail
  shaped b member := partition.shaped b ((same.append_left free).mem_iff.mpr member)
  tiles := partition.tiles.perm (same.append_left free)

/-- A returned block goes to the front of the list. -/
theorem release {region : Region} {requested : Nat}
    (partition : Partition region.base region.size m free (b :: used)) (rounded : roundUp16 requested = b.size) :
    Partition region.base region.size (freeMem m b.addr requested) (b :: free) used := by
  have spaced := partition.spaced
  have shaped := partition.shaped b (by simp)
  have header := spaced.header b (by simp)
  have bound := spaced.fits b (by simp)
  have clear := spaced.clear b (by simp)
  have moved : (free ++ b :: used).Perm ((b :: free) ++ used) := List.perm_middle
  obtain ⟨low, -⟩ := partition.tiles.inside (b := b) (by simp) shaped.2.2
  have live : b.addr ≠ 0 := by
    have := region.not_null
    omega
  unfold freeMem
  rw [rounded, if_neg (by unfold minSplitRemainder; have := shaped.2.1; omega)]
  extract_lets oldHead m₁ m₂ m₃
  have written : Partition region.base region.size m₂ free (b :: used) := by
    refine partition.agree (fun x outside => ?_)
    have notHere : ¬ b.Covers x := outside b (List.mem_cons_self ..)
    unfold Block.Covers at notHere
    have outer : m₂ x = m₁ x := Mem.setU32_outside _ _ (by omega)
    exact outer.trans (Mem.setU32_outside _ _ (by omega))
  have headKept : m₂.getU32 arenaHead = oldHead := by
    unfold arenaHead arenaTail at *
    rw [Mem.getU32_setU32_apart _ _ (by omega), Mem.getU32_setU32_apart _ _ (by omega)]
    rfl
  have nextIs : m₂.getU32 b.addr = oldHead := by
    rw [Mem.getU32_setU32_apart _ _ (by omega), Mem.getU32_setU32_of_lt _ _ (Mem.getU32_lt _ _)]
  have onList : IsFreeList m₂ b.addr (b :: free) := by
    refine IsFreeList.cons_iff.mpr ⟨rfl, live, Mem.getU32_setU32_of_lt _ _ (by omega), ?_⟩
    rw [nextIs, ← headKept]
    exact written.list
  have spacedFree := (spaced.perm moved).sublist (List.sublist_append_left _ _)
  have pushed : IsFreeList m₃ b.addr (b :: free) := onList.setCell spacedFree (Or.inl rfl)
  have headNow : m₃.getU32 arenaHead = b.addr := Mem.getU32_setU32_of_lt _ _ (by omega)
  have tailKept : m₃.getU32 arenaTail = lastAddr 0 free := by
    rw [Mem.getU32_setU32_apart _ _ (Or.inr (by decide))]
    exact written.tail
  have empty := partition.list.head_eq_zero
  refine ⟨?_, ?_, fun c member => partition.shaped c (moved.mem_iff.mpr member), partition.tiles.perm moved⟩
  · split
    · rw [setU32_head_tail, headNow]
      exact pushed.setCell spacedFree (Or.inr rfl)
    · rw [headNow]
      exact pushed
  · split
    · next none =>
      rw [empty.mp none, lastAddr_cons, lastAddr_nil]
      exact Mem.getU32_setU32_of_lt _ _ (by omega)
    · next some =>
      rw [tailKept, lastAddr_cons]
      exact lastAddr_cons_irrelevant _ _ (fun none => some (empty.mpr none))

end Partition

/-- A request for no bytes names the first free block and leaves it free. -/
theorem takeBlock_zero {region : Region} {m : Mem} {used front back : List Block} {b : Block}
    (partition : Partition region.base region.size m (front ++ b :: back) used) :
    takeBlock m 0 (lastAddr 0 front) b.addr = m := by
  obtain ⟨-, live, size, onward⟩ := IsFreeList.cons_iff.mp partition.list.drop
  obtain ⟨-, multiple, positive⟩ := partition.shaped b (by simp)
  have bound := partition.spaced.fits b (by simp)
  have linked : setLink m (lastAddr 0 front) b.addr = m := by
    unfold setLink
    cases front with
    | nil =>
      rw [if_pos (lastAddr_nil 0)]
      exact Mem.setU32_getU32 _ _ (IsFreeList.cons_iff.mp partition.list).1.symm
    | cons c front =>
      have target := partition.list.link (List.cons_ne_nil c front)
      split
      · next zero =>
        have inside := (partition.tiles.inside (b := b) (by simp) positive).1
        rcases List.eq_nil_or_concat (c :: front) with none | ⟨before, last, is⟩
        · exact absurd none (List.cons_ne_nil c front)
        · rw [is, List.concat_eq_append, lastAddr_append, lastAddr_cons, lastAddr_nil] at zero
          exact absurd zero (partition.list.1.ne_null (by rw [is]; simp))
      · exact Mem.setU32_getU32 _ _ target.symm
  unfold takeBlock
  simp only [size, Nat.sub_zero, Nat.add_zero]
  rw [if_pos (by unfold minSplitRemainder; omega), Nat.mod_eq_of_lt (by omega),
    Mem.setU32_getU32 _ _ rfl, Mem.setU32_getU32 _ _ size.symm, linked]
  split
  · next none =>
    refine Mem.setU32_getU32 _ _ ?_
    rw [partition.tail, onward.head_eq_zero.mp none, lastAddr_append, lastAddr_cons, lastAddr_nil]
  · rfl

/-! ### One step -/

namespace Partition

variable {m : Mem} {free used : List Block}

theorem short {region : Region} (partition : Partition region.base region.size m free used) :
    free.length < walkLimit := by
  refine partition.list.length_lt (fun b member => ?_)
  have fits := partition.spaced.fits b (List.mem_append_left _ member)
  have header := partition.spaced.header b (List.mem_append_left _ member)
  omega

theorem firstFit {region : Region} (partition : Partition region.base region.size m free used) (needed : Nat) :
    allocWalk m needed walkLimit 0 (m.getU32 arenaHead) = (0, m) ∧ (∀ b ∈ free, b.size < needed) ∨
      ∃ front b back, free = front ++ b :: back ∧ needed ≤ b.size ∧
        allocWalk m needed walkLimit 0 (m.getU32 arenaHead) =
          (b.addr, takeBlock m needed (lastAddr 0 front) b.addr) :=
  allocWalk_spec partition.list partition.short

theorem largest {region : Region} (partition : Partition region.base region.size m free used) :
    IsBest 0 free m (largestWalk m walkLimit 0 (m.getU32 arenaHead) {}) :=
  @largestWalk_spec m walkLimit 0 _ 0 [] free {} partition.list partition.short rfl (Or.inl rfl)

end Partition

theorem allocMem_partition {region : Region} {m : Mem} {free used : List Block} {requested : Nat}
    (partition : Partition region.base region.size m free used) (positive : 1 ≤ requested)
    (fits : requested ≤ 4294967280) :
    ((allocMem m requested).1 = 0 ∧ (allocMem m requested).2 = m) ∨
      ((allocMem m requested).1 ≠ 0 ∧ ∃ free', Partition region.base region.size (allocMem m requested).2 free'
        (⟨(allocMem m requested).1, roundUp16 requested⟩ :: used)) := by
  unfold allocMem
  rcases partition.firstFit (roundUp16 requested) with ⟨missing, -⟩ | ⟨front, b, back, rfl, large, taken⟩
  · rw [missing]
    exact Or.inl ⟨rfl, rfl⟩
  · rw [taken]
    have live : b.addr ≠ 0 := partition.list.1.ne_null (by simp)
    exact Or.inr ⟨live, partition.take (roundUp16_aligned _) (roundUp16_pos positive fits) large⟩

theorem allocLargest_missing {m : Mem} {best : Best} (walked : largestWalk m walkLimit 0 (m.getU32 arenaHead) {} = best)
    (none : best.addr = 0) : allocLargest m = (best.addr, best.size, m) := by
  rw [allocLargest, walked]
  exact if_pos none

theorem allocLargest_found {m : Mem} {best : Best} (walked : largestWalk m walkLimit 0 (m.getU32 arenaHead) {} = best)
    (live : best.addr ≠ 0) : allocLargest m = (best.addr, best.size,
      if best.next = 0 then (setLink m best.prev best.next).setU32 arenaTail best.prev else setLink m best.prev best.next) := by
  rw [allocLargest, walked]
  exact if_neg live

theorem allocLargest_partition {region : Region} {m : Mem} {free used : List Block}
    (partition : Partition region.base region.size m free used) :
    ((allocLargest m).1 = 0 ∧ (allocLargest m).2.2 = m) ∨
      ((allocLargest m).1 ≠ 0 ∧ roundUp16 (allocLargest m).2.1 = (allocLargest m).2.1 ∧
        ∃ free', Partition region.base region.size (allocLargest m).2.2 free'
          (⟨(allocLargest m).1, (allocLargest m).2.1⟩ :: used)) := by
  rcases partition.largest with missing | ⟨front, b, back, rfl, found⟩
  · rw [allocLargest_missing missing rfl]
    exact Or.inl ⟨rfl, rfl⟩
  · have live : b.addr ≠ 0 := partition.list.1.ne_null (by simp)
    obtain ⟨-, sizeAligned, positive⟩ := partition.shaped b (by simp)
    have bound := partition.spaced.fits b (by simp)
    have base := (partition.tiles.inside (b := b) (by simp) positive).1
    have rounded : roundUp16 b.size = b.size := by
      have := region.not_null
      exact roundUp16_of_aligned sizeAligned (by omega)
    rw [allocLargest_found found live]
    exact Or.inr ⟨live, rounded, front ++ back, partition.remove⟩

/-! ### What the operations touch -/

/-- A byte the arena's list operations may write: a list cell or a byte of a free block. -/
def Touches (free : List Block) (x : Nat) : Prop :=
  (arenaHead ≤ x ∧ x < arenaTail + 4) ∨ ∃ b ∈ free, b.Covers x

theorem setLink_frame {m : Mem} {front : List Block} {free : List Block} {x : Nat} (new : Nat)
    (spaced : Spaced free) (part : ∀ b ∈ front, b ∈ free) (outside : ¬ Touches free x) :
    setLink m (lastAddr 0 front) new x = m x := by
  unfold Touches at outside
  unfold setLink
  split
  · exact Mem.setU32_outside _ _ (by unfold arenaHead arenaTail at *; omega)
  · next live =>
    rcases List.eq_nil_or_concat front with rfl | ⟨front, p, rfl⟩
    · exact absurd rfl live
    · rw [List.concat_eq_append] at *
      rw [lastAddr_append, lastAddr_cons, lastAddr_nil]
      have member := part p (by simp)
      have header := spaced.header p member
      refine Mem.setU32_outside _ _ ?_
      by_contra inside
      exact outside (Or.inr ⟨p, member, by unfold Block.Covers; omega⟩)

theorem setTail_frame {m : Mem} {free : List Block} {x : Nat} (v : Nat) (outside : ¬ Touches free x) :
    m.setU32 arenaTail v x = m x := by
  unfold Touches at outside
  exact Mem.setU32_outside _ _ (by unfold arenaHead arenaTail at *; omega)

namespace Partition

variable {m : Mem} {free used front back : List Block} {b : Block}

theorem takeBlock_frame {region : Region} {needed x : Nat}
    (partition : Partition region.base region.size m (front ++ b :: back) used)
    (fits : needed ≤ b.size) (outside : ¬ Touches (front ++ b :: back) x) :
    takeBlock m needed (lastAddr 0 front) b.addr x = m x := by
  have spaced := partition.spaced.sublist (List.sublist_append_left _ _)
  have bound := spaced.fits b (by simp)
  have here : ¬ b.Covers x := fun covered => outside (Or.inr ⟨b, by simp, covered⟩)
  have linked := fun m' new => @setLink_frame m' front _ x new spaced (by simp +contextual) outside
  have tailed := fun m' v => @setTail_frame m' _ x v outside
  have size := (IsFreeList.cons_iff.mp partition.list.drop).2.2.1
  unfold Block.Covers at here
  unfold takeBlock
  simp only [size]
  split
  · next large =>
    unfold minSplitRemainder at large
    rw [Nat.mod_eq_of_lt (show b.addr + needed < 4294967296 by omega)]
    have header : ∀ v v', (m.setU32 (b.addr + needed) v).setU32 (b.addr + needed + 4) v' x = m x := by
      intro v v'
      rw [Mem.setU32_outside _ _ (by omega), Mem.setU32_outside _ _ (by omega)]
    split
    · rw [tailed, linked, header]
    · rw [linked, header]
  · split
    · rw [tailed, linked]
    · rw [linked]

theorem allocMem_frame {region : Region} {requested x : Nat}
    (partition : Partition region.base region.size m free used) (outside : ¬ Touches free x) :
    (allocMem m requested).2 x = m x := by
  rcases partition.firstFit (roundUp16 requested) with ⟨missing, -⟩ | ⟨front, b, back, rfl, large, taken⟩
  · rw [allocMem, missing]
  · rw [allocMem, taken]
    exact partition.takeBlock_frame large outside

theorem allocLargest_frame {region : Region} {x : Nat}
    (partition : Partition region.base region.size m free used) (outside : ¬ Touches free x) :
    (allocLargest m).2.2 x = m x := by
  have spaced := partition.spaced.sublist (List.sublist_append_left _ _)
  rcases partition.largest with missing | ⟨front, b, back, rfl, found⟩
  · rw [allocLargest_missing missing rfl]
  · rw [allocLargest_found found (partition.list.1.ne_null (by simp))]
    have linked := fun m' new => @setLink_frame m' front _ x new spaced (by simp +contextual) outside
    have tailed := fun m' v => @setTail_frame m' _ x v outside
    dsimp only
    split
    · exact (tailed _ _).trans (linked _ _)
    · exact linked _ _

end Partition

theorem freeMem_frame {m : Mem} {addr size x : Nat} (apart : x < addr ∨ addr + 8 ≤ x)
    (cells : x < arenaHead ∨ arenaTail + 4 ≤ x) : freeMem m addr size x = m x := by
  unfold arenaHead arenaTail at cells
  unfold freeMem
  split
  · rfl
  · have head : ∀ m' : Mem, ∀ v, m'.setU32 arenaHead v x = m' x :=
      fun m' v => Mem.setU32_outside _ _ (by unfold arenaHead; omega)
    have tail : ∀ m' : Mem, ∀ v, m'.setU32 arenaTail v x = m' x :=
      fun m' v => Mem.setU32_outside _ _ (by unfold arenaTail; omega)
    have header : ∀ v v', (m.setU32 addr v).setU32 (addr + 4) v' x = m x := by
      intro v v'
      rw [Mem.setU32_outside _ _ (by omega), Mem.setU32_outside _ _ (by omega)]
    simp only
    split
    · rw [tail, head, header]
    · rw [head, header]

/-! ### Runs of the arena -/

theorem arenaInit_partition (region : Region) (m : Mem) :
    Partition region.base region.size (arenaInit m region.base region.size) [⟨region.base, region.size⟩] [] := by
  have noWrap := region.no_wrap
  have sizePos := region.size_pos
  have notNull := region.not_null
  have clear := region.clear
  have shaped : ∀ b ∈ [(⟨region.base, region.size⟩ : Block)] ++ [], Block.Shaped b := by
    intro b member
    rw [List.append_nil, List.mem_singleton] at member
    rw [member]
    exact ⟨region.base_aligned, region.size_aligned, by simp only; omega⟩
  have tiles : Tiles region.base (region.base + region.size) ([(⟨region.base, region.size⟩ : Block)] ++ []) :=
    Tiles.whole _ _
  have spaced : Spaced [(⟨region.base, region.size⟩ : Block)] := region.spaced shaped tiles
  unfold arenaInit
  rw [if_neg (by unfold minSplitRemainder; omega)]
  extract_lets m₁ m₂ m₃
  have written : IsFreeList m₂ region.base [⟨region.base, region.size⟩] := by
    refine IsFreeList.cons_iff.mpr ⟨rfl, notNull, Mem.getU32_setU32_of_lt _ _ (by omega), ?_⟩
    rw [IsFreeList.nil_iff, Mem.getU32_setU32_apart _ _ (by simp only; omega)]
    exact Mem.getU32_setU32_of_lt _ _ (by decide)
  have headNow : m₃.getU32 arenaHead = region.base := Mem.getU32_setU32_of_lt _ _ (by omega)
  refine ⟨?_, ?_, shaped, tiles⟩
  · rw [setU32_head_tail, headNow]
    exact (written.setCell spaced (Or.inl rfl)).setCell spaced (Or.inr rfl)
  · rw [Mem.getU32_setU32_of_lt _ _ (by omega), lastAddr_cons, lastAddr_nil]

/-- Every operation keeps free and outstanding blocks a partition of the region. -/
theorem step_partition {region : Region} {s s' : State} {event : Event} {free : List Block}
    (partition : Partition region.base region.size s.mem free s.used) (stepped : step s event = some s') :
    ∃ free', Partition region.base region.size s'.mem free' s'.used := by
  cases event with
  | alloc requested =>
    simp only [step] at stepped
    split at stepped
    · next bounds =>
      cases stepped
      rcases allocMem_partition partition bounds.1 bounds.2 with ⟨missing, same⟩ | ⟨live, free', taken⟩
      · refine ⟨free, ?_⟩
        simpa only [State.used, missing, if_true, same] using partition
      · refine ⟨free', ?_⟩
        simpa only [State.used, if_neg live, List.map_cons, Grant.block] using taken
    · cases stepped
  | largest =>
    simp only [step] at stepped
    cases stepped
    rcases allocLargest_partition partition with ⟨missing, same⟩ | ⟨live, rounded, free', taken⟩
    · refine ⟨free, ?_⟩
      simpa only [State.used, missing, if_true, same] using partition
    · refine ⟨free', ?_⟩
      simpa only [State.used, if_neg live, List.map_cons, Grant.block, rounded] using taken
  | free grant =>
    simp only [step] at stepped
    split at stepped
    · next member =>
      cases stepped
      have same : s.used.Perm (grant.block :: (s.grants.erase grant).map Grant.block) :=
        (List.perm_cons_erase member).map Grant.block
      exact ⟨_, (partition.permUsed same).release rfl⟩
    · cases stepped
  | write addr value =>
    simp only [step] at stepped
    split at stepped
    · next owned =>
      cases stepped
      refine ⟨free, partition.agree (fun x outside => ?_)⟩
      obtain ⟨grant, member, holds⟩ := List.any_eq_true.mp owned
      refine Mem.setU8_of_ne _ _ (fun same => ?_)
      refine outside grant.block (List.mem_map_of_mem member) ?_
      rw [same]
      simpa [Grant.holds, Grant.block, Block.Covers] using holds
    · cases stepped

/-- From `arenaInit` on, over any run: the free list is finite and acyclic, all
blocks are aligned, free and outstanding blocks tile the region, and the tail
cell names the last free block. -/
theorem arena_partition (region : Region) (m : Mem) (events : List Event) (s : State)
    (ran : run step ⟨arenaInit m region.base region.size, []⟩ events = some s) :
    ∃ free, Partition region.base region.size s.mem free s.used ∧ (free.map Block.addr).Nodup := by
  have start : ∃ free, Partition region.base region.size (arenaInit m region.base region.size) free [] :=
    ⟨_, arenaInit_partition region m⟩
  have keeps : ∀ s event s', (∃ free, Partition region.base region.size s.mem free s.used) → True →
      step s event = some s' → ∃ free, Partition region.base region.size s'.mem free s'.used := by
    rintro s event s' ⟨free, partition⟩ - stepped
    exact step_partition partition stepped
  obtain ⟨free, partition⟩ := run_invariant keeps start (runMeets_of_forall (fun _ _ => trivial) _ _) ran
  exact ⟨free, partition, partition.list.nodup⟩

def sampleRegion : Region :=
  { base := 0x10000, size := 0x100, base_aligned := by decide, size_aligned := by decide,
    size_pos := by decide, no_wrap := by decide, not_null := by decide, clear := by decide }

def sampleEvents : List Event :=
  [.alloc 20, .alloc 1, .write 0x10003 7, .free ⟨0x10000, 20⟩, .largest]

theorem arena_partition_sample :
    ∃ s, run step ⟨arenaInit (fun _ => 0) 0x10000 0x100, []⟩ sampleEvents = some s ∧
      ∃ free, Partition 0x10000 0x100 s.mem free s.used ∧ (free.map Block.addr).Nodup := by
  have runs : (run step ⟨arenaInit (fun _ => 0) 0x10000 0x100, []⟩ sampleEvents).isSome = true := by
    decide
  obtain ⟨s, ran⟩ := Option.isSome_iff_exists.mp runs
  exact ⟨s, ran, arena_partition sampleRegion (fun _ => 0) sampleEvents s ran⟩

/-- Address 0 ends the list, so a region that starts there is never found; a
region over the list cells loses its own header. -/
theorem arena_partition_fails :
    (¬ ∃ free, Partition 0 16 (arenaInit (fun _ => 0) 0 16) free []) ∧
      ¬ ∃ free, Partition 0x400 16 (arenaInit (fun _ => 0) 0x400 16) free [] := by
  constructor
  · rintro ⟨free, partition⟩
    have none : free = [] := partition.list.head_eq_zero.mp (by decide)
    obtain ⟨b, member, -⟩ := (partition.tiles.cover 0).mp (by decide)
    simp [none] at member
  · rintro ⟨free, partition⟩
    have headIs : (arenaInit (fun _ => 0) 0x400 16).getU32 arenaHead = 0x400 := by decide
    have list := partition.list
    rw [headIs] at list
    cases free with
    | nil => exact absurd (IsFreeList.nil_iff.mp list) (by decide)
    | cons b rest =>
      obtain ⟨addrIs, -, sizeIs, -⟩ := IsFreeList.cons_iff.mp list
      rw [← addrIs] at sizeIs
      have sizeCell : (arenaInit (fun _ => 0) 0x400 16).getU32 (0x400 + 4) = 0x400 := by decide
      have inside := partition.tiles.inside (b := b) (by simp) (by omega)
      omega

end Q9OS.Arena

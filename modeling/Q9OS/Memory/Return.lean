import Mathlib.Tactic
import Q9OS.Memory.Release

/-!
# A request taken back

What F$SRqMem changes, and that F$SRtMem of the same block undoes it, with the
block in the owner table or not.
-/

namespace Q9OS.SysMem

open Arena

section Grants
variable {region : KernelRegion} {held used : List Block} {m m0 m' : Mem} {free : List Block} {loans : List Loan}
  {b : Block}

/-- After a grant: the block is used, and one entry that was empty may name it. -/
structure Taken (region : KernelRegion) (used : List Block) (m0 m : Mem) (b : Block) : Prop where
  partition : ∃ free, Partition region.base region.size m free (b :: used)
  slots : (∀ i < memOwnerSlots, slot m i = slot m0 i) ∨
    ∃ i < memOwnerSlots, slot m0 i = ⟨0, 0, 0⟩ ∧ ((slot m i).addr = b.addr ∧ (slot m i).size = b.size) ∧
      ∀ j < memOwnerSlots, j ≠ i → slot m j = slot m0 j

/-- The same blocks are used, and the owner table is the same. -/
structure Settled (region : KernelRegion) (used : List Block) (m0 m : Mem) : Prop where
  partition : ∃ free, Partition region.base region.size m free used
  slots : ∀ i < memOwnerSlots, slot m i = slot m0 i

theorem Settled.refl (partition : Partition region.base region.size m free used) : Settled region used m m :=
  ⟨⟨free, partition⟩, fun _ _ => rfl⟩

/-- D_Proc is no part of what is compared. -/
theorem Settled.proc (proc : Nat) (settled : Settled region used (m0.setU32 dProc proc) m) : Settled region used m0 m := by
  refine ⟨settled.partition, fun i inside => (settled.slots i inside).trans ?_⟩
  obtain ⟨start, -⟩ := slot_bounds inside
  refine slot_congr (fun x low high => Mem.setU32_outside _ _ ?_)
  unfold dProc
  unfold memOwnerBase at start
  omega

/-- The free bytes are those that nobody uses. -/
theorem Settled.freeByte (settled : Settled region used m0 m) (partition : Partition region.base region.size m0 free used)
    (x : Nat) : FreeByte m x ↔ FreeByte m0 x := by
  obtain ⟨⟨free', after⟩, -⟩ := settled
  rw [SysMem.freeByte_iff after, SysMem.freeByte_iff partition]

theorem granted_bounds (partition : Partition region.base region.size m free (b :: used)) :
    0x18000 ≤ b.addr ∧ b.addr + b.size ≤ 4294967296 ∧ b.size % 16 = 0 ∧ 0 < b.size := by
  have listed : b ∈ free ++ b :: used := by simp
  obtain ⟨-, multiple, positive⟩ := partition.shaped b listed
  exact ⟨block_above partition listed, partition.spaced.fits b listed, multiple, positive⟩

/-- No entry names a block that was free. -/
theorem Owned.unnamed (owned : Owned region held m free loans) {free' : List Block}
    (granted : Partition region.base region.size m' free' (b :: (loans.map Loan.block ++ held))) {i : Nat}
    (inside : i < memOwnerSlots) : ¬ ((slot m i).addr = b.addr ∧ (slot m i).size = b.size) := by
  rintro ⟨addr, -⟩
  obtain ⟨above, -, -, positive⟩ := granted_bounds granted
  by_cases vacant : (slot m i).owner = 0
  · rw [owned.vacant i inside vacant] at addr
    dsimp only at addr
    omega
  · obtain ⟨loan, member, is⟩ := owned.loan_of_slot inside vacant
    rw [is] at addr
    have later := (List.pairwise_append.mp granted.tiles.apart).2.1
    have apart := (List.pairwise_cons.mp later).1 loan.block (List.mem_append_left _ (List.mem_map_of_mem member))
    have size := (owned.inside member).2.2.2
    unfold Block.Apart Loan.block at apart
    unfold Loan.entry at addr
    dsimp only at apart addr
    omega

theorem Owned.taken (owned : Owned region held m free loans) {free' : List Block} {owner : Nat}
    (fits : owner < 4294967296)
    (granted : Partition region.base region.size m' free' (b :: (loans.map Loan.block ++ held)))
    (frame : ∀ x, ¬ Touches free x → m' x = m x) :
    Taken region (loans.map Loan.block ++ held) m (procMemTrackAdd m' owner b.addr b.size) b := by
  have tableKept := table_frame owned.partition frame
  have slots : ∀ i < memOwnerSlots, slot m' i = slot m i := by
    intro i inside
    obtain ⟨start, stop⟩ := slot_bounds inside
    exact slot_congr (fun x low high => tableKept x (by omega) (by omega))
  unfold procMemTrackAdd
  split
  · exact ⟨⟨free', granted⟩, .inl slots⟩
  · rcases addToSlots_spec m' ⟨owner, b.addr, b.size⟩ (List.range memOwnerSlots) with ⟨same, -⟩ | ⟨i, member, vacant, placed⟩
    · rw [same]
      exact ⟨⟨free', granted⟩, .inl slots⟩
    · have inside := List.mem_range.mp member
      rw [slots i inside] at vacant
      rw [placed]
      obtain ⟨above, bound, -, -⟩ := granted_bounds granted
      refine ⟨⟨free', partition_setSlot granted inside _⟩, .inr ⟨i, inside, owned.vacant i inside vacant, ?_, ?_⟩⟩
      · rw [slot_setSlot_self _ _ fits (show b.addr < _ by omega) (show b.size < _ by omega)]
        exact ⟨rfl, rfl⟩
      · intro j bound other
        rw [slot_setSlot_ne _ _ other, slots j bound]

/-- F$SRqMem: refused, served with nothing (the size rounded up is 0), or served with a block. -/
theorem Owned.request (owned : Owned region held m free loans) {requested : Nat} (fits : requested < 4294967296) :
    (∃ code, procSRqMem m requested = (.error code, m)) ∨
      (∃ addr, addr ≠ 0 ∧ procSRqMem m requested = (.ok (addr, 0), m)) ∨
      ∃ addr granted m', procSRqMem m requested = (.ok (addr, granted), m') ∧
        Taken region (loans.map Loan.block ++ held) m m' ⟨addr, granted⟩ := by
  generalize is : procSRqMem m requested = result
  unfold procSRqMem at is
  rw [owned.ensure_eq] at is
  by_cases whole : requested = 0xFFFFFFFF
  · have outcome := allocLargest_partition owned.partition
    have frame := fun x => @Partition.allocLargest_frame m free _ region.toRegion x owned.partition
    rw [if_pos whole] at is
    generalize allocLargest m = largest at is outcome frame
    obtain ⟨addr, size, m'⟩ := largest
    dsimp only at is outcome frame
    rcases outcome with ⟨missing, same⟩ | ⟨found, rounded, free', granted⟩
    · rw [if_pos missing, same] at is
      exact .inl ⟨_, is.symm⟩
    · rw [if_neg found] at is
      exact .inr (.inr ⟨addr, size, _, is.symm, owned.taken (Mem.getU32_lt _ _) granted frame⟩)
  · rw [if_neg whole] at is
    by_cases empty : roundUp16 requested = 0
    · have same := allocMem_zero owned.partition empty
      generalize allocMem m requested = found at is same
      obtain ⟨addr, m'⟩ := found
      dsimp only at is same
      rw [same, empty] at is
      by_cases missing : addr = 0
      · rw [if_pos missing] at is
        exact .inl ⟨_, is.symm⟩
      · have untracked : procMemTrackAdd m (m.getU32 dProc) addr 0 = m := if_pos (.inr (.inr rfl))
        rw [if_neg missing, untracked] at is
        exact .inr (.inl ⟨addr, missing, is.symm⟩)
    · obtain ⟨positive, small⟩ := bounds_of_rounded empty fits whole
      have outcome := allocMem_partition owned.partition positive small
      have frame := fun x => @Partition.allocMem_frame m free _ region.toRegion requested x owned.partition
      generalize allocMem m requested = found at is outcome frame
      obtain ⟨addr, m'⟩ := found
      dsimp only at is outcome frame
      rcases outcome with ⟨missing, same⟩ | ⟨found, free', granted⟩
      · rw [if_pos missing, same] at is
        exact .inl ⟨_, is.symm⟩
      · rw [if_neg found] at is
        exact .inr (.inr ⟨addr, _, _, is.symm, owned.taken (Mem.getU32_lt _ _) granted frame⟩)

/-- What is written into the block, or into D_Proc, changes nothing. -/
theorem Taken.congr (taken : Taken region used m0 m b)
    (same : ∀ x, ¬ b.Covers x → (x < dProc ∨ dProc + 4 ≤ x) → m' x = m x) : Taken region used m0 m' b := by
  obtain ⟨⟨free, partition⟩, slots⟩ := taken
  obtain ⟨above, -, -, -⟩ := granted_bounds partition
  obtain ⟨tailBelow, magicBelow⟩ := cells_below
  have kept : ∀ i < memOwnerSlots, slot m' i = slot m i := by
    intro i inside
    obtain ⟨start, stop⟩ := slot_bounds inside
    refine slot_congr (fun x low high => same x ?_ ?_)
    · unfold Block.Covers
      omega
    · unfold dProc
      unfold memOwnerBase at start
      omega
  refine ⟨⟨free, partition.congr (fun x low high => same x ?_ ?_) (fun c inFree x here => same x ?_ ?_)⟩, ?_⟩
  · unfold Block.Covers
    unfold arenaTail at high
    omega
  · unfold dProc
    unfold arenaHead at low
    omega
  · have apart := (List.pairwise_append.mp partition.tiles.apart).2.2 c inFree b List.mem_cons_self
    unfold Block.Apart at apart
    unfold Block.Covers at here ⊢
    omega
  · have low := block_above partition (List.mem_append_left _ inFree)
    have start := here.1
    unfold dProc
    omega
  · rcases slots with unnamed | ⟨i, inside, vacant, named, others⟩
    · exact .inl (fun i inside => (kept i inside).trans (unnamed i inside))
    · refine .inr ⟨i, inside, vacant, ?_, fun j bound other => (kept j bound).trans (others j bound other)⟩
      rw [kept i inside]
      exact named

/-- F$SRtMem of the block: it is free again, and no entry names it. -/
theorem Taken.giveBack (owned : Owned region held m0 free loans)
    (taken : Taken region (loans.map Loan.block ++ held) m0 m b) :
    Settled region (loans.map Loan.block ++ held) m0 (procSRtMem m b.addr b.size) := by
  obtain ⟨⟨free', partition⟩, slots⟩ := taken
  obtain ⟨above, bound, multiple, positive⟩ := granted_bounds partition
  obtain ⟨tailBelow, magicBelow⟩ := cells_below
  have rounded : roundUp16 b.size = b.size := roundUp16_of_aligned multiple (by omega)
  have unnamed : ∀ {i}, i < memOwnerSlots → ¬ ((slot m0 i).addr = b.addr ∧ (slot m0 i).size = b.size) :=
    fun inside => owned.unnamed partition inside
  -- what the table is before the block itself goes back
  have cleared : ∃ m1, procMemTrackRemove m b.addr b.size = m1 ∧
      Partition region.base region.size m1 free' (b :: (loans.map Loan.block ++ held)) ∧
      ∀ i < memOwnerSlots, slot m1 i = slot m0 i := by
    refine ⟨_, rfl, ?_⟩
    unfold procMemTrackRemove
    rcases removeFromSlots_spec m b.addr b.size (List.range memOwnerSlots) with
      ⟨same, absent⟩ | ⟨i, listed, addrIs, sizeIs, removed⟩
    · rw [same]
      refine ⟨partition, ?_⟩
      rcases slots with kept | ⟨i, inside, -, named, -⟩
      · exact kept
      · exact absurd named (absent i (List.mem_range.mpr inside))
    · have inside := List.mem_range.mp listed
      rw [removed]
      refine ⟨partition_setSlot partition inside _, ?_⟩
      rcases slots with kept | ⟨j, -, vacant, -, others⟩
      · rw [kept i inside] at addrIs sizeIs
        exact absurd ⟨addrIs, sizeIs⟩ (unnamed inside)
      · have here : i = j := by
          by_contra other
          rw [others i inside other] at addrIs sizeIs
          exact unnamed inside ⟨addrIs, sizeIs⟩
        subst here
        intro k bound
        by_cases same : k = i
        · rw [same, vacant]
          exact slot_setSlot_self _ _ (by decide) (by decide) (by decide)
        · rw [slot_setSlot_ne _ _ same, others k bound same]
  obtain ⟨m1, is, partition', kept⟩ := cleared
  unfold procSRtMem
  rw [if_neg (by omega), rounded, is]
  refine ⟨⟨_, partition'.release rounded⟩, fun i inside => ?_⟩
  obtain ⟨start, stop⟩ := slot_bounds inside
  have outside : ∀ x, memOwnerOwner i ≤ x → x < memOwnerOwner i + 12 → freeMem m1 b.addr b.size x = m1 x :=
    fun x low high => freeMem_frame (by omega) (by omega)
  rw [slot_congr outside, kept i inside]

/-- F$SRtMem of nothing. -/
theorem Owned.giveNothing (owned : Owned region held m free loans) {addr : Nat} (some : addr ≠ 0) :
    procSRtMem m addr 0 = m := by
  have rounded : roundUp16 0 = 0 := by decide
  unfold procSRtMem procMemTrackRemove
  rw [if_neg (by omega), rounded]
  rcases removeFromSlots_spec m addr 0 (List.range memOwnerSlots) with ⟨same, -⟩ | ⟨i, listed, addrIs, sizeIs, -⟩
  · rw [same]
    rfl
  · have inside := List.mem_range.mp listed
    by_cases vacant : (slot m i).owner = 0
    · rw [owned.vacant i inside vacant] at addrIs
      exact absurd addrIs.symm some
    · obtain ⟨loan, member, is⟩ := owned.loan_of_slot inside vacant
      rw [is] at sizeIs
      have positive := (owned.inside member).2.2.2
      unfold Loan.entry at sizeIs
      dsimp only at sizeIs
      omega

end Grants

end Q9OS.SysMem

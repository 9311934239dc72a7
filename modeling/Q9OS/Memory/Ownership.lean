import Mathlib.Tactic
import Q9OS.Lib.Table
import Q9OS.Memory.Partition
import Q9OS.Memory.SysMem

/-!
# Who owns which block

The owner table lists exactly the blocks that processes hold, as long as no
grant finds it full, and process end then returns exactly what is held.
-/

namespace Q9OS.SysMem

open Arena

/-- The region boot gives to the arena lies above the kernel's fixed cells. -/
structure KernelRegion extends Region where
  above : 0x18000 ≤ base

def Loan.block (loan : Loan) : Block := ⟨loan.addr, loan.size⟩
def Loan.entry (loan : Loan) : Entry := ⟨loan.owner, loan.addr, loan.size⟩

def entries (m : Mem) : List Entry := tableEntries memOwnerSlots (slot m) (fun entry => entry.owner ≠ 0)

/-! ### The owner table -/

theorem setSlot_outside (m : Mem) (i : Nat) (entry : Entry) {x : Nat}
    (apart : x < memOwnerOwner i ∨ memOwnerOwner i + 12 ≤ x) : setSlot m i entry x = m x := by
  unfold setSlot memOwnerAddr memOwnerSize
  rw [Mem.setU32_outside _ _ (by omega), Mem.setU32_outside _ _ (by omega),
    Mem.setU32_outside _ _ (by omega)]

theorem slot_congr {m m' : Mem} {i : Nat}
    (same : ∀ x, memOwnerOwner i ≤ x → x < memOwnerOwner i + 12 → m' x = m x) : slot m' i = slot m i := by
  unfold slot memOwnerAddr memOwnerSize
  rw [Mem.getU32_congr (fun x low high => same x low (by omega)),
    Mem.getU32_congr (fun x low high => same x (by omega) (by omega)),
    Mem.getU32_congr (fun x low high => same x (by omega) (by omega))]

theorem slot_setSlot_self (m : Mem) (i : Nat) {entry : Entry} (ownerFits : entry.owner < 4294967296)
    (addrFits : entry.addr < 4294967296) (sizeFits : entry.size < 4294967296) :
    slot (setSlot m i entry) i = entry := by
  unfold slot setSlot memOwnerAddr memOwnerSize
  rw [Mem.getU32_setU32_apart _ _ (by omega), Mem.getU32_setU32_apart _ _ (by omega),
    Mem.getU32_setU32_of_lt _ _ ownerFits, Mem.getU32_setU32_apart _ _ (by omega),
    Mem.getU32_setU32_of_lt _ _ addrFits, Mem.getU32_setU32_of_lt _ _ sizeFits]

theorem slot_setSlot_ne (m : Mem) (entry : Entry) {i j : Nat} (apart : j ≠ i) :
    slot (setSlot m i entry) j = slot m j := by
  refine slot_congr (fun x low high => setSlot_outside _ _ _ ?_)
  unfold memOwnerOwner memOwnerStride at *
  omega

theorem addToSlots_spec (m : Mem) (entry : Entry) (slots : List Nat) :
    (addToSlots m entry slots = m ∧ ∀ i ∈ slots, (slot m i).owner ≠ 0) ∨
      ∃ i ∈ slots, (slot m i).owner = 0 ∧ addToSlots m entry slots = setSlot m i entry := by
  induction slots with
  | nil => exact Or.inl ⟨rfl, fun i member => absurd member List.not_mem_nil⟩
  | cons i rest ih =>
    rw [addToSlots]
    split
    · next vacant => exact Or.inr ⟨i, List.mem_cons_self .., vacant, rfl⟩
    · next taken =>
      rcases ih with ⟨same, full⟩ | ⟨j, member, vacant, placed⟩
      · refine Or.inl ⟨same, fun j member => ?_⟩
        rcases List.mem_cons.mp member with rfl | later
        · exact taken
        · exact full j later
      · exact Or.inr ⟨j, List.mem_cons_of_mem _ member, vacant, placed⟩

theorem procMemTrackAdd_outside (m : Mem) (owner addr size : Nat) {x : Nat} (below : x < memOwnerBase) :
    procMemTrackAdd m owner addr size x = m x := by
  unfold procMemTrackAdd
  split
  · rfl
  · rcases addToSlots_spec m ⟨owner, addr, size⟩ (List.range memOwnerSlots) with ⟨same, -⟩ | ⟨i, -, -, placed⟩
    · rw [same]
    · rw [placed]
      exact setSlot_outside _ _ _ (by unfold memOwnerOwner; omega)

theorem procMemTrackAdd_full (m : Mem) (owner addr size : Nat)
    (full : ∀ i < memOwnerSlots, (slot m i).owner ≠ 0) : procMemTrackAdd m owner addr size = m := by
  unfold procMemTrackAdd
  split
  · rfl
  · rcases addToSlots_spec m ⟨owner, addr, size⟩ (List.range memOwnerSlots) with ⟨same, -⟩ | ⟨i, listed, vacant, -⟩
    · exact same
    · exact absurd vacant (full i (List.mem_range.mp listed))

theorem removeFromSlots_spec (m : Mem) (addr size : Nat) (slots : List Nat) :
    (removeFromSlots m addr size slots = m ∧
        ∀ i ∈ slots, ¬ ((slot m i).addr = addr ∧ (slot m i).size = size)) ∨
      ∃ i ∈ slots, (slot m i).addr = addr ∧ (slot m i).size = size ∧
        removeFromSlots m addr size slots = setSlot m i ⟨0, 0, 0⟩ := by
  induction slots with
  | nil => exact Or.inl ⟨rfl, fun i member => absurd member List.not_mem_nil⟩
  | cons i rest ih =>
    rw [removeFromSlots]
    split
    · next found => exact Or.inr ⟨i, List.mem_cons_self .., found.1, found.2, rfl⟩
    · next other =>
      rcases ih with ⟨same, absent⟩ | ⟨j, member, addrIs, sizeIs, removed⟩
      · refine Or.inl ⟨same, fun j member => ?_⟩
        rcases List.mem_cons.mp member with rfl | later
        · exact other
        · exact absent j later
      · exact Or.inr ⟨j, List.mem_cons_of_mem _ member, addrIs, sizeIs, removed⟩

theorem slot_bounds {i : Nat} (inside : i < memOwnerSlots) :
    memOwnerBase ≤ memOwnerOwner i ∧ memOwnerOwner i + 12 ≤ memOwnerMagic := by
  unfold memOwnerMagic memOwnerOwner memOwnerStride memOwnerSlots at *
  omega

theorem cells_below : arenaTail + 4 ≤ memOwnerBase ∧ memOwnerMagic + 4 ≤ 0x18000 := by decide

section Region

variable {region : KernelRegion} {m : Mem} {free used : List Block}

theorem block_above (partition : Partition region.base region.size m free used) {b : Block}
    (member : b ∈ free ++ used) : 0x18000 ≤ b.addr := by
  have above := region.above
  have shaped := partition.shaped b member
  have start := (partition.tiles.inside member shaped.2.2).1
  omega

/-- The owner table is no part of the arena. -/
theorem partition_setSlot (partition : Partition region.base region.size m free used) {i : Nat}
    (inside : i < memOwnerSlots) (entry : Entry) :
    Partition region.base region.size (setSlot m i entry) free used := by
  obtain ⟨tailBelow, magicBelow⟩ := cells_below
  obtain ⟨start, stop⟩ := slot_bounds inside
  refine partition.congr (fun x low high => setSlot_outside _ _ _ (by omega)) ?_
  intro b inFree x covered
  have above := block_above partition (List.mem_append_left _ inFree)
  have from' := covered.1
  exact setSlot_outside _ _ _ (by omega)

/-- What the arena's list operations write is no part of the table. -/
theorem table_frame {m' : Mem} (partition : Partition region.base region.size m free used)
    (frame : ∀ x, ¬ Touches free x → m' x = m x) :
    ∀ x, memOwnerBase ≤ x → x < memOwnerMagic + 4 → m' x = m x := by
  intro x low high
  obtain ⟨tailBelow, magicBelow⟩ := cells_below
  refine frame x ?_
  rintro (⟨-, below⟩ | ⟨b, member, covered⟩)
  · omega
  · have above := block_above partition (List.mem_append_left _ member)
    have start := covered.1
    omega

end Region

/-! ### The table follows the loans -/

/-- The table lists the loans; `held` are blocks in use that no entry names. -/
structure Owned (region : KernelRegion) (held : List Block) (m : Mem) (free : List Block)
    (loans : List Loan) : Prop where
  magic : m.getU32 memOwnerMagic = magicWord
  partition : Partition region.base region.size m free (loans.map Loan.block ++ held)
  table : (entries m).Perm (loans.map Loan.entry)
  vacant : ∀ i < memOwnerSlots, (slot m i).owner = 0 → slot m i = ⟨0, 0, 0⟩
  owners : ∀ loan ∈ loans, loan.owner ≠ 0
  sizes : ∀ loan ∈ loans, loan.requested = 0xFFFFFFFF ∨ roundUp16 loan.requested = loan.size

namespace Owned

variable {region : KernelRegion} {held : List Block} {m m' : Mem} {free : List Block} {loans loans' : List Loan}

theorem perm (owned : Owned region held m free loans) (same : loans.Perm loans') : Owned region held m free loans' where
  magic := owned.magic
  partition := owned.partition.permUsed ((same.map Loan.block).append_right held)
  table := owned.table.trans (same.map Loan.entry)
  vacant := owned.vacant
  owners loan member := owned.owners loan (same.mem_iff.mpr member)
  sizes loan member := owned.sizes loan (same.mem_iff.mpr member)

/-- A block that is lent lies in the region, above every fixed cell. -/
theorem inside (owned : Owned region held m free loans) {loan : Loan} (member : loan ∈ loans) :
    0x18000 ≤ loan.addr ∧ loan.addr + loan.size ≤ 4294967296 ∧ loan.size % 16 = 0 ∧ 0 < loan.size := by
  have listed : loan.block ∈ free ++ (loans.map Loan.block ++ held) :=
    List.mem_append_right _ (List.mem_append_left _ (List.mem_map_of_mem member))
  obtain ⟨-, multiple, positive⟩ := owned.partition.shaped _ listed
  obtain ⟨low, high⟩ := owned.partition.tiles.inside listed positive
  have above := region.above
  have noWrap := region.no_wrap
  unfold Loan.block at low high multiple positive
  simp only at low high multiple positive
  exact ⟨by omega, by omega, multiple, positive⟩

/-- Writes that miss the table, the list cells and the free blocks keep everything in step. -/
theorem congr (owned : Owned region held m free loans)
    (table : ∀ x, memOwnerBase ≤ x → x < memOwnerMagic + 4 → m' x = m x)
    (cells : ∀ x, arenaHead ≤ x → x < arenaTail + 4 → m' x = m x)
    (inFree : ∀ b ∈ free, ∀ x, b.Covers x → m' x = m x) : Owned region held m' free loans := by
  have slots : ∀ i < memOwnerSlots, slot m' i = slot m i := by
    intro i inside
    obtain ⟨start, stop⟩ := slot_bounds inside
    exact slot_congr (fun x low high => table x (by omega) (by omega))
  refine ⟨?_, owned.partition.congr cells inFree, ?_, ?_, owned.owners, owned.sizes⟩
  · rw [Mem.getU32_congr (fun x low high => table x (by unfold memOwnerMagic at low; omega) high)]
    exact owned.magic
  · unfold entries
    rw [tableEntries_congr slots]
    exact owned.table
  · intro i inside
    rw [slots i inside]
    exact owned.vacant i inside

/-- After a slot is cleared and its block freed, the other slots are as before. -/
theorem slot_retired {i j size addr : Nat} (m : Mem) (bound : j < memOwnerSlots) (above : 0x18000 ≤ addr) :
    slot (freeMem (setSlot m i ⟨0, 0, 0⟩) addr size) j = if j = i then ⟨0, 0, 0⟩ else slot m j := by
  obtain ⟨tailBelow, magicBelow⟩ := cells_below
  obtain ⟨start, stop⟩ := slot_bounds bound
  have kept : slot (freeMem (setSlot m i ⟨0, 0, 0⟩) addr size) j = slot (setSlot m i ⟨0, 0, 0⟩) j :=
    slot_congr (fun x low high => freeMem_frame (by omega) (by omega))
  rw [kept]
  split
  · next here =>
    rw [here]
    exact slot_setSlot_self _ _ (by decide) (by decide) (by decide)
  · next apart => exact slot_setSlot_ne _ _ apart

/-- Clearing the slot of a loan and freeing its block takes the loan off the books. -/
theorem retire (owned : Owned region held m free loans) {loan : Loan} {i size : Nat} (member : loan ∈ loans)
    (inside : i < memOwnerSlots) (listed : slot m i = loan.entry) (rounded : roundUp16 size = loan.size) :
    Owned region held (freeMem (setSlot m i ⟨0, 0, 0⟩) loan.addr size) (loan.block :: free) (loans.erase loan) := by
  have sorted : loans.Perm (loan :: loans.erase loan) := List.perm_cons_erase member
  obtain ⟨low, high, -, positive⟩ := owned.inside member
  obtain ⟨slotStart, slotEnd⟩ := slot_bounds inside
  obtain ⟨tailBelow, magicBelow⟩ := cells_below
  have partition := partition_setSlot owned.partition inside ⟨0, 0, 0⟩
  have freed := (partition.permUsed ((sorted.map Loan.block).append_right held)).release rounded
  have slots := fun j bound => @slot_retired i j size loan.addr m bound low
  have live := owned.owners loan member
  have one : (entries m).Perm (slot m i :: entries (freeMem (setSlot m i ⟨0, 0, 0⟩) loan.addr size)) := by
    have same : entries (freeMem (setSlot m i ⟨0, 0, 0⟩) loan.addr size) =
        tableEntries memOwnerSlots (fun j => if j = i then ⟨0, 0, 0⟩ else slot m j) (fun entry => entry.owner ≠ 0) :=
      tableEntries_congr slots
    rw [same]
    refine tableEntries_insert inside (fun j apart => ?_) ?_ ?_
    · rw [if_neg apart]
    · rw [if_pos rfl]
      rfl
    · rw [listed]
      exact decide_eq_true live
  rw [listed] at one
  refine ⟨?_, freed, ?_, ?_, fun other kept => owned.owners other (List.mem_of_mem_erase kept),
    fun other kept => owned.sizes other (List.mem_of_mem_erase kept)⟩
  · have magicKept : (freeMem (setSlot m i ⟨0, 0, 0⟩) loan.addr size).getU32 memOwnerMagic =
        m.getU32 memOwnerMagic := by
      refine Mem.getU32_congr (fun x above below => ?_)
      rw [freeMem_frame (by omega) (by omega), setSlot_outside _ _ _ (by omega)]
    rw [magicKept]
    exact owned.magic
  · exact ((one.symm.trans owned.table).trans (sorted.map Loan.entry)).cons_inv
  · intro j bound none
    rw [slots j bound] at none ⊢
    split at none
    · next here => rw [if_pos here]
    · next apart =>
      rw [if_neg apart]
      exact owned.vacant j bound none

/-- A used slot belongs to one of the loans. -/
theorem loan_of_slot (owned : Owned region held m free loans) {i : Nat} (inside : i < memOwnerSlots)
    (used : (slot m i).owner ≠ 0) : ∃ loan ∈ loans, slot m i = loan.entry := by
  have listed : slot m i ∈ entries m := mem_tableEntries.mpr ⟨by simpa using used, i, inside, rfl⟩
  obtain ⟨loan, member, is⟩ := List.mem_map.mp (owned.table.mem_iff.mp listed)
  exact ⟨loan, member, is.symm⟩

theorem slot_of_loan (owned : Owned region held m free loans) {loan : Loan} (member : loan ∈ loans) :
    ∃ i < memOwnerSlots, slot m i = loan.entry := by
  have listed : loan.entry ∈ entries m := owned.table.mem_iff.mpr (List.mem_map_of_mem member)
  obtain ⟨-, i, inside, is⟩ := mem_tableEntries.mp listed
  exact ⟨i, inside, is⟩

/-- No two loans start at one address. -/
theorem loan_unique (owned : Owned region held m free loans) {one two : Loan} (first : one ∈ loans)
    (second : two ∈ loans) (same : one.addr = two.addr) : one = two := by
  by_contra differ
  have used := (List.pairwise_append.mp owned.partition.tiles.apart).2.1
  have pairs := (List.pairwise_append.mp used).1
  rw [List.pairwise_map] at pairs
  have symmetric : Std.Symm (fun one two : Loan => one.block.Apart two.block) := ⟨fun _ _ apart => apart.symm⟩
  have apart := pairs.forall first second differ
  have here := owned.inside first
  have there := owned.inside second
  unfold Block.Apart Loan.block at apart
  simp only at apart
  omega

/-- A grant that finds a free slot is listed. -/
theorem lend (owned : Owned region held m free loans) (loan : Loan) {free' : List Block}
    (granted : Partition region.base region.size m' free' (loan.block :: (loans.map Loan.block ++ held)))
    (frame : ∀ x, ¬ Touches free x → m' x = m x) (live : loan.owner ≠ 0) (fits : loan.owner < 4294967296)
    (room : ∃ i < memOwnerSlots, (slot m i).owner = 0)
    (rounded : loan.requested = 0xFFFFFFFF ∨ roundUp16 loan.requested = loan.size) :
    Owned region held (procMemTrackAdd m' loan.owner loan.addr loan.size) free' (loan :: loans) := by
  obtain ⟨tailBelow, magicBelow⟩ := cells_below
  have tableKept := table_frame owned.partition frame
  have slots : ∀ i < memOwnerSlots, slot m' i = slot m i := by
    intro i inside
    obtain ⟨start, stop⟩ := slot_bounds inside
    exact slot_congr (fun x low high => tableKept x (by omega) (by omega))
  have listed : loan.block ∈ free' ++ loan.block :: (loans.map Loan.block ++ held) := by simp
  have above : 0x18000 ≤ loan.addr := block_above granted listed
  have positive : 0 < loan.size := (granted.shaped _ listed).2.2
  have bound : loan.addr + loan.size ≤ 4294967296 := granted.spaced.fits _ listed
  unfold procMemTrackAdd
  rw [if_neg (by omega)]
  rcases addToSlots_spec m' loan.entry (List.range memOwnerSlots) with ⟨-, full⟩ | ⟨i, member, vacant, placed⟩
  · obtain ⟨i, inside, vacant⟩ := room
    exact absurd (by rw [slots i inside]; exact vacant) (full i (List.mem_range.mpr inside))
  · have inside := List.mem_range.mp member
    obtain ⟨start, stop⟩ := slot_bounds inside
    have written : slot (setSlot m' i loan.entry) i = loan.entry :=
      slot_setSlot_self _ _ fits (show loan.addr < _ by omega) (show loan.size < _ by omega)
    have added : (entries (setSlot m' i loan.entry)).Perm
        (slot (setSlot m' i loan.entry) i :: entries m') := by
      refine tableEntries_insert inside (fun j apart => slot_setSlot_ne _ _ apart) ?_ ?_
      · rw [vacant]
        rfl
      · rw [written]
        exact decide_eq_true live
    have same : entries m' = entries m := tableEntries_congr slots
    rw [written, same] at added
    refine placed ▸ ⟨?_, partition_setSlot granted inside _, ?_, ?_, ?_, ?_⟩
    · rw [Mem.getU32_congr (fun x low high => (setSlot_outside _ _ _ (by omega)).trans
        (tableKept x (by unfold memOwnerMagic at low; omega) high))]
      exact owned.magic
    · exact added.trans (owned.table.cons loan.entry)
    · intro j bound' none
      by_cases here : j = i
      · rw [here, written] at none
        exact absurd none live
      · rw [slot_setSlot_ne _ _ here, slots j bound'] at none ⊢
        exact owned.vacant j bound' none
    · intro other member
      rcases List.mem_cons.mp member with rfl | old
      · exact live
      · exact owned.owners other old
    · intro other member
      rcases List.mem_cons.mp member with rfl | old
      · exact rounded
      · exact owned.sizes other old

/-- A grant that finds the table full is held by nobody. -/
theorem leak (owned : Owned region held m free loans) {b : Block} {free' : List Block}
    (granted : Partition region.base region.size m' free' (b :: (loans.map Loan.block ++ held)))
    (frame : ∀ x, ¬ Touches free x → m' x = m x) : Owned region (b :: held) m' free' loans := by
  have tableKept := table_frame owned.partition frame
  have slots : ∀ i < memOwnerSlots, slot m' i = slot m i := by
    intro i inside
    obtain ⟨start, stop⟩ := slot_bounds inside
    exact slot_congr (fun x low high => tableKept x (by omega) (by omega))
  refine ⟨?_, granted.permUsed List.perm_middle.symm, ?_, ?_, owned.owners, owned.sizes⟩
  · rw [Mem.getU32_congr (fun x low high => tableKept x (by unfold memOwnerMagic at low; omega) high)]
    exact owned.magic
  · have same : entries m' = entries m := tableEntries_congr slots
    rw [same]
    exact owned.table
  · intro i inside none
    rw [slots i inside] at none ⊢
    exact owned.vacant i inside none

/-- F$SRtMem with a size that rounds to the granted one takes the loan off the books. -/
theorem giveBack (owned : Owned region held m free loans) {loan : Loan} {size : Nat} (member : loan ∈ loans)
    (rounded : roundUp16 size = loan.size) :
    Owned region held (procSRtMem m loan.addr size) (loan.block :: free) (loans.erase loan) := by
  obtain ⟨above, bound, multiple, positive⟩ := owned.inside member
  have again : roundUp16 (roundUp16 size) = loan.size := by
    rw [rounded]
    exact roundUp16_of_aligned multiple (by omega)
  unfold procSRtMem procMemTrackRemove
  rw [if_neg (by omega), rounded]
  rw [rounded] at again
  rcases removeFromSlots_spec m loan.addr loan.size (List.range memOwnerSlots) with
    ⟨-, absent⟩ | ⟨i, listed, addrIs, sizeIs, removed⟩
  · obtain ⟨i, inside, is⟩ := owned.slot_of_loan member
    exact absurd (by rw [is]; exact ⟨rfl, rfl⟩) (absent i (List.mem_range.mpr inside))
  · have inside := List.mem_range.mp listed
    have used : (slot m i).owner ≠ 0 := by
      intro none
      rw [owned.vacant i inside none] at addrIs
      simp only at addrIs
      omega
    obtain ⟨other, otherMember, is⟩ := owned.loan_of_slot inside used
    have same : other = loan := owned.loan_unique otherMember member (by rw [is] at addrIs; exact addrIs)
    rw [removed]
    rw [same] at is
    exact owned.retire member inside is again

theorem no_loans_of_absent (owned : Owned region held m free loans) {p : Nat}
    (absent : ∀ i < memOwnerSlots, (slot m i).owner ≠ p) : ∀ loan ∈ loans, loan.owner ≠ p := by
  intro loan member
  obtain ⟨i, inside, is⟩ := owned.slot_of_loan member
  have other := absent i inside
  rw [is] at other
  exact other

/-- The loop of process end returns exactly the loans of `p` and touches no other loan. -/
theorem releaseSlots {p : Nat} (live : p ≠ 0) (slots : List Nat) (owned : Owned region held m free loans)
    (inside : ∀ i ∈ slots, i < memOwnerSlots)
    (done : ∀ i < memOwnerSlots, i ∉ slots → (slot m i).owner ≠ p) :
    ∃ returned kept blocks, loans.Perm (returned ++ kept) ∧ (∀ loan ∈ returned, loan.owner = p) ∧
      (∀ loan ∈ kept, loan.owner ≠ p) ∧ blocks.Perm (returned.map Loan.block) ∧
      Owned region held (SysMem.releaseSlots m p slots) (blocks ++ free) kept ∧
      ∀ loan ∈ kept, ∀ x, loan.block.Covers x → SysMem.releaseSlots m p slots x = m x := by
  induction slots generalizing m free loans with
  | nil =>
    have none := owned.no_loans_of_absent (fun i bound => done i bound List.not_mem_nil)
    exact ⟨[], loans, [], List.Perm.refl _, fun _ member => absurd member List.not_mem_nil, none,
      List.Perm.refl _, owned, fun _ _ _ _ => rfl⟩
  | cons i rest ih =>
    have bound := inside i (List.mem_cons_self ..)
    rw [SysMem.releaseSlots]
    by_cases other : m.getU32 (memOwnerOwner i) ≠ p
    · rw [if_pos other]
      refine ih owned (fun j member => inside j (List.mem_cons_of_mem _ member)) ?_
      intro j inTable notRest
      by_cases here : j = i
      · rw [here]
        exact other
      · exact done j inTable (fun member => (List.mem_cons.mp member).elim here notRest)
    · rw [if_neg other]
      have owner : (slot m i).owner = p := not_not.mp other
      obtain ⟨loan, member, is⟩ := owned.loan_of_slot bound (by rw [owner]; exact live)
      obtain ⟨above, high, multiple, positive⟩ := owned.inside member
      have addrIs : m.getU32 (memOwnerAddr i) = loan.addr := congrArg Entry.addr is
      have sizeIs : m.getU32 (memOwnerSize i) = loan.size := congrArg Entry.size is
      simp only [addrIs, sizeIs]
      rw [if_pos ⟨by omega, by omega⟩]
      have retired := owned.retire member bound is (roundUp16_of_aligned multiple (by omega))
      have emptied : ∀ j < memOwnerSlots, j ∉ rest →
          (slot (freeMem (setSlot m i ⟨0, 0, 0⟩) loan.addr loan.size) j).owner ≠ p := by
        intro j inTable notRest
        rw [slot_retired m inTable above]
        split
        · exact live.symm
        · next apart =>
          exact done j inTable (fun listed => (List.mem_cons.mp listed).elim apart notRest)
      obtain ⟨returned, kept, blocks, split, ofP, notP, sameBlocks, after, frame⟩ :=
        ih retired (fun j listed => inside j (List.mem_cons_of_mem _ listed)) emptied
      have sorted : loans.Perm (loan :: loans.erase loan) := List.perm_cons_erase member
      refine ⟨loan :: returned, kept, blocks ++ [loan.block], sorted.trans (split.cons loan), ?_, notP, ?_, ?_, ?_⟩
      · intro one listed
        rcases List.mem_cons.mp listed with rfl | later
        · rw [is] at owner
          exact owner
        · exact ofP one later
      · exact (List.perm_append_singleton _ _).trans (sameBlocks.cons loan.block)
      · rw [List.append_assoc, List.singleton_append]
        exact after
      · intro one listed x covered
        have inLoans : one ∈ loans.erase loan := split.mem_iff.mpr (List.mem_append_right _ listed)
        have apart : loan.block.Apart one.block := by
          have pairs := (List.pairwise_append.mp (owned.perm sorted).partition.tiles.apart).2.1
          exact (List.pairwise_cons.mp pairs).1 one.block
            (List.mem_append_left _ (List.mem_map_of_mem inLoans))
        have high' := (owned.inside (List.mem_of_mem_erase inLoans)).1
        obtain ⟨tailBelow, magicBelow⟩ := cells_below
        obtain ⟨slotStart, slotEnd⟩ := slot_bounds bound
        rw [frame one listed x covered]
        unfold Block.Apart Loan.block at apart
        unfold Block.Covers Loan.block at covered
        simp only at apart covered
        rw [freeMem_frame (by omega) (by omega), setSlot_outside _ _ _ (by omega)]

theorem ensure_eq (owned : Owned region held m free loans) : procMemTrackEnsure m = m :=
  if_neg (not_not.mpr owned.magic)

/-- Process end puts exactly the blocks `p` still holds back on the free list and
leaves the blocks of other processes alone. -/
theorem releaseAll {p : Nat} (owned : Owned region held m free loans) (live : p ≠ 0) :
    ∃ blocks, blocks.Perm ((loans.filter (·.owner = p)).map Loan.block) ∧
      Owned region held (procMemReleaseAll m p) (blocks ++ free) (loans.filter (·.owner ≠ p)) ∧
      ∀ loan ∈ loans, loan.owner ≠ p → ∀ x, loan.block.Covers x → procMemReleaseAll m p x = m x := by
  unfold procMemReleaseAll
  rw [if_neg live, owned.ensure_eq]
  obtain ⟨returned, kept, blocks, split, ofP, notP, sameBlocks, after, frame⟩ :=
    owned.releaseSlots live (List.range memOwnerSlots) (fun i member => List.mem_range.mp member)
      (fun i bound missing => absurd (List.mem_range.mpr bound) missing)
  have theirs : (loans.filter (·.owner = p)).Perm returned := by
    have all := split.filter (·.owner = p)
    have first : returned.filter (·.owner = p) = returned := List.filter_eq_self.mpr (by simpa using ofP)
    have second : kept.filter (·.owner = p) = [] := List.filter_eq_nil_iff.mpr (by simpa using notP)
    rw [List.filter_append, first, second, List.append_nil] at all
    exact all
  have others : (loans.filter (·.owner ≠ p)).Perm kept := by
    have all := split.filter (·.owner ≠ p)
    have first : returned.filter (·.owner ≠ p) = [] := List.filter_eq_nil_iff.mpr (by simpa using ofP)
    have second : kept.filter (·.owner ≠ p) = kept := List.filter_eq_self.mpr (by simpa using notP)
    rw [List.filter_append, first, second, List.nil_append] at all
    exact all
  refine ⟨blocks, sameBlocks.trans (theirs.symm.map Loan.block), after.perm others.symm, ?_⟩
  intro loan member differs x covered
  refine frame loan ?_ x covered
  exact others.mem_iff.mp (List.mem_filter.mpr ⟨member, by simpa using differs⟩)

end Owned

/-! ### Requests -/

/-- The arena has a non-empty block for the request. -/
def servable (m : Mem) (requested : Nat) : Bool :=
  if requested = 0xFFFFFFFF then (allocLargest m).1 != 0
  else (allocMem m requested).1 != 0 && roundUp16 requested != 0

/-- What keeps the table in step with the arena: a grant finds a free slot, and
a block comes back under a size that still fits 32 bits when rounded up. -/
def Tracked (s : State) : Event → Prop
  | .request requested => servable s.mem requested = true → ∃ i < memOwnerSlots, (slot s.mem i).owner = 0
  | .giveBack _ size => size ≠ 0xFFFFFFFF
  | _ => True

theorem allocMem_zero {region : Region} {m : Mem} {free used : List Block} {requested : Nat}
    (partition : Partition region.base region.size m free used) (zero : roundUp16 requested = 0) :
    (allocMem m requested).2 = m := by
  unfold allocMem
  rw [zero]
  rcases partition.firstFit 0 with ⟨missing, -⟩ | ⟨front, b, back, rfl, -, taken⟩
  · rw [missing]
  · rw [taken]
    exact takeBlock_zero partition

theorem bounds_of_rounded {n : Nat} (zero : roundUp16 n ≠ 0) (fits : n < 4294967296) (notAll : n ≠ 0xFFFFFFFF) :
    1 ≤ n ∧ n ≤ 4294967280 := by
  unfold roundUp16 allocGranularity at zero
  omega

theorem dProc_frame {region : KernelRegion} {m m' : Mem} {free used : List Block}
    (partition : Partition region.base region.size m free used)
    (frame : ∀ x, ¬ Touches free x → m' x = m x) : m'.getU32 dProc = m.getU32 dProc := by
  refine Mem.getU32_congr (fun x low high => frame x ?_)
  rintro (⟨above, -⟩ | ⟨b, member, covered⟩)
  · unfold dProc arenaHead at *
    omega
  · have above := block_above partition (List.mem_append_left _ member)
    have start := covered.1
    unfold dProc at *
    omega

theorem procSRqMem_eq {m : Mem} {requested : Nat} (notAll : requested ≠ 0xFFFFFFFF) :
    procSRqMem m requested =
      if (allocMem (procMemTrackEnsure m) requested).1 = 0 then
        (.error eMemful, (allocMem (procMemTrackEnsure m) requested).2)
      else
        (.ok ((allocMem (procMemTrackEnsure m) requested).1, roundUp16 requested),
          procMemTrackAdd (allocMem (procMemTrackEnsure m) requested).2
            ((allocMem (procMemTrackEnsure m) requested).2.getU32 dProc)
            (allocMem (procMemTrackEnsure m) requested).1 (roundUp16 requested)) := by
  rw [procSRqMem]
  refine (if_neg notAll).trans ?_
  cases allocMem (procMemTrackEnsure m) requested
  rfl

theorem procSRqMem_all {m : Mem} {requested : Nat} (all : requested = 0xFFFFFFFF) :
    procSRqMem m requested =
      if (allocLargest (procMemTrackEnsure m)).1 = 0 then
        (.error eNoram, (allocLargest (procMemTrackEnsure m)).2.2)
      else
        (.ok ((allocLargest (procMemTrackEnsure m)).1, (allocLargest (procMemTrackEnsure m)).2.1),
          procMemTrackAdd (allocLargest (procMemTrackEnsure m)).2.2
            ((allocLargest (procMemTrackEnsure m)).2.2.getU32 dProc)
            (allocLargest (procMemTrackEnsure m)).1 (allocLargest (procMemTrackEnsure m)).2.1) := by
  rw [procSRqMem]
  refine (if_pos all).trans ?_
  obtain ⟨addr, size, m'⟩ := allocLargest (procMemTrackEnsure m)
  rfl

theorem procSRqMem_served {m : Mem} {requested addr size : Nat} {m' : Mem} (notAll : requested ≠ 0xFFFFFFFF)
    (granted : procSRqMem m requested = (.ok (addr, size), m')) :
    ∃ m₂, allocMem (procMemTrackEnsure m) requested = (addr, m₂) ∧ addr ≠ 0 ∧ size = roundUp16 requested ∧
      m' = procMemTrackAdd m₂ (m₂.getU32 dProc) addr size := by
  rw [procSRqMem_eq notAll] at granted
  cases answer : allocMem (procMemTrackEnsure m) requested with
  | mk a m₂ =>
    rw [answer] at granted
    dsimp only at granted
    by_cases missing : a = 0
    · rw [if_pos missing] at granted
      cases granted
    · rw [if_neg missing] at granted
      cases granted
      exact ⟨m₂, rfl, missing, rfl, rfl⟩

section Steps

variable {region : KernelRegion} {held : List Block} {s s' : State} {free : List Block}

/-- What the answer to a request makes of the loans. -/
theorem step_refused {requested code : Nat} {m : Mem} (answered : procSRqMem s.mem requested = (.error code, m))
    (stepped : step s (.request requested) = some s') : s' = { s with mem := m } := by
  rw [step] at stepped
  split at stepped
  · rw [answered] at stepped
    exact (Option.some.inj stepped).symm
  · cases stepped

theorem step_granted {requested addr size : Nat} {m : Mem} (answered : procSRqMem s.mem requested = (.ok (addr, size), m))
    (stepped : step s (.request requested) = some s') :
    s' = if size = 0 then { s with mem := m } else ⟨m, ⟨s.mem.getU32 dProc, addr, size, requested⟩ :: s.loans⟩ := by
  rw [step] at stepped
  split at stepped
  · rw [answered] at stepped
    dsimp only at stepped
    split_ifs at stepped ⊢
    · exact (Option.some.inj stepped).symm
    · exact (Option.some.inj stepped).symm
  · cases stepped

theorem request_owned {requested : Nat} (owned : Owned region held s.mem free s.loans)
    (tracked : Tracked s (.request requested)) (stepped : step s (.request requested) = some s') :
    ∃ free', Owned region held s'.mem free' s'.loans := by
  have procFits := s.mem.getU32_lt dProc
  obtain ⟨fits, live⟩ : requested < 4294967296 ∧ s.mem.getU32 dProc ≠ 0 := by
    by_contra disabled
    rw [step, if_neg disabled] at stepped
    cases stepped
  have ensure := owned.ensure_eq
  by_cases whole : requested = 0xFFFFFFFF
  · have answered := procSRqMem_all (m := s.mem) whole
    rw [ensure] at answered
    rcases allocLargest_partition owned.partition with ⟨missing, same⟩ | ⟨found, rounded, free', granted⟩
    · rw [if_pos missing, same] at answered
      rw [step_refused answered stepped]
      exact ⟨free, owned⟩
    · have positive : (allocLargest s.mem).2.1 ≠ 0 := by
        have shaped := granted.shaped ⟨(allocLargest s.mem).1, (allocLargest s.mem).2.1⟩ (by simp)
        exact Nat.ne_of_gt shaped.2.2
      have frame := fun x => @Partition.allocLargest_frame s.mem free _ region.toRegion x owned.partition
      rw [if_neg found, dProc_frame owned.partition frame] at answered
      rw [step_granted answered stepped, if_neg positive]
      have room := tracked (by simpa [servable, whole] using found)
      exact ⟨free', owned.lend ⟨_, _, _, requested⟩ granted frame live procFits room (Or.inl whole)⟩
  · have answered := procSRqMem_eq (m := s.mem) whole
    rw [ensure] at answered
    by_cases empty : roundUp16 requested = 0
    · have same := allocMem_zero owned.partition empty
      have untracked : ∀ owner addr, procMemTrackAdd s.mem owner addr 0 = s.mem :=
        fun owner addr => if_pos (Or.inr (Or.inr rfl))
      by_cases missing : (allocMem s.mem requested).1 = 0
      · rw [if_pos missing, same] at answered
        rw [step_refused answered stepped]
        exact ⟨free, owned⟩
      · rw [if_neg missing, empty, same, untracked] at answered
        rw [step_granted answered stepped, if_pos rfl]
        exact ⟨free, owned⟩
    · obtain ⟨positive, small⟩ := bounds_of_rounded empty fits whole
      rcases allocMem_partition owned.partition positive small with ⟨missing, same⟩ | ⟨found, free', granted⟩
      · rw [if_pos missing, same] at answered
        rw [step_refused answered stepped]
        exact ⟨free, owned⟩
      · have frame := fun x => @Partition.allocMem_frame s.mem free _ region.toRegion requested x owned.partition
        rw [if_neg found, dProc_frame owned.partition frame] at answered
        rw [step_granted answered stepped, if_neg empty]
        have room := tracked (by simpa [servable, whole, empty] using found)
        exact ⟨free', owned.lend ⟨_, _, _, requested⟩ granted frame live procFits room (Or.inr rfl)⟩

theorem giveBack_owned {loan : Loan} {size : Nat} (owned : Owned region held s.mem free s.loans)
    (tracked : Tracked s (.giveBack loan size)) (stepped : step s (.giveBack loan size) = some s') :
    ∃ free', Owned region held s'.mem free' s'.loans := by
  simp only [step] at stepped
  split at stepped
  · next enabled =>
    obtain ⟨member, -, sizeIs⟩ := enabled
    cases stepped
    obtain ⟨-, bound, multiple, -⟩ := owned.inside member
    have rounded : roundUp16 size = loan.size := by
      rcases sizeIs with granted | asked
      · rw [granted]
        have above := (owned.inside member).1
        exact roundUp16_of_aligned multiple (by omega)
      · rcases owned.sizes loan member with all | fits
        · exact absurd (asked.trans all) tracked
        · rw [asked]
          exact fits
    exact ⟨_, owned.giveBack member rounded⟩
  · cases stepped

theorem write_owned {addr : Nat} {value : UInt8} (owned : Owned region held s.mem free s.loans)
    (stepped : step s (.write addr value) = some s') : ∃ free', Owned region held s'.mem free' s'.loans := by
  obtain ⟨tailBelow, magicBelow⟩ := cells_below
  have cellsLow : arenaTail + 4 ≤ 0x18000 := by decide
  simp only [step] at stepped
  split at stepped
  · next inside =>
    cases stepped
    obtain ⟨loan, member, holds⟩ := List.any_eq_true.mp inside
    have covered : loan.block.Covers addr := by
      simpa [Loan.holds, Loan.block, Block.Covers] using holds
    have above := (owned.inside member).1
    have start : loan.addr ≤ addr := covered.1
    refine ⟨free, owned.congr (fun x low high => Mem.setU8_of_ne _ _ (by omega))
      (fun x low high => Mem.setU8_of_ne _ _ (by omega)) (fun b inFree x here => Mem.setU8_of_ne _ _ ?_)⟩
    rintro rfl
    have apart := (List.pairwise_append.mp owned.partition.tiles.apart).2.2 b inFree loan.block
      (List.mem_append_left _ (List.mem_map_of_mem member))
    unfold Block.Apart at apart
    unfold Block.Covers at here covered
    omega
  · cases stepped

theorem Owned.switch {m : Mem} {loans : List Loan} (proc : Nat) (owned : Owned region held m free loans) :
    Owned region held (m.setU32 dProc proc) free loans := by
  refine owned.congr (fun x low high => Mem.setU32_outside _ _ ?_)
    (fun x low high => Mem.setU32_outside _ _ ?_) (fun b inFree x here => Mem.setU32_outside _ _ ?_)
  · unfold memOwnerBase dProc at *
    omega
  · unfold arenaHead dProc at *
    omega
  · have above := block_above owned.partition (List.mem_append_left _ inFree)
    have start := here.1
    unfold dProc
    omega

/-- One step under `Tracked` keeps the table in step with the arena. -/
theorem step_owned {event : Event} (owned : Owned region held s.mem free s.loans) (tracked : Tracked s event)
    (stepped : step s event = some s') : ∃ free', Owned region held s'.mem free' s'.loans := by
  cases event with
  | switch proc =>
    simp only [step] at stepped
    split at stepped
    · cases stepped
      exact ⟨free, owned.switch proc⟩
    · cases stepped
  | request requested => exact request_owned owned tracked stepped
  | giveBack loan size => exact giveBack_owned owned tracked stepped
  | write addr value => exact write_owned owned stepped
  | finish proc =>
    simp only [step] at stepped
    split at stepped
    · next enabled =>
      cases stepped
      obtain ⟨blocks, -, after, -⟩ := owned.releaseAll (Nat.ne_of_gt enabled.1)
      exact ⟨blocks ++ free, after⟩
    · cases stepped

end Steps

end Q9OS.SysMem

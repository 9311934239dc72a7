import Mathlib.Tactic
import Q9OS.Memory.Release

/-!
# What a request gets

F$SRqMem and the arena round a request up on their own, in words of 32 bits. A
request within fifteen bytes of 2^32 rounds up to 0.
-/

namespace Q9OS.SysMem

open Arena

variable {region : KernelRegion} {m : Mem} {free used : List Block}

/-! ### The owner table is no part of the arena -/

theorem partition_clearSlots (slots : List Nat) (inside : ∀ i ∈ slots, i < memOwnerSlots)
    (partition : Partition region.base region.size m free used) :
    Partition region.base region.size (clearSlots m slots) free used := by
  induction slots generalizing m with
  | nil => exact partition
  | cons i rest ih =>
    have cleared := partition_setSlot partition (inside i List.mem_cons_self) ⟨0, 0, 0⟩
    exact ih (fun j member => inside j (List.mem_cons_of_mem _ member)) cleared

theorem partition_ensure (partition : Partition region.base region.size m free used) :
    Partition region.base region.size (procMemTrackEnsure m) free used := by
  obtain ⟨tailBelow, magicBelow⟩ := cells_below
  unfold procMemTrackEnsure procMemTrackInit
  split
  · have cleared := partition_clearSlots (List.range memOwnerSlots) (fun i member => List.mem_range.mp member) partition
    refine cleared.congr (fun x low high => ?_) (fun b member x covered => ?_)
    · exact Mem.setU32_outside _ _ (by unfold memOwnerMagic; omega)
    · have above := block_above cleared (List.mem_append_left _ member)
      have start := covered.1
      exact Mem.setU32_outside _ _ (by omega)
  · exact partition

theorem partition_trackAdd (partition : Partition region.base region.size m free used) (owner addr size : Nat) :
    Partition region.base region.size (procMemTrackAdd m owner addr size) free used := by
  unfold procMemTrackAdd
  split
  · exact partition
  · rcases addToSlots_spec m ⟨owner, addr, size⟩ (List.range memOwnerSlots) with ⟨same, -⟩ | ⟨i, listed, -, placed⟩
    · rw [same]
      exact partition
    · rw [placed]
      exact partition_setSlot partition (List.mem_range.mp listed) _

/-! ### Requests -/

/-- A request that succeeds gets as much as it asks for, out of free bytes that are free no more. -/
def Fair (m : Mem) (requested : Nat) : Prop :=
  ∀ addr size m', procSRqMem m requested = (.ok (addr, size), m') →
    requested ≤ size ∧ (∀ x, addr ≤ x → x < addr + size → FreeByte m x) ∧
      ∀ x, addr ≤ x → x < addr + size → ¬ FreeByte m' x

theorem roundUp16_ge {requested : Nat} (fits : requested ≤ 4294967280) : requested ≤ roundUp16 requested := by
  unfold roundUp16 allocGranularity
  omega

theorem fair_small (partition : Partition region.base region.size m free used) {requested : Nat}
    (fits : requested ≤ 4294967280) : Fair m requested := by
  intro addr size m' granted
  obtain ⟨m₂, answer, live, rfl, rfl⟩ := procSRqMem_served (by omega) granted
  have ensured := partition_ensure partition
  by_cases none : requested = 0
  · -- an empty block has no bytes to speak of
    rw [none]
    refine ⟨Nat.zero_le _, fun x low high => ?_, fun x low high => ?_⟩
    all_goals
      exfalso
      have empty : roundUp16 0 = 0 := by decide
      omega
  · have found := allocMem_partition ensured (by omega) fits
    rw [answer] at found
    obtain ⟨missing, -⟩ | ⟨-, free', taken⟩ := found
    · exact absurd missing live
    · dsimp only at taken
      have after := partition_trackAdd taken (m₂.getU32 dProc) addr (roundUp16 requested)
      have positive := roundUp16_pos (by omega) fits
      have inside := taken.tiles.inside (b := ⟨addr, roundUp16 requested⟩) (List.mem_append_right _ List.mem_cons_self) positive
      have apart := (List.pairwise_cons.mp (List.pairwise_append.mp taken.tiles.apart).2.1).1
      refine ⟨roundUp16_ge fits, fun x low high => ?_, fun x low high stillFree => ?_⟩
      · refine (freeByte_iff partition x).mpr ⟨by dsimp only at inside; omega, fun b member covered => ?_⟩
        have apart := apart b member
        unfold Block.Apart at apart
        unfold Block.Covers at covered
        dsimp only at apart
        omega
      · exact ((freeByte_iff after x).mp stillFree).2 _ List.mem_cons_self ⟨low, high⟩

/-- Without a free block no request succeeds. -/
theorem fair_empty (partition : Partition region.base region.size m free used) {requested : Nat}
    (notAll : requested ≠ 0xFFFFFFFF) (empty : free = []) : Fair m requested := by
  intro addr size m' granted
  rw [procSRqMem_eq notAll] at granted
  have ensured := partition_ensure partition
  rcases ensured.firstFit (roundUp16 requested) with ⟨missing, -⟩ | ⟨front, b, back, split, -⟩
  · have missing : (allocMem (procMemTrackEnsure m) requested).1 = 0 := congrArg Prod.fst missing
    rw [if_pos missing] at granted
    cases granted
  · rw [empty] at split
    exact absurd split (by simp)

/-- A request that rounds up to 0 gets the first free block, with size 0. -/
theorem unfair_large (partition : Partition region.base region.size m free used) {requested : Nat}
    (large : 4294967280 < requested) (fits : requested < 0xFFFFFFFF) (nonempty : free ≠ []) : ¬ Fair m requested := by
  intro fair
  have zero : roundUp16 requested = 0 := by
    unfold roundUp16 allocGranularity
    omega
  have ensured := partition_ensure partition
  have live : (allocMem (procMemTrackEnsure m) requested).1 ≠ 0 := by
    unfold allocMem
    rw [zero]
    rcases ensured.firstFit 0 with ⟨-, short⟩ | ⟨front, b, back, split, -, taken⟩
    · obtain ⟨b, rest, rfl⟩ := List.exists_cons_of_ne_nil nonempty
      exact absurd (short b List.mem_cons_self) (Nat.not_lt_zero _)
    · rw [taken]
      exact ensured.list.1.ne_null (by rw [split]; simp)
  have granted : procSRqMem m requested = _ := procSRqMem_eq (by omega)
  rw [if_neg live] at granted
  have enough := (fair _ _ _ granted).1
  omega

/-- A request other than for the largest block is served in full or not at all, if and only if it is at most
2^32 - 16 or the arena has no free block. -/
theorem request_fair_iff (partition : Partition region.base region.size m free used) (requested : Nat)
    (fits : requested < 4294967296) (notAll : requested ≠ 0xFFFFFFFF) :
    Fair m requested ↔ requested ≤ 4294967280 ∨ m.getU32 arenaHead = 0 := by
  rw [partition.list.head_eq_zero]
  constructor
  · intro fair
    by_contra other
    obtain ⟨large, nonempty⟩ := not_or.mp other
    exact unfair_large partition (by omega) (by omega) nonempty fair
  · rintro (small | empty)
    · exact fair_small partition small
    · exact fair_empty partition notAll empty

/-- After boot a request for 100 bytes gets the first 112 of the arena. -/
theorem request_fair_hundred :
    ∃ m', procSRqMem (boot sampleRegion (fun _ => 0)).mem 100 = (.ok (0x20000, 112), m') ∧
      ∀ x, 0x20000 ≤ x → x < 0x20000 + 112 → FreeByte (boot sampleRegion (fun _ => 0)).mem x ∧ ¬ FreeByte m' x := by
  have fair : Fair (boot sampleRegion (fun _ => 0)).mem 100 :=
    (request_fair_iff (boot_owned sampleRegion (fun _ => 0)).partition 100 (by decide) (by decide)).mpr (Or.inl (by decide))
  have answer : (procSRqMem (boot sampleRegion (fun _ => 0)).mem 100).1 = .ok (0x20000, 112) := by decide
  cases granted : procSRqMem (boot sampleRegion (fun _ => 0)).mem 100 with
  | mk result m' =>
    rw [granted] at answer
    subst answer
    obtain ⟨-, before, after⟩ := fair _ _ _ granted
    exact ⟨m', rfl, fun x low high => ⟨before x low high, after x low high⟩⟩

/-- After boot a request for 2^32 - 15 bytes gets a block of no bytes. -/
theorem request_unfair : ¬ Fair (boot sampleRegion (fun _ => 0)).mem 4294967281 :=
  unfair_large (boot_owned sampleRegion (fun _ => 0)).partition (by decide) (by decide) (by simp)

end Q9OS.SysMem

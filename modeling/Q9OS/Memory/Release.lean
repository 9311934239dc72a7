import Mathlib.Tactic
import Q9OS.Lib.Run
import Q9OS.Memory.Ownership

/-!
# Process end returns what a process holds

Over every run in which each grant finds a free table slot, process end puts
exactly the blocks of the process back. A thirty-third block is never returned.
-/

namespace Q9OS.SysMem

open Arena

/-- The state boot leaves: a cleared owner table and one free block. -/
def boot (region : KernelRegion) (m : Mem) : State :=
  ⟨arenaInit (procMemTrackInit m) region.base region.size, []⟩

/-- A byte of some block on the free list. -/
def FreeByte (m : Mem) (x : Nat) : Prop :=
  ∃ free, IsFreeList m (m.getU32 arenaHead) free ∧ ∃ b ∈ free, b.Covers x

/-! ### Boot -/

theorem clearSlots_slot (m : Mem) (slots : List Nat) {i : Nat}
    (cleared : i ∈ slots ∨ slot m i = ⟨0, 0, 0⟩) : slot (clearSlots m slots) i = ⟨0, 0, 0⟩ := by
  induction slots generalizing m with
  | nil => exact cleared.resolve_left List.not_mem_nil
  | cons j rest ih =>
    rw [clearSlots]
    refine ih _ ?_
    by_cases here : i = j
    · rw [here]
      exact Or.inr (slot_setSlot_self _ _ (by decide) (by decide) (by decide))
    · rcases cleared with listed | empty
      · exact Or.inl ((List.mem_cons.mp listed).resolve_left here)
      · refine Or.inr ?_
        rw [slot_setSlot_ne _ _ here]
        exact empty

theorem procMemTrackInit_slot (m : Mem) {i : Nat} (inside : i < memOwnerSlots) :
    slot (procMemTrackInit m) i = ⟨0, 0, 0⟩ := by
  obtain ⟨start, stop⟩ := slot_bounds inside
  have kept : slot (procMemTrackInit m) i = slot (clearSlots m (List.range memOwnerSlots)) i :=
    slot_congr (fun x low high => Mem.setU32_outside _ _ (by omega))
  rw [kept]
  exact clearSlots_slot _ _ (Or.inl (List.mem_range.mpr inside))

theorem arenaInit_outside (m : Mem) {base size x : Nat} (apart : x < base)
    (cells : x < arenaHead ∨ arenaTail + 4 ≤ x) : arenaInit m base size x = m x := by
  unfold arenaHead arenaTail at cells
  unfold arenaInit
  split
  · rfl
  · simp only
    rw [Mem.setU32_outside _ _ (by unfold arenaTail; omega), Mem.setU32_outside _ _ (by unfold arenaHead; omega),
      Mem.setU32_outside _ _ (by omega), Mem.setU32_outside _ _ (by omega)]

theorem boot_owned (region : KernelRegion) (m : Mem) :
    Owned region [] (boot region m).mem [⟨region.base, region.size⟩] (boot region m).loans := by
  have above := region.above
  obtain ⟨tailBelow, magicBelow⟩ := cells_below
  have untouched : ∀ x, memOwnerBase ≤ x → x < memOwnerMagic + 4 →
      (boot region m).mem x = procMemTrackInit m x :=
    fun x low high => arenaInit_outside _ (by omega) (by omega)
  have slots : ∀ i < memOwnerSlots, slot (boot region m).mem i = ⟨0, 0, 0⟩ := by
    intro i inside
    obtain ⟨start, stop⟩ := slot_bounds inside
    rw [slot_congr (fun x low high => untouched x (by omega) (by omega))]
    exact procMemTrackInit_slot m inside
  refine ⟨?_, arenaInit_partition region.toRegion _, ?_, fun i inside _ => slots i inside,
    fun _ member => absurd member List.not_mem_nil, fun _ member => absurd member List.not_mem_nil⟩
  · rw [Mem.getU32_congr (fun x low high => untouched x (by unfold memOwnerMagic at low; omega) high)]
    exact Mem.getU32_setU32_of_lt _ _ (by decide)
  · have none : entries (boot region m).mem = [] := by
      refine List.eq_nil_iff_forall_not_mem.mpr (fun entry listed => ?_)
      obtain ⟨used, i, inside, is⟩ := mem_tableEntries.mp listed
      rw [slots i inside] at is
      rw [← is] at used
      exact absurd used (by decide)
    rw [none]
    exact List.Perm.refl _

/-! ### Free bytes -/

/-- The free bytes are those of the region that no used block covers. -/
theorem freeByte_iff {base size : Nat} {m : Mem} {free used : List Block} (partition : Partition base size m free used)
    (x : Nat) : FreeByte m x ↔ (base ≤ x ∧ x < base + size) ∧ ∀ b ∈ used, ¬ b.Covers x := by
  have across := (List.pairwise_append.mp partition.tiles.apart).2.2
  constructor
  · rintro ⟨list, is, b, member, covered⟩
    have same : free.map Block.addr = list.map Block.addr := partition.list.1.unique is.1
    have sizes : ∀ c ∈ list, m.getU32 (c.addr + 4) = c.size := is.2
    obtain ⟨c, inFree, addrIs⟩ := List.mem_map.mp (same ▸ List.mem_map_of_mem (f := Block.addr) member)
    have whole : c = b := by
      have sizeIs := (partition.list.2 c inFree).symm.trans (addrIs ▸ sizes b member)
      obtain ⟨addr, size⟩ := c
      obtain ⟨addr', size'⟩ := b
      simp only at addrIs sizeIs
      rw [addrIs, sizeIs]
    rw [← whole] at covered
    refine ⟨(partition.tiles.cover x).mpr ⟨c, List.mem_append_left _ inFree, covered⟩, fun d inUsed there => ?_⟩
    have apart := across c inFree d inUsed
    unfold Block.Apart at apart
    unfold Block.Covers at covered there
    omega
  · rintro ⟨inside, notUsed⟩
    obtain ⟨b, member, covered⟩ := (partition.tiles.cover x).mp inside
    rcases List.mem_append.mp member with inFree | inUsed
    · exact ⟨free, partition.list, b, inFree, covered⟩
    · exact absurd covered (notUsed b inUsed)

theorem Owned.freeByte_iff {region : KernelRegion} {held : List Block} {m : Mem} {free : List Block}
    {loans : List Loan} (owned : Owned region held m free loans) (x : Nat) :
    FreeByte m x ↔ (region.base ≤ x ∧ x < region.base + region.size) ∧
      (∀ loan ∈ loans, ¬ loan.block.Covers x) ∧ ∀ b ∈ held, ¬ b.Covers x := by
  rw [SysMem.freeByte_iff owned.partition]
  simp only [List.mem_append, List.mem_map, or_imp, forall_and, forall_exists_index, and_imp, forall_apply_eq_imp_iff₂]

theorem run_owned (region : KernelRegion) (m : Mem) {events : List Event} {s : State}
    (meets : RunMeets step Tracked (boot region m) events) (ran : run step (boot region m) events = some s) :
    ∃ free, Owned region [] s.mem free s.loans := by
  have keeps : ∀ s event s', (∃ free, Owned region [] s.mem free s.loans) → Tracked s event →
      step s event = some s' → ∃ free, Owned region [] s'.mem free s'.loans := by
    rintro s event s' ⟨free, owned⟩ tracked stepped
    exact step_owned owned tracked stepped
  have start : ∃ free, Owned region [] (boot region m).mem free (boot region m).loans :=
    ⟨_, boot_owned region m⟩
  exact run_invariant keeps start meets ran

/-- In every state such a run reaches, the end of process `p` puts exactly the
blocks `p` holds back on the free list, leaves all other blocks alone, and
makes the free bytes what they were before its first request, given that the
other processes hold what they held then. -/
theorem finish_returns_exactly (region : KernelRegion) (m : Mem) (events : List Event) (s : State) (p : Nat)
    (meets : RunMeets step Tracked (boot region m) events)
    (ran : run step (boot region m) events = some s) (live : 0 < p) (fits : p < 4294967296) :
    ∃ free blocks s', step s (.finish p) = some s' ∧
      Partition region.base region.size s.mem free (s.loans.map Loan.block) ∧
      blocks.Perm ((s.loans.filter (·.owner = p)).map Loan.block) ∧
      Partition region.base region.size s'.mem (blocks ++ free)
        ((s.loans.filter (·.owner ≠ p)).map Loan.block) ∧
      (∀ loan ∈ s.loans, loan.owner ≠ p → ∀ x, loan.block.Covers x → s'.mem x = s.mem x) ∧
      ∀ before after s₀, events = before ++ after → run step (boot region m) before = some s₀ →
        s₀.loans.Perm (s.loans.filter (·.owner ≠ p)) → ∀ x, FreeByte s'.mem x ↔ FreeByte s₀.mem x := by
  obtain ⟨free, owned⟩ := run_owned region m meets ran
  obtain ⟨blocks, theirs, after, frame⟩ := owned.releaseAll (Nat.ne_of_gt live)
  have ends : step s (.finish p) = some ⟨procMemReleaseAll s.mem p, s.loans.filter (·.owner ≠ p)⟩ :=
    if_pos ⟨live, fits⟩
  have used := owned.partition
  have usedAfter := after.partition
  rw [List.append_nil] at used usedAfter
  refine ⟨free, blocks, _, ends, used, theirs, usedAfter, frame, ?_⟩
  intro before later s₀ cut earlier same x
  rw [cut] at meets
  obtain ⟨free₀, owned₀⟩ := run_owned region m meets.front earlier
  rw [after.freeByte_iff, owned₀.freeByte_iff]
  simp only [same.mem_iff]

/-! ### A full table -/

namespace Owned

variable {region : KernelRegion} {held : List Block} {m : Mem} {free : List Block} {loans : List Loan}

theorem room (owned : Owned region held m free loans) (few : loans.length < memOwnerSlots) :
    ∃ i < memOwnerSlots, (slot m i).owner = 0 := by
  by_contra full
  have all : entries m = (List.range memOwnerSlots).map (slot m) := by
    refine List.filter_eq_self.mpr (fun entry listed => ?_)
    obtain ⟨i, inside, rfl⟩ := List.mem_map.mp listed
    exact decide_eq_true (fun none => full ⟨i, List.mem_range.mp inside, none⟩)
  have count := owned.table.length_eq
  rw [all, List.length_map, List.length_map, List.length_range] at count
  omega

theorem full (owned : Owned region held m free loans) (many : loans.length = memOwnerSlots) :
    ∀ i < memOwnerSlots, (slot m i).owner ≠ 0 := by
  have count := owned.table.length_eq
  rw [List.length_map, many] at count
  have same : (entries m).length = ((List.range memOwnerSlots).map (slot m)).length := by
    rw [count, List.length_map, List.length_range]
  intro i inside
  have live := List.length_filter_eq_length_iff.mp same (slot m i)
    (List.mem_map_of_mem (List.mem_range.mpr inside))
  exact of_decide_eq_true live

end Owned

/-- A request for 16 bytes from an arena with one free block. -/
theorem request_sixteen {region : KernelRegion} {held : List Block} {s : State} {a n : Nat}
    (owned : Owned region held s.mem [⟨a, n⟩] s.loans) (proc : s.mem.getU32 dProc = 1) (large : 32 ≤ n) :
    ∃ s', step s (.request 16) = some s' ∧ s'.loans = ⟨1, a, 16, 16⟩ :: s.loans ∧
      s'.mem.getU32 dProc = 1 ∧
      (s.loans.length < memOwnerSlots → Owned region held s'.mem [⟨a + 16, n - 16⟩] s'.loans) ∧
      (s.loans.length = memOwnerSlots → Owned region (⟨a, 16⟩ :: held) s'.mem [⟨a + 16, n - 16⟩] s.loans) := by
  have rounded : roundUp16 16 = 16 := by decide
  obtain ⟨tailBelow, magicBelow⟩ := cells_below
  have taken : allocMem s.mem 16 = (a, takeBlock s.mem 16 0 a) := by
    unfold allocMem
    rw [rounded]
    rcases owned.partition.firstFit 16 with ⟨-, small⟩ | ⟨front, b, back, is, -, taken⟩
    · have := small ⟨a, n⟩ (List.mem_singleton_self _)
      simp only at this
      omega
    · cases front with
      | nil =>
        cases is
        exact taken
      | cons c front => simp at is
  have granted : Partition region.base region.size (takeBlock s.mem 16 0 a) [⟨a + 16, n - 16⟩]
      (⟨a, 16⟩ :: (s.loans.map Loan.block ++ held)) :=
    (show Partition _ _ _ ([] ++ (⟨a, n⟩ : Block) :: []) _ from owned.partition).takeBlock_split
      (by decide) (by decide) (show 16 ≤ n - 16 by omega)
  have frame := fun x => @Partition.allocMem_frame s.mem _ _ region.toRegion 16 x owned.partition
  rw [taken] at frame
  have procKept := dProc_frame owned.partition frame
  have live : a ≠ 0 := by
    have above : 0x18000 ≤ a := block_above granted (show (⟨a, 16⟩ : Block) ∈ _ by simp)
    omega
  have answered : procSRqMem s.mem 16 = (.ok (a, 16), procMemTrackAdd (takeBlock s.mem 16 0 a) 1 a 16) := by
    have served := @procSRqMem_eq s.mem 16 (by decide)
    rw [owned.ensure_eq, taken, rounded] at served
    dsimp only at served procKept
    rw [if_neg live, procKept, proc] at served
    exact served
  have stepped : step s (.request 16) =
      some ⟨procMemTrackAdd (takeBlock s.mem 16 0 a) 1 a 16, ⟨1, a, 16, 16⟩ :: s.loans⟩ := by
    rw [step, answered, proc]
    rfl
  refine ⟨_, stepped, rfl, ?_, ?_, ?_⟩
  · rw [Mem.getU32_congr (fun x low high => procMemTrackAdd_outside _ _ _ _
      (by unfold dProc memOwnerBase at *; omega)), procKept, proc]
  · intro few
    exact owned.lend ⟨1, a, 16, 16⟩ granted frame Nat.one_ne_zero (show 1 < 4294967296 by decide)
      (owned.room few) (Or.inr rounded)
  · intro many
    have leaked := owned.leak granted frame
    rw [procMemTrackAdd_full _ _ _ _ (leaked.full many)]
    exact leaked

/-- As long as slots last, every such request is granted and listed. -/
theorem requests_sixteen {region : KernelRegion} (k : Nat) {s : State} {a n : Nat}
    (owned : Owned region [] s.mem [⟨a, n⟩] s.loans) (proc : s.mem.getU32 dProc = 1)
    (mine : ∀ loan ∈ s.loans, loan.owner = 1) (slots : s.loans.length + k ≤ memOwnerSlots)
    (large : 16 * k + 16 ≤ n) :
    ∃ s', run step s (List.replicate k (.request 16)) = some s' ∧
      Owned region [] s'.mem [⟨a + 16 * k, n - 16 * k⟩] s'.loans ∧ s'.mem.getU32 dProc = 1 ∧
      (∀ loan ∈ s'.loans, loan.owner = 1) ∧ s'.loans.length = s.loans.length + k := by
  induction k generalizing s a n with
  | zero => exact ⟨s, rfl, owned, proc, mine, rfl⟩
  | succ k ih =>
    obtain ⟨mid, stepped, loans, midProc, listed, -⟩ := request_sixteen owned proc (by omega)
    have midOwned := listed (by omega)
    have midMine : ∀ loan ∈ mid.loans, loan.owner = 1 := by
      intro loan member
      rw [loans] at member
      rcases List.mem_cons.mp member with rfl | old
      · rfl
      · exact mine loan old
    have midCount : mid.loans.length = s.loans.length + 1 := by rw [loans, List.length_cons]
    obtain ⟨s', ran, owned', proc', mine', count⟩ := ih midOwned midProc midMine (by omega) (by omega)
    refine ⟨s', ?_, ?_, proc', mine', by omega⟩
    · rw [List.replicate_succ, run, stepped]
      exact ran
    · rw [show a + 16 * (k + 1) = a + 16 + 16 * k by omega, show n - 16 * (k + 1) = n - 16 - 16 * k by omega]
      exact owned'

def sampleRegion : KernelRegion :=
  { base := 0x20000, size := 0x1000, base_aligned := by decide, size_aligned := by decide,
    size_pos := by decide, no_wrap := by decide, not_null := by decide, clear := by decide,
    above := by decide }

/-- One process, one block of 16 bytes, returned at process end. -/
theorem finish_returns_one :
    ∃ s free blocks s', run step (boot sampleRegion (fun _ => 0)) [.switch 1, .request 16] = some s ∧
      s.loans = [⟨1, 0x20000, 16, 16⟩] ∧ step s (.finish 1) = some s' ∧
      blocks.Perm ((s.loans.filter (·.owner = 1)).map Loan.block) ∧
      Partition sampleRegion.base sampleRegion.size s'.mem (blocks ++ free)
        ((s.loans.filter (·.owner ≠ 1)).map Loan.block) := by
  have switched := (boot_owned sampleRegion (fun _ => 0)).switch 1
  have proc : ((boot sampleRegion (fun _ => 0)).mem.setU32 dProc 1).getU32 dProc = 1 :=
    Mem.getU32_setU32_of_lt _ _ (by decide)
  obtain ⟨s, stepped, loans, -, -, -⟩ := @request_sixteen sampleRegion []
    ⟨(boot sampleRegion (fun _ => 0)).mem.setU32 dProc 1, []⟩ 0x20000 0x1000 switched proc (by decide)
  have first : step (boot sampleRegion (fun _ => 0)) (.switch 1) =
      some ⟨(boot sampleRegion (fun _ => 0)).mem.setU32 dProc 1, []⟩ := rfl
  have ran : run step (boot sampleRegion (fun _ => 0)) [.switch 1, .request 16] = some s := by
    rw [run, first, Option.bind_some, run, stepped]
    rfl
  have meets : RunMeets step Tracked (boot sampleRegion (fun _ => 0)) [.switch 1, .request 16] := by
    refine ⟨trivial, fun s' stepped => ⟨fun _ => ?_, fun _ _ => trivial⟩⟩
    rw [first] at stepped
    rw [← Option.some.inj stepped]
    exact switched.room (by decide)
  obtain ⟨free, blocks, s', ends, -, theirs, after, -⟩ :=
    finish_returns_exactly sampleRegion (fun _ => 0) [.switch 1, .request 16] s 1 meets ran (by decide) (by decide)
  exact ⟨s, free, blocks, s', ran, loans, ends, theirs, after⟩

/-- Thirty-three blocks, then the end of their only owner: the last block is lost. -/
theorem finish_loses_block :
    ∃ s, run step (boot sampleRegion (fun _ => 0))
        (.switch 1 :: (List.replicate 33 (.request 16) ++ [.finish 1])) = some s ∧
      s.loans = [] ∧ FreeByte (boot sampleRegion (fun _ => 0)).mem 0x20200 ∧ ¬ FreeByte s.mem 0x20200 := by
  have start := boot_owned sampleRegion (fun _ => 0)
  have switched : step (boot sampleRegion (fun _ => 0)) (.switch 1) =
      some ⟨(boot sampleRegion (fun _ => 0)).mem.setU32 dProc 1, []⟩ := rfl
  obtain ⟨s₂, ran, owned₂, proc₂, mine, count⟩ := @requests_sixteen sampleRegion 32
    ⟨(boot sampleRegion (fun _ => 0)).mem.setU32 dProc 1, []⟩ 0x20000 0x1000 (start.switch 1)
    (Mem.getU32_setU32_of_lt _ _ (by decide)) (fun _ member => absurd member List.not_mem_nil)
    (by decide) (by decide)
  obtain ⟨s₃, stepped, loans₃, -, -, lost⟩ := request_sixteen owned₂ proc₂ (by decide)
  have leaked := lost count
  have ended : step s₃ (.finish 1) = some ⟨procMemReleaseAll s₃.mem 1, s₃.loans.filter (·.owner ≠ 1)⟩ := rfl
  obtain ⟨blocks, -, after, -⟩ := leaked.releaseAll Nat.one_ne_zero
  refine ⟨⟨procMemReleaseAll s₃.mem 1, s₃.loans.filter (·.owner ≠ 1)⟩, ?_, ?_, ?_, ?_⟩
  · rw [run, switched, Option.bind_some, run_append, show 33 = 32 + 1 from rfl, List.replicate_succ', run_append,
      ran, Option.bind_some, run, stepped]
    exact congrArg (Option.bind · _) ended
  · refine List.filter_eq_nil_iff.mpr (fun loan member => ?_)
    rw [loans₃] at member
    rcases List.mem_cons.mp member with rfl | old
    · decide
    · simp [mine loan old]
  · rw [start.freeByte_iff]
    exact ⟨by decide, fun _ member => absurd member List.not_mem_nil, fun _ member => absurd member List.not_mem_nil⟩
  · rw [after.freeByte_iff]
    rintro ⟨-, -, notHeld⟩
    exact notHeld ⟨0x20000 + 16 * 32, 16⟩ (List.mem_cons_self ..) (by decide)

end Q9OS.SysMem

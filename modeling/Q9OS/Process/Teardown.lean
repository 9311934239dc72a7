import Q9OS.Memory.Ownership
import Q9OS.Module.Links
import Q9OS.Process.Layout
import Q9OS.Process.Calls
import Q9OS.Process.Overlap

/-!
# What a program leaves behind

F$Chain takes the trap handlers, the alarms, the module and the memory of the old
program down once the new one stands. Each of them by itself, and what each of
them leaves alone.
-/

namespace Q9OS

namespace SysMem

/-! ### Blocks that go back -/

namespace Owned

variable {region : KernelRegion} {held : List Block} {m : Mem} {free : List Block} {loans : List Loan}

/-- A block no entry names is freed. -/
theorem drop {b : Block} {size : Nat} (owned : Owned region (b :: held) m free loans)
    (rounded : Arena.roundUp16 size = b.size) :
    Owned region held (Arena.freeMem m b.addr size) (b :: free) loans := by
  obtain ⟨tailBelow, magicBelow⟩ := cells_below
  have above := block_above owned.partition (b := b) (by simp)
  have freed := (owned.partition.permUsed List.perm_middle).release rounded
  have table : ∀ x, memOwnerBase ≤ x → x < memOwnerMagic + 4 → Arena.freeMem m b.addr size x = m x :=
    fun x low high => Arena.freeMem_frame (by omega) (by omega)
  have slots : ∀ i < memOwnerSlots, slot (Arena.freeMem m b.addr size) i = slot m i := by
    intro i inside
    obtain ⟨start, stop⟩ := slot_bounds inside
    exact slot_congr (fun x low high => table x (by omega) (by omega))
  refine ⟨?_, freed, ?_, ?_, owned.owners, owned.sizes⟩
  · rw [Mem.getU32_congr (fun x low high => table x (by unfold memOwnerMagic at low; omega) high)]
    exact owned.magic
  · have same : entries (Arena.freeMem m b.addr size) = entries m := tableEntries_congr slots
    rw [same]
    exact owned.table
  · intro i inside none
    rw [slots i inside] at none ⊢
    exact owned.vacant i inside none

theorem reorder {held' : List Block} (owned : Owned region held m free loans) (same : held.Perm held') :
    Owned region held' m free loans :=
  { owned with partition := owned.partition.permUsed (same.append_left _) }

/-- What is written into a block that is held changes nothing else. -/
theorem within {m' : Mem} {b : Block} (owned : Owned region (b :: held) m free loans)
    (outside : ∀ x, ¬ b.Covers x → m' x = m x) : Owned region (b :: held) m' free loans := by
  obtain ⟨tailBelow, magicBelow⟩ := cells_below
  have cellsBelow : Arena.arenaTail + 4 ≤ 0x18000 := by decide
  have above := block_above owned.partition (b := b) (by simp)
  have low : ∀ x, x < 0x18000 → m' x = m x := by
    intro x below
    refine outside x (fun covered => ?_)
    have start := covered.1
    omega
  refine owned.congr (fun x _ high => low x (by omega)) (fun x _ high => low x (by omega)) ?_
  intro c inFree x covered
  refine outside x (fun here => ?_)
  have apart := (List.pairwise_append.mp owned.partition.tiles.apart).2.2 c inFree b (by simp)
  unfold Block.Apart at apart
  unfold Block.Covers at here covered
  omega

end Owned

/-- F$SRtMem by `proc` for each address and size. -/
def returned (proc : Nat) (m : Mem) (blocks : List (Nat × Nat)) : Mem :=
  blocks.foldl (fun m block => procSRtMem (m.setU32 dProc proc) block.1 block.2) m

theorem Owned.returned {region : KernelRegion} {held : List Block} {m : Mem} {free : List Block} {loans kept : List Loan}
    (proc : Nat) (owned : Owned region held m free (loans ++ kept)) :
    ∃ free', Owned region held (returned proc m (loans.map fun loan => (loan.addr, loan.size))) free' kept := by
  induction loans generalizing m free with
  | nil => exact ⟨free, owned⟩
  | cons loan loans ih =>
    have member : loan ∈ (loan :: loans) ++ kept := by simp
    obtain ⟨-, bound, multiple, -⟩ := owned.inside member
    have above := (owned.inside member).1
    have whole : Arena.roundUp16 loan.size = loan.size := Arena.roundUp16_of_aligned multiple (by omega)
    have back := (owned.switch proc).giveBack member whole
    rw [List.cons_append, List.erase_cons_head] at back
    exact ih back

end SysMem

namespace Kernel

open Heap

variable {k : Kernel}

/-! ### Trap handlers -/

def trapMod (k : Kernel) (n : Nat) : Nat := k.desc.get32 k.proc (Desc.trapSlot n + Desc.trapModPtr)

/-- Address and size of the static memory of a trap handler. -/
def trapStatic (k : Kernel) (n : Nat) : Nat × Nat :=
  (k.desc.get32 k.proc (Desc.trapSlot n + Desc.trapStaticPtr), k.desc.get32 k.proc (Desc.trapSizeSlot n))

/-- The modules linked under trap numbers. -/
def trapHdrs (k : Kernel) (traps : List Nat) : List Nat := (traps.map k.trapMod).filter (· ≠ 0)

/-- The blocks that belong to trap handlers. -/
def trapBlocks (k : Kernel) (traps : List Nat) : List (Nat × Nat) :=
  (traps.map k.trapStatic).filter (fun block => block.1 ≠ 0 ∧ block.2 ≠ 0)

def clearTraps (h : Heap) (d : Nat) (traps : List Nat) : Heap := traps.foldl (fun h n => setTrapEntry h d n 0 0 0 0) h

theorem unlinked_eq (k : Kernel) (hdr : Nat) : (if hdr ≠ 0 then k.modUnlink hdr else k) =
    { k with mods := ([hdr].filter (· ≠ 0)).foldl ModDir.unlinkByHeader k.mods } := by
  by_cases linked : hdr ≠ 0
  · have some : [hdr].filter (· ≠ 0) = [hdr] := by simp [linked]
    rw [if_pos linked, some]
    rfl
  · have none : [hdr].filter (· ≠ 0) = [] := by simpa using linked
    rw [if_neg linked, none]
    rfl

theorem returned_eq (k : Kernel) (block : Nat × Nat) :
    (if block.1 ≠ 0 ∧ block.2 ≠ 0 then k.procSRtMem block.1 block.2 else k) =
      { k with ram := SysMem.returned k.proc k.ram ([block].filter (fun block => block.1 ≠ 0 ∧ block.2 ≠ 0)) } := by
  by_cases lent : block.1 ≠ 0 ∧ block.2 ≠ 0
  · have some : [block].filter (fun block => block.1 ≠ 0 ∧ block.2 ≠ 0) = [block] := by simp [lent]
    rw [if_pos lent, some]
    rfl
  · have none : [block].filter (fun block => block.1 ≠ 0 ∧ block.2 ≠ 0) = [] := by simpa using lent
    rw [if_neg lent, none]
    rfl

theorem tlinkRemove_eq (k : Kernel) (n : Nat) : k.tlinkRemove n =
    { k with
      mods := (k.trapHdrs [n]).foldl ModDir.unlinkByHeader k.mods
      ram := SysMem.returned k.proc k.ram (k.trapBlocks [n])
      desc := setTrapEntry k.desc k.proc n 0 0 0 0 } := by
  unfold tlinkRemove
  extract_lets slot oldMod oldStatic oldSize unlinked lent
  have first : unlinked = { k with mods := (k.trapHdrs [n]).foldl ModDir.unlinkByHeader k.mods } := unlinked_eq k oldMod
  have second : lent = { unlinked with ram := SysMem.returned unlinked.proc unlinked.ram (k.trapBlocks [n]) } :=
    returned_eq unlinked (oldStatic, oldSize)
  rw [second, first]

theorem setTrapEntry_other (h : Heap) (d modPtr execEntry staticPtr size : Nat) {m n o : Nat} (other : m ≠ n) (first : 1 ≤ m)
    (last : m ≤ 15) (low : 1 ≤ n) (high : n ≤ 15)
    (inside : (Desc.trapSlot m ≤ o ∧ o < Desc.trapSlot m + 12) ∨ (Desc.trapSizeSlot m ≤ o ∧ o < Desc.trapSizeSlot m + 4)) :
    setTrapEntry h d n modPtr execEntry staticPtr size d o = h d o := by
  refine Fields.setTrapEntry_outside _ _ _ _ _ _ _ _ ?_ ?_
  all_goals
    simp only [Desc.trapSlot, Desc.trapSizeSlot, Desc.trapTbl, Desc.trapSize] at *
    omega

/-- Taking one handler down leaves what the others hold. -/
theorem tlinkRemove_other {m n : Nat} (other : m ≠ n) (first : 1 ≤ m) (last : m ≤ 15) (low : 1 ≤ n) (high : n ≤ 15) :
    (k.tlinkRemove n).trapMod m = k.trapMod m ∧ (k.tlinkRemove n).trapStatic m = k.trapStatic m := by
  have same := fun o => @setTrapEntry_other k.desc k.proc 0 0 0 0 m n o other first last low high
  have word : ∀ o, (∀ x, o ≤ x → x < o + 4 →
      (Desc.trapSlot m ≤ x ∧ x < Desc.trapSlot m + 12) ∨ (Desc.trapSizeSlot m ≤ x ∧ x < Desc.trapSizeSlot m + 4)) →
      (setTrapEntry k.desc k.proc n 0 0 0 0).get32 k.proc o = k.desc.get32 k.proc o :=
    fun o inside => Mem.getU32_congr (fun x start stop => same x (inside x start stop))
  rw [tlinkRemove_eq]
  unfold trapMod trapStatic
  dsimp only
  rw [word _ (by unfold Desc.trapModPtr; omega), word _ (by unfold Desc.trapStaticPtr; omega), word _ (by omega)]
  exact ⟨rfl, rfl⟩

theorem trapReleaseFrom_eq {traps : List Nat} (once : traps.Nodup) (range : ∀ n ∈ traps, 1 ≤ n ∧ n ≤ 15) :
    k.trapReleaseFrom traps =
      { k with
        mods := (k.trapHdrs traps).foldl ModDir.unlinkByHeader k.mods
        ram := SysMem.returned k.proc k.ram (k.trapBlocks traps)
        desc := clearTraps k.desc k.proc traps } := by
  induction traps generalizing k with
  | nil => rfl
  | cons n traps ih =>
    obtain ⟨absent, rest⟩ := List.nodup_cons.mp once
    obtain ⟨low, high⟩ := range n List.mem_cons_self
    have others : ∀ m ∈ traps, (k.tlinkRemove n).trapMod m = k.trapMod m ∧
        (k.tlinkRemove n).trapStatic m = k.trapStatic m := by
      intro m later
      obtain ⟨first, last⟩ := range m (List.mem_cons_of_mem _ later)
      exact tlinkRemove_other (fun same => absent (same ▸ later)) first last low high
    have hdrs : (k.tlinkRemove n).trapHdrs traps = k.trapHdrs traps := by
      unfold trapHdrs
      rw [List.map_congr_left (fun m later => (others m later).1)]
    have blocks : (k.tlinkRemove n).trapBlocks traps = k.trapBlocks traps := by
      unfold trapBlocks
      rw [List.map_congr_left (fun m later => (others m later).2)]
    have allHdrs : k.trapHdrs (n :: traps) = k.trapHdrs [n] ++ k.trapHdrs traps := List.filter_append [k.trapMod n] _
    have allBlocks : k.trapBlocks (n :: traps) = k.trapBlocks [n] ++ k.trapBlocks traps :=
      List.filter_append [k.trapStatic n] _
    rw [trapReleaseFrom, ih rest (fun m later => range m (List.mem_cons_of_mem _ later)), hdrs, blocks, tlinkRemove_eq,
      allHdrs, allBlocks, List.foldl_append]
    unfold SysMem.returned clearTraps
    rw [List.foldl_append, List.foldl_cons]

/-- Nothing is linked under the trap number. -/
structure TrapFree (h : Heap) (d n : Nat) : Prop where
  modPtr : h.get32 d (Desc.trapSlot n + Desc.trapModPtr) = 0
  execEntry : h.get32 d (Desc.trapSlot n + Desc.trapExecEntry) = 0
  staticPtr : h.get32 d (Desc.trapSlot n + Desc.trapStaticPtr) = 0
  size : h.get32 d (Desc.trapSizeSlot n) = 0

theorem setTrapEntry_free (h : Heap) (d : Nat) {n : Nat} (low : 1 ≤ n) (high : n ≤ 15) :
    TrapFree (setTrapEntry h d n 0 0 0 0) d n := by
  have apart : Desc.trapSlot n + 12 ≤ Desc.trapSizeSlot n := by
    unfold Desc.trapSlot Desc.trapSizeSlot Desc.trapTbl Desc.trapSize
    omega
  have modPtr : Desc.trapModPtr = 0 := rfl
  have execEntry : Desc.trapExecEntry = 4 := rfl
  have staticPtr : Desc.trapStaticPtr = 8 := rfl
  unfold setTrapEntry
  refine ⟨?_, ?_, ?_, get32_set32_of_lt _ _ _ (by decide)⟩
  · rw [get32_set32_off _ _ _ _ (by omega), get32_set32_off _ _ _ _ (by omega), get32_set32_off _ _ _ _ (by omega),
      get32_set32_of_lt _ _ _ (by decide)]
  · rw [get32_set32_off _ _ _ _ (by omega), get32_set32_off _ _ _ _ (by omega), get32_set32_of_lt _ _ _ (by decide)]
  · rw [get32_set32_off _ _ _ _ (by omega), get32_set32_of_lt _ _ _ (by decide)]

theorem TrapFree.clear {h : Heap} {d m n : Nat} (gone : TrapFree h d m) (first : 1 ≤ m) (last : m ≤ 15) (low : 1 ≤ n)
    (high : n ≤ 15) : TrapFree (setTrapEntry h d n 0 0 0 0) d m := by
  by_cases here : m = n
  · rw [here]
    exact setTrapEntry_free h d low high
  · have same := fun o => @setTrapEntry_other h d 0 0 0 0 m n o here first last low high
    obtain ⟨modPtr, execEntry, staticPtr, size⟩ := gone
    refine ⟨?_, ?_, ?_, ?_⟩
    · exact (Mem.getU32_congr (fun x start stop => same x (.inl (by unfold Desc.trapModPtr at *; omega)))).trans modPtr
    · exact (Mem.getU32_congr (fun x start stop => same x (.inl (by unfold Desc.trapExecEntry at *; omega)))).trans execEntry
    · exact (Mem.getU32_congr (fun x start stop => same x (.inl (by unfold Desc.trapStaticPtr at *; omega)))).trans staticPtr
    · exact (Mem.getU32_congr (fun x start stop => same x (.inr ⟨start, stop⟩))).trans size

theorem clearTraps_free {traps : List Nat} (range : ∀ n ∈ traps, 1 ≤ n ∧ n ≤ 15) (h : Heap) (d : Nat) {m : Nat}
    (first : 1 ≤ m) (last : m ≤ 15) (gone : m ∈ traps ∨ TrapFree h d m) : TrapFree (clearTraps h d traps) d m := by
  induction traps generalizing h with
  | nil => exact gone.resolve_left List.not_mem_nil
  | cons n traps ih =>
    obtain ⟨low, high⟩ := range n List.mem_cons_self
    refine ih (fun i later => range i (List.mem_cons_of_mem _ later)) (setTrapEntry h d n 0 0 0 0) ?_
    rcases gone with listed | before
    · rcases List.mem_cons.mp listed with rfl | later
      · exact .inr (setTrapEntry_free h d low high)
      · exact .inl later
    · exact .inr (before.clear first last low high)

/-- The trap table and the sizes of the handlers' memory. -/
def TrapOff (o : Nat) : Prop :=
  (Desc.trapTbl ≤ o ∧ o < Desc.trapTbl + 180) ∨ (Desc.trapSize ≤ o ∧ o < Desc.trapSize + 60)

theorem clearTraps_agree {traps : List Nat} (range : ∀ n ∈ traps, 1 ≤ n ∧ n ≤ 15) (h : Heap) (d : Nat) :
    Agree (fun o => ¬ TrapOff o) h (clearTraps h d traps) := by
  induction traps generalizing h with
  | nil => exact Agree.rfl
  | cons n traps ih =>
    obtain ⟨low, high⟩ := range n List.mem_cons_self
    refine Agree.trans (fun b o outside => ?_) (ih (fun i later => range i (List.mem_cons_of_mem _ later)) _)
    refine Fields.setTrapEntry_outside h d n 0 0 0 0 b ?_ ?_
    all_goals
      simp only [TrapOff, Desc.trapSlot, Desc.trapSizeSlot, Desc.trapTbl, Desc.trapSize] at *
      omega

theorem clearTraps_beside (traps : List Nat) (h : Heap) (d : Nat) : Beside d h (clearTraps h d traps) := by
  induction traps generalizing h with
  | nil => exact Beside.rfl
  | cons n traps ih =>
    have first : Beside d h (setTrapEntry h d n 0 0 0 0) := (((Beside.rfl.set32 _ _).set32 _ _).set32 _ _).set32 _ _
    exact first.trans (ih _)

end Kernel

/-! ### Alarms -/

namespace AlarmTable

/-- The alarms of every other process. -/
def without (t : AlarmTable) (pid : Nat) (slots : List Nat) : AlarmTable :=
  { t with slots := fun i => if i ∈ slots ∧ (t.slots i).id ≠ 0 ∧ (t.slots i).pid = pid then Alarm.clear else t.slots i }

end AlarmTable

namespace Kernel

variable {k : Kernel}

theorem alarmClearSlots_eq (k : Kernel) (pid : Nat) (slots : List Nat) :
    k.alarmClearSlots pid slots = { k with alarms := k.alarms.without pid slots } := by
  induction slots generalizing k with
  | nil =>
    have same : k.alarms.without pid [] = k.alarms := by simp [AlarmTable.without]
    rw [same]
    rfl
  | cons i slots ih =>
    unfold alarmClearSlots
    dsimp only
    by_cases other : (k.alarms.slots i).id = 0 ∨ (k.alarms.slots i).pid ≠ pid
    · rw [if_pos other, ih]
      have same : k.alarms.without pid (i :: slots) = k.alarms.without pid slots := by
        unfold AlarmTable.without
        refine congrArg (fun s => { k.alarms with slots := s }) (funext fun j => ?_)
        by_cases here : j = i
        · have stays : ¬ ((k.alarms.slots j).id ≠ 0 ∧ (k.alarms.slots j).pid = pid) := by
            rw [here]
            tauto
          rw [if_neg (fun mine => stays mine.2), if_neg (fun mine => stays mine.2)]
        · simp [here]
      rw [same]
    · push Not at other
      rw [if_neg (by tauto), ih]
      have same : (k.setAlarm i Alarm.clear).alarms.without pid slots = k.alarms.without pid (i :: slots) := by
        unfold AlarmTable.without
        refine congrArg (fun s => { k.alarms with slots := s }) (funext fun j => ?_)
        by_cases here : j = i
        · simp [here, other, setAlarm, AlarmTable.set, Alarm.clear]
        · simp [here, setAlarm, AlarmTable.set]
      rw [same]
      rfl

theorem alarmCleanupProcess_eq {desc : Nat} (named : k.procIdForDesc desc ≠ 0) : k.alarmCleanupProcess desc =
    { k with alarms := k.alarms.without (k.procIdForDesc desc) (List.range alarmSlots) } := by
  have live : desc ≠ 0 := by
    rintro rfl
    refine named (if_pos ?_)
    omega
  unfold alarmCleanupProcess
  dsimp only
  rw [if_neg (by tauto), alarmClearSlots_eq]

/-! ### The old program as a whole -/

/-- Memory with the block of the old program freed. -/
def OldImage.freed (old : OldImage) (m : Mem) : Mem :=
  if old.block ≠ 0 ∧ old.size ≠ 0 then Arena.freeMem m old.block old.size else m

/-- The modules a program holds links of: one for each trap handler, and its own. -/
def programHdrs (k : Kernel) (mod : Nat) : List Nat := k.trapHdrs (List.range' 1 15) ++ [mod].filter (· ≠ 0)

theorem chainRelease_eq (named : k.procIdForDesc k.proc ≠ 0) (old : OldImage) : k.chainRelease old =
    { k with
      alarms := k.alarms.without (k.procIdForDesc k.proc) (List.range alarmSlots)
      mods := (k.programHdrs old.mod).foldl ModDir.unlinkByHeader k.mods
      ram := old.freed (SysMem.returned k.proc k.ram (k.trapBlocks (List.range' 1 15)))
      desc := clearTraps k.desc k.proc (List.range' 1 15) } := by
  have range : ∀ n ∈ List.range' 1 15, 1 ≤ n ∧ n ≤ 15 := by decide
  unfold chainRelease
  extract_lets quiet untrapped unlinked
  have first : quiet = { k with alarms := k.alarms.without (k.procIdForDesc k.proc) (List.range alarmSlots) } :=
    alarmCleanupProcess_eq named
  have second : untrapped =
      { quiet with
        mods := (quiet.trapHdrs (List.range' 1 15)).foldl ModDir.unlinkByHeader quiet.mods
        ram := SysMem.returned quiet.proc quiet.ram (quiet.trapBlocks (List.range' 1 15))
        desc := clearTraps quiet.desc quiet.proc (List.range' 1 15) } := trapReleaseFrom_eq (by decide) range
  have third : unlinked =
      { untrapped with mods := ([old.mod].filter (· ≠ 0)).foldl ModDir.unlinkByHeader untrapped.mods } :=
    unlinked_eq untrapped old.mod
  have last : (if old.block ≠ 0 ∧ old.size ≠ 0 then { unlinked with ram := Arena.freeMem unlinked.ram old.block old.size }
      else unlinked) = { unlinked with ram := old.freed unlinked.ram } := by
    unfold OldImage.freed
    split <;> rfl
  have hdrs : quiet.trapHdrs (List.range' 1 15) = k.trapHdrs (List.range' 1 15) := by rw [first]; rfl
  have blocks : quiet.trapBlocks (List.range' 1 15) = k.trapBlocks (List.range' 1 15) := by rw [first]; rfl
  unfold programHdrs
  rw [last, third, second, hdrs, blocks, first, List.foldl_append]

end Kernel

end Q9OS

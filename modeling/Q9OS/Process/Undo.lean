import Mathlib.Tactic
import Q9OS.Memory.Release
import Q9OS.Module.Ledger
import Q9OS.Process.Spawn

/-!
# Forks that fail

Each of the four ways F$Fork fails gives back what it holds by then: the memory
of the child and the link of its module.
-/

namespace Q9OS

/-! ### Writes into the memory of the child -/

theorem zeroFill_outside (m : Mem) {a n x : Nat} (outside : x < a ∨ a + n ≤ x) : zeroFill m a n x = m x :=
  if_neg (by omega)

theorem copyBytes_outside (m : Mem) (source : Nat) {target n x : Nat} (outside : x < target ∨ target + n ≤ x) :
    copyBytes m target source n x = m x := by
  induction n with
  | zero => rfl
  | succ n ih =>
    rw [copyBytes, Mem.setU8_of_ne _ _ (by omega)]
    exact ih (by omega)

section InitialData
variable {block blockSize x : Nat}

theorem applyIData_outside (last : Nat) (outside : x < block ∨ block + blockSize ≤ x) (fuel : Nat) (m : Mem) (p : Nat) :
    (applyIData block blockSize last fuel m p).2 x = m x := by
  induction fuel generalizing m p with
  | zero => rfl
  | succ fuel ih =>
    generalize is : applyIData block blockSize last (fuel + 1) m p = result
    rw [applyIData] at is
    dsimp only at is
    split at is
    · subst is
      rfl
    · split at is
      · subst is
        rfl
      · next valid =>
        push Not at valid
        rw [← is, ih]
        exact copyBytes_outside _ _ (by omega)

theorem applyRun_outside (relocBase ms : Nat) (outside : x < block ∨ block + blockSize ≤ x) (count : Nat) (m : Mem)
    (p : Nat) : (applyRun block blockSize relocBase ms count m p).2.1 x = m x := by
  induction count generalizing m p with
  | zero => rfl
  | succ count ih =>
    generalize is : applyRun block blockSize relocBase ms (count + 1) m p = result
    rw [applyRun] at is
    dsimp only at is
    split at is
    · subst is
      rfl
    · next valid =>
      push Not at valid
      rw [← is, ih]
      exact Mem.setU32_outside _ _ (by omega)

theorem applyTable_outside (relocBase modEnd : Nat) (outside : x < block ∨ block + blockSize ≤ x) (fuel : Nat) (m : Mem)
    (p : Nat) : (applyTable block blockSize relocBase modEnd fuel m p).2.1 x = m x := by
  induction fuel generalizing m p with
  | zero => rfl
  | succ fuel ih =>
    rw [applyTable]
    split
    · rfl
    · dsimp only
      split
      · rfl
      · split
        · rfl
        · have run := applyRun_outside relocBase (m.getU16 p) outside (m.getU16 (p + 2)) m (p + 4)
          split
          · next applied =>
            rw [applied] at run
            exact (ih _ _).trans run
          · next applied =>
            rw [applied] at run
            exact run

theorem applyIRefs_outside (m : Mem) (hdr modSize p : Nat) (outside : x < block ∨ block + blockSize ≤ x) :
    (applyIRefs m hdr block blockSize modSize p).2 x = m x := by
  have first := applyTable_outside hdr (hdr + modSize) outside modSize m p
  unfold applyIRefs
  split
  · next applied =>
    rw [applied] at first
    exact first
  · next m' p' applied =>
    rw [applied] at first
    exact (applyTable_outside block (hdr + modSize) outside modSize m' p').trans first

/-- The first part: the data itself. -/
theorem copied_outside (m : Mem) (hdr : Nat) (outside : x < block ∨ block + blockSize ≤ x) {valid : Bool} {m' : Mem}
    (copied : (if m.getU32 (hdr + Mh.iData) ≠ 0 ∧ m.getU32 (hdr + Mh.iRefs) ≠ 0 then
      applyIData block blockSize (hdr + m.getU32 (hdr + Mh.iRefs)) (m.getU32 (hdr + Mh.size)) m
        (hdr + m.getU32 (hdr + Mh.iData)) else (true, m)) = (valid, m')) : m' x = m x := by
  split at copied
  · have same := applyIData_outside (hdr + m.getU32 (hdr + Mh.iRefs)) outside (m.getU32 (hdr + Mh.size)) m
      (hdr + m.getU32 (hdr + Mh.iData))
    rw [copied] at same
    exact same
  · cases copied
    rfl

theorem applyInitializedData_outside (m : Mem) (hdr : Nat) (outside : x < block ∨ block + blockSize ≤ x) :
    (applyInitializedData m hdr block blockSize).2 x = m x := by
  generalize is : applyInitializedData m hdr block blockSize = result
  unfold applyInitializedData at is
  dsimp only at is
  split at is
  · subst is
    rfl
  · split at is
    · subst is
      rfl
    · split at is
      · subst is
        rfl
      · split at is
        · next copied =>
          subst is
          exact copied_outside m hdr outside copied
        · next copied =>
          split at is
          · rw [← is]
            exact (applyIRefs_outside _ _ _ _ outside).trans (copied_outside m hdr outside copied)
          · subst is
            exact copied_outside m hdr outside copied

end InitialData

/-! ### The memory of a child taken and given back -/

section Memory
open Arena
variable {region : Region} {ram : Mem} {free used : List Block} {size : Nat}

/-- What the child's memory holds when the data of its module does not fit is nobody's. -/
def undoMemory (ram : Mem) (hdr size : Nat) : Mem :=
  let granted := allocMem ram size
  if granted.1 = 0 then granted.2
  else freeMem (applyInitializedData (zeroFill granted.2 granted.1 size) hdr granted.1 size).2 granted.1 size

theorem undoMemory_eq {block : Nat} {m : Mem} (took : allocMem ram size = (block, m)) (hdr : Nat) :
    undoMemory ram hdr size = if block = 0 then m
      else freeMem (applyInitializedData (zeroFill m block size) hdr block size).2 block size := by
  unfold undoMemory
  rw [took]

theorem undoMemory_zero (partition : Partition region.base region.size ram free used) (hdr : Nat) :
    undoMemory ram hdr 0 = ram := by
  have granted : (allocMem ram 0).2 = ram := by
    unfold allocMem
    rcases partition.firstFit (roundUp16 0) with ⟨missing, -⟩ | ⟨front, b, back, rfl, -, taken⟩
    · rw [missing]
    · rw [taken]
      exact takeBlock_zero partition
  have untouched : ∀ block, (applyInitializedData (zeroFill ram block 0) hdr block 0).2 = ram := by
    intro block
    funext x
    rw [applyInitializedData_outside _ _ (by omega), zeroFill_outside _ (by omega)]
  unfold undoMemory
  dsimp only
  rw [granted, untouched]
  split
  · rfl
  · rfl

/-- A block taken and freed again: nobody else's bytes change. -/
theorem undoMemory_granted (partition : Partition region.base region.size ram free used) (hdr : Nat) (positive : 1 ≤ size)
    (fits : size ≤ 4294967280) : ∃ free', Partition region.base region.size (undoMemory ram hdr size) free' used := by
  have rounds : size ≤ roundUp16 size := by
    unfold roundUp16 allocGranularity
    omega
  have outcome := allocMem_partition partition positive fits
  cases took : allocMem ram size with
  | mk block m =>
    rw [took] at outcome
    dsimp only at outcome
    rw [undoMemory_eq took]
    rcases outcome with ⟨none, same⟩ | ⟨some, free', taken⟩
    · rw [if_pos none, same]
      exact ⟨free, partition⟩
    · rw [if_neg some]
      refine ⟨_, Partition.release (b := ⟨block, roundUp16 size⟩) (taken.agree ?_) rfl⟩
      intro x outside
      have away : ¬ Block.Covers ⟨block, roundUp16 size⟩ x := outside _ List.mem_cons_self
      unfold Block.Covers at away
      dsimp only at away
      rw [applyInitializedData_outside _ _ (by omega), zeroFill_outside _ (by omega)]

theorem allocMem_empty (partition : Partition region.base region.size ram free used) (empty : ram.getU32 arenaHead = 0) :
    allocMem ram size = (0, ram) := by
  have none := partition.list.head_eq_zero.mp empty
  unfold allocMem
  rcases partition.firstFit (roundUp16 size) with ⟨missing, -⟩ | ⟨front, b, back, some, -, -⟩
  · exact missing
  · rw [none] at some
    simp at some

theorem undoMemory_partition (partition : Partition region.base region.size ram free used) (hdr : Nat)
    (fits : size ≤ 4294967280 ∨ ram.getU32 arenaHead = 0) :
    ∃ free', Partition region.base region.size (undoMemory ram hdr size) free' used := by
  rcases Nat.eq_zero_or_pos size with rfl | positive
  · rw [undoMemory_zero partition]
    exact ⟨free, partition⟩
  rcases fits with fits | empty
  · exact undoMemory_granted partition hdr positive fits
  · rw [undoMemory_eq (allocMem_empty partition empty), if_pos rfl]
    exact ⟨free, partition⟩

end Memory

/-! ### A link taken and given back -/

namespace ModDir

/-- The entries of the directory. -/
inductive Listed (d : ModDir) : Nat → Prop
  | head : d.head ≠ 0 → Listed d d.head
  | behind {slot : Nat} : Listed d slot → d.entries.get32 slot next ≠ 0 → Listed d (d.entries.get32 slot next)

/-- The same entries with the same fields. -/
structure Same (d d' : ModDir) : Prop where
  listed : ∀ slot, Listed d' slot ↔ Listed d slot
  hdrs : ∀ slot, Listed d slot → d'.entries.get32 slot hdrPtr = d.entries.get32 slot hdrPtr
  fields : ∀ slot, Listed d slot → ∀ field ∈ [tyLang, attRev, linkCnt, flags],
    d'.entries.get16 slot field = d.entries.get16 slot field

/-- A link of the entry `slot` that can be taken back through its header. -/
structure Undoable (d : ModDir) (slot : Nat) : Prop where
  live : d.entries.get32 slot hdrPtr ≠ 0
  first : ∃ front back, Linked (fun a => d.entries.get32 a next) 0 d.head (front ++ slot :: back) ∧
    ∀ a ∈ front, d.entries.get32 a hdrPtr ≠ d.entries.get32 slot hdrPtr
  below : d.entries.get16 slot linkCnt < 65535
  held : d.entries.get16 slot linkCnt ≠ 0 ∨ d.entries.get16 slot flags % 2 = 1

variable {d : ModDir} {slot : Nat}

theorem Same.refl (d : ModDir) : Same d d := ⟨fun _ => Iff.rfl, fun _ _ => rfl, fun _ _ _ _ => rfl⟩

theorem listed_iff {nodes : List Nat} (chain : Linked (fun a => d.entries.get32 a next) 0 d.head nodes) :
    Listed d slot ↔ slot ∈ nodes := by
  constructor
  · intro listed
    induction listed with
    | head live =>
      cases nodes with
      | nil => exact absurd chain live
      | cons a rest =>
        obtain ⟨here, -, -⟩ := chain
        rw [here]
        exact List.mem_cons_self
    | behind _ live ih =>
      obtain ⟨front, back, rfl⟩ := List.append_of_mem ih
      obtain ⟨-, -, onward⟩ := chain.drop
      cases back with
      | nil => exact absurd onward live
      | cons b back =>
        obtain ⟨here, -, -⟩ := onward
        dsimp only at here
        rw [here]
        simp
  · intro member
    obtain ⟨front, back, rfl⟩ := List.append_of_mem member
    -- induction over the part in front of the entry, from its end
    induction front using List.reverseRecOn generalizing slot back with
    | nil =>
      obtain ⟨here, live, -⟩ := chain
      rw [← here]
      exact .head (by rw [here]; exact live)
    | append_singleton front a ih =>
      rw [List.append_assoc, List.singleton_append] at chain
      obtain ⟨-, -, here, live, -⟩ := chain.drop
      dsimp only at here
      have before : Listed d a := ih _ chain (by simp)
      rw [← here]
      exact .behind before (by rw [here]; exact live)

/-- A search that finds something has seen the whole directory. -/
theorem findWalk_chain (m : Mem) (desired name : Nat) {fuel at' : Nat} (best revision : Nat)
    (found : d.findWalk m desired name fuel at' best revision ≠ 0) :
    ∃ nodes, Linked (fun a => d.entries.get32 a next) 0 at' nodes ∧ nodes.length ≤ fuel := by
  induction fuel generalizing at' best revision with
  | zero =>
    unfold findWalk at found
    split at found
    · next null => exact ⟨[], null, le_refl _⟩
    · exact absurd rfl found
  | succ fuel ih =>
    unfold findWalk at found
    by_cases null : at' = 0
    · exact ⟨[], null, Nat.zero_le _⟩
    · rw [if_neg null] at found
      dsimp only at found
      split at found
      all_goals
        obtain ⟨nodes, chain, short⟩ := ih _ _ found
        exact ⟨at' :: nodes, ⟨rfl, null, chain⟩, by simpa using short⟩

theorem findSlotByName_split (m : Mem) (desired name : Nat) (found : d.findSlotByName m desired name ≠ 0) :
    ∃ front back, Linked (fun a => d.entries.get32 a next) 0 d.head
      (front ++ d.findSlotByName m desired name :: back) ∧ front.length < queueLimit := by
  obtain ⟨nodes, chain, short⟩ := findWalk_chain m desired name 0 0 found
  have member : d.findSlotByName m desired name ∈ nodes := by
    have listed : d.findSlotByName m desired name = 0 ∨ d.findSlotByName m desired name = 0 ∨
        d.findSlotByName m desired name ∈ nodes := findWalk_listed m desired name 0 0 chain
    rcases listed with none | none | listed
    · exact absurd none found
    · exact absurd none found
    · exact listed
  obtain ⟨front, back, split⟩ := List.append_of_mem member
  rw [split] at chain short
  refine ⟨front, back, chain, ?_⟩
  rw [queueLimit_eq]
  unfold searchMax at short
  simp only [List.length_append, List.length_cons] at short
  omega

/-- The directory after a link of the entry. -/
def counted (d : ModDir) (slot : Nat) : ModDir :=
  { d with entries := d.entries.set16 slot linkCnt (d.entries.get16 slot linkCnt + 1) }

theorem counted_hdr (d : ModDir) (slot a : Nat) : (d.counted slot).entries.get32 a hdrPtr = d.entries.get32 a hdrPtr :=
  Heap.get32_set16_off _ _ _ _ (by decide)

theorem counted_next (d : ModDir) (slot a : Nat) : (d.counted slot).entries.get32 a next = d.entries.get32 a next :=
  Heap.get32_set16_off _ _ _ _ (by decide)

theorem counted_count (d : ModDir) (slot : Nat) :
    (d.counted slot).entries.get16 slot linkCnt = (d.entries.get16 slot linkCnt + 1) % 65536 :=
  Heap.get16_set16 _ _ _ _

theorem counted_chain {nodes : List Nat} (chain : Linked (fun a => d.entries.get32 a next) 0 d.head nodes) :
    Linked (fun a => (d.counted slot).entries.get32 a next) 0 (d.counted slot).head nodes :=
  chain.congr (fun a _ => d.counted_next slot a)

/-- An entry as it stands in the directory. -/
def entryAt (h : Heap) (a : Nat) : Entry :=
  ⟨a, h.get32 a hdrPtr, h.get16 a flags % 2 == 1, h.get16 a linkCnt, 0⟩

theorem entryAt_shows (h : Heap) (a : Nat) : Shows h (entryAt h a) :=
  ⟨rfl, (Nat.sub_zero _).symm, by simp [entryAt], Nat.zero_le _⟩

theorem unlinkByHeader_first {front back : List Nat} {g : Nat}
    (chain : Linked (fun a => d.entries.get32 a next) 0 d.head (front ++ g :: back))
    (before : ∀ a ∈ front, d.entries.get32 a hdrPtr ≠ d.entries.get32 g hdrPtr) (short : front.length < queueLimit) :
    d.unlinkByHeader (d.entries.get32 g hdrPtr) = d.unlinkSlot (front.getLast?.getD 0) g := by
  have slots : ∀ l : List Nat, (l.map (entryAt d.entries)).map Entry.slot = l := by
    intro l
    rw [List.map_map]
    exact List.map_id l
  have last : ((front.map (entryAt d.entries)).getLast?.map Entry.slot).getD 0 = front.getLast?.getD 0 := by
    rw [← List.getLast?_map, slots]
  have entries : (front.map (entryAt d.entries) ++ entryAt d.entries g :: back.map (entryAt d.entries)) =
      (front ++ g :: back).map (entryAt d.entries) := by simp
  have whole : Linked (fun a => d.entries.get32 a next) 0 d.head
      ((front.map (entryAt d.entries) ++ entryAt d.entries g :: back.map (entryAt d.entries)).map Entry.slot) := by
    rw [entries, slots]
    exact chain
  rw [← last]
  refine unlinkWalk_here (e := entryAt d.entries g) whole ?_ ?_ rfl (by simpa using short)
  · intro f member
    rw [entries] at member
    obtain ⟨a, -, rfl⟩ := List.mem_map.mp member
    exact entryAt_shows _ _
  · intro f member
    obtain ⟨a, inFront, rfl⟩ := List.mem_map.mp member
    exact before a inFront

theorem unlinkSlot_count (d : ModDir) (prev g : Nat) :
    (d.unlinkSlot prev g).entries.get16 g linkCnt = d.entries.get16 g linkCnt - 1 := by
  have small := d.entries.get16_lt g linkCnt
  have counted : (d.entries.set16 g linkCnt (d.entries.get16 g linkCnt - 1)).get16 g linkCnt =
      d.entries.get16 g linkCnt - 1 := by
    rw [Heap.get16_set16]
    omega
  unfold unlinkSlot poolFree
  dsimp only
  split
  · rw [Heap.get16_set32_off _ _ _ _ (by decide)]
    split
    · exact counted
    · rw [Heap.get16_set32_off _ _ _ _ (by decide)]
      exact counted
  · exact counted

theorem unlinkSlot_count_other (d : ModDir) (prev : Nat) {g a : Nat} (other : a ≠ g) :
    (d.unlinkSlot prev g).entries.get16 a linkCnt = d.entries.get16 a linkCnt := by
  have kept : (d.entries.set16 g linkCnt (d.entries.get16 g linkCnt - 1)).get16 a linkCnt =
      d.entries.get16 a linkCnt := by
    unfold Heap.get16
    rw [Heap.set16_block _ _ _ other]
  unfold unlinkSlot poolFree
  dsimp only
  split
  · rw [Heap.get16_set32_off _ _ _ _ (by decide)]
    split
    · exact kept
    · rw [Heap.get16_set32_off _ _ _ _ (by decide)]
      exact kept
  · exact kept

/-- An entry without links that is not permanent goes. -/
theorem unlinkSlot_gone {front back : List Nat} {g : Nat}
    (chain : Linked (fun a => d.entries.get32 a next) 0 d.head (front ++ g :: back))
    (last : d.entries.get16 g linkCnt - 1 = 0) (loose : d.entries.get16 g flags % 2 = 0) :
    ¬ Listed (d.unlinkSlot (front.getLast?.getD 0) g) g := by
  have nodup := chain.nodup
  rw [List.nodup_middle, List.nodup_cons] at nodup
  obtain ⟨absent, -⟩ := nodup
  have removed : (d.entries.set16 g linkCnt (d.entries.get16 g linkCnt - 1)).get16 g flags % 2 = 0 := by
    rw [Heap.get16_set16_off _ _ _ _ (by decide)]
    exact loose
  have links : ∀ a, (d.entries.set16 g linkCnt (d.entries.get16 g linkCnt - 1)).get32 a next = d.entries.get32 a next :=
    fun a => Heap.get32_set16_off _ _ _ _ (by decide)
  have rest : Linked (fun a => (d.unlinkSlot (front.getLast?.getD 0) g).entries.get32 a next) 0
      (d.unlinkSlot (front.getLast?.getD 0) g).head (front ++ back) := by
    unfold unlinkSlot poolFree
    dsimp only
    rw [if_pos ⟨last, removed⟩, links]
    rcases List.eq_nil_or_concat front with rfl | ⟨before, p, ends⟩
    · rw [List.getLast?_nil, Option.getD_none, if_pos rfl]
      dsimp only
      refine Linked.congr ?_ chain.2.2
      intro a member
      rw [Heap.get32_set32_block _ _ _ _ (by rintro rfl; exact absent member), links]
    · rw [List.concat_eq_append] at ends
      subst ends
      rw [List.append_assoc, List.singleton_append] at chain absent ⊢
      have live : p ≠ 0 := chain.ne_null (by simp)
      have apart : p ≠ g := by
        rintro rfl
        exact absent (by simp)
      have distinct := chain.nodup
      rw [List.nodup_middle, List.nodup_cons] at distinct
      rw [List.getLast?_concat, Option.getD_some, if_neg live]
      dsimp only
      refine chain.replace ?_ ?_ (chain.drop.2.2.2.2.congr ?_)
      · intro a member
        rw [Heap.get32_set32_block _ _ _ _ (by rintro rfl; exact absent (by simp [member])),
          Heap.get32_set32_block _ _ _ _ (by rintro rfl; exact distinct.1 (by simp [member])), links]
      · rw [Heap.get32_set32_block _ _ _ _ apart, Heap.get32_set32_of_lt _ _ _ (Heap.get32_lt _ _ _)]
      · intro a member
        rw [Heap.get32_set32_block _ _ _ _ (by rintro rfl; exact absent (by simp [member])),
          Heap.get32_set32_block _ _ _ _ (by rintro rfl; exact distinct.1 (by simp [member])), links]
  rw [listed_iff rest]
  exact absent

theorem set16_back (h : Heap) (b o v : Nat) : (h.set16 b o v).set16 b o (h.get16 b o) = h := by
  funext a
  by_cases here : a = b
  · subst here
    have twice : ∀ (m : Mem) (w : Nat), (m.setU16 o v).setU16 o w = m.setU16 o w := by
      intro m w
      funext x
      by_cases inside : o ≤ x ∧ x < o + 2
      · exact Mem.setU16_byte_new _ _ _ inside
      · rw [Mem.setU16_outside _ _ (by omega), Mem.setU16_outside _ _ (by omega), Mem.setU16_outside _ _ (by omega)]
    unfold Heap.set16 Heap.get16
    simp only [if_true]
    rw [twice]
    exact Mem.setU16_getU16 _ _ (Nat.mod_eq_of_lt (Mem.getU16_lt _ _))
  · rw [Heap.set16_block _ _ _ here, Heap.set16_block _ _ _ here]

/-- What a failing fork makes of a link: nothing is taken back where the header is 0. -/
def undoLink (d : ModDir) (slot : Nat) : ModDir :=
  if d.entries.get32 slot hdrPtr = 0 then d.counted slot
  else (d.counted slot).unlinkByHeader (d.entries.get32 slot hdrPtr)

section Undo
variable {front back : List Nat} (chain : Linked (fun a => d.entries.get32 a next) 0 d.head (front ++ slot :: back))
  (short : front.length < queueLimit)
include chain short

/-- The unlink meets the entry whose link was counted. -/
theorem undoLink_first (live : d.entries.get32 slot hdrPtr ≠ 0)
    (before : ∀ a ∈ front, d.entries.get32 a hdrPtr ≠ d.entries.get32 slot hdrPtr) :
    d.undoLink slot = (d.counted slot).unlinkSlot (front.getLast?.getD 0) slot := by
  unfold undoLink
  rw [if_neg live, ← d.counted_hdr slot slot]
  refine unlinkByHeader_first (counted_chain chain) ?_ short
  intro a member
  rw [counted_hdr, counted_hdr]
  exact before a member

theorem undoLink_undoable (undoable : Undoable d slot) : d.undoLink slot = d := by
  obtain ⟨live, ⟨front', back', chain', before⟩, below, held⟩ := undoable
  have same := chain.unique chain'
  have parts : front = front' := by
    have nodup := chain.nodup
    rw [List.nodup_middle, List.nodup_cons, List.mem_append, not_or] at nodup
    obtain ⟨⟨inFront, inBack⟩, -⟩ := nodup
    exact ((List.append_cons_inj_of_notMem inFront inBack).mp same).1
  subst parts
  have count : (d.counted slot).entries.get16 slot linkCnt = d.entries.get16 slot linkCnt + 1 := by
    rw [counted_count]
    exact Nat.mod_eq_of_lt (by omega)
  rw [undoLink_first chain short live before]
  unfold unlinkSlot
  dsimp only
  rw [count, Nat.add_sub_cancel, if_neg]
  · unfold counted
    rw [set16_back]
  · rintro ⟨none, loose⟩
    rw [Heap.get16_set16_off _ _ _ _ (by decide)] at loose
    unfold counted at loose
    rw [Heap.get16_set16_off _ _ _ _ (by decide)] at loose
    omega

theorem undoable_of_same (same : Same d (d.undoLink slot)) : Undoable d slot := by
  have listed : Listed d slot := (listed_iff chain).mpr (by simp)
  have count := same.fields slot listed linkCnt (by simp)
  have small := d.entries.get16_lt slot linkCnt
  have nodup := chain.nodup
  rw [List.nodup_middle, List.nodup_cons] at nodup
  obtain ⟨absent, -⟩ := nodup
  have live : d.entries.get32 slot hdrPtr ≠ 0 := by
    intro null
    unfold undoLink at count
    rw [if_pos null, counted_count] at count
    omega
  have before : ∀ a ∈ front, d.entries.get32 a hdrPtr ≠ d.entries.get32 slot hdrPtr := by
    by_contra shared
    push Not at shared
    -- the unlink stops at the first entry with the header, which is another one
    have some : (front.find? (fun a => d.entries.get32 a hdrPtr == d.entries.get32 slot hdrPtr)).isSome := by
      rw [List.find?_isSome]
      simpa using shared
    obtain ⟨g, found⟩ := Option.isSome_iff_exists.mp some
    obtain ⟨hdr, early, late, rfl, others⟩ := List.find?_eq_some_iff_append.mp found
    have hdr : d.entries.get32 g hdrPtr = d.entries.get32 slot hdrPtr := by simpa using hdr
    have other : slot ≠ g := by
      rintro rfl
      exact absent (by simp)
    rw [List.append_assoc, List.cons_append] at chain
    have stops : d.undoLink slot = (d.counted slot).unlinkSlot (early.getLast?.getD 0) g := by
      unfold undoLink
      rw [if_neg live, ← hdr, ← d.counted_hdr slot g]
      refine unlinkByHeader_first (counted_chain chain) ?_ (by simp at short; omega)
      intro a member
      rw [counted_hdr, counted_hdr, hdr]
      simpa using others a member
    rw [stops, unlinkSlot_count_other _ _ other, counted_count] at count
    omega
  have first := undoLink_first chain short live before
  rw [first, unlinkSlot_count, counted_count] at count
  have below : d.entries.get16 slot linkCnt < 65535 := by omega
  refine ⟨live, ⟨front, back, chain, before⟩, below, ?_⟩
  by_contra loose
  push Not at loose
  obtain ⟨none, notPermanent⟩ := loose
  have gone : ¬ Listed (d.undoLink slot) slot := by
    rw [first]
    refine unlinkSlot_gone (counted_chain chain) ?_ ?_
    · rw [counted_count, none]
    · unfold counted
      rw [Heap.get16_set16_off _ _ _ _ (by decide)]
      omega
  exact gone ((same.listed slot).mpr listed)

end Undo

end ModDir

/-! ### The fork -/

namespace Kernel

/-- The entry of the module a fork names, 0 when there is none. -/
def forkEntry (k : Kernel) (args : ForkArgs) : Nat := k.mods.findSlotByName k.ram args.typeLang args.namePtr

def forkHdr (k : Kernel) (args : ForkArgs) : Nat := k.mods.entries.get32 (k.forkEntry args) ModDir.hdrPtr

/-- Data, stack, additional memory and parameters of the child. -/
def forkSize (k : Kernel) (args : ForkArgs) : Nat :=
  (k.ram.getU32 (k.forkHdr args + Mh.mem) + k.ram.getU32 (k.forkHdr args + Mh.stack) + args.addMem +
    args.paramSize) % 4294967296

/-- The kernel but for free memory that holds something else. -/
structure Unchanged (k k' : Kernel) : Prop where
  modules : k.mods.Same k'.mods
  memory : ∀ x, SysMem.FreeByte k'.ram x ↔ SysMem.FreeByte k.ram x
  others : { k' with mods := k.mods, ram := k.ram } = k

/-- The link the fork takes, if any, can be taken back. -/
def LinkUndoable (k : Kernel) (args : ForkArgs) : Prop :=
  k.forkEntry args ≠ 0 → k.mods.Undoable (k.forkEntry args)

/-- The size of the child does not round to 0, or there is no memory at all. -/
def SizeRounds (k : Kernel) (args : ForkArgs) : Prop :=
  k.forkEntry args ≠ 0 → k.forkSize args ≤ 4294967280 ∨ k.ram.getU32 Arena.arenaHead = 0

variable {k : Kernel} {args : ForkArgs}

theorem linkByName_missing (missing : k.forkEntry args = 0) :
    k.mods.linkByName k.ram args.typeLang args.namePtr = (0, k.mods) := if_pos missing

theorem linkByName_found (found : k.forkEntry args ≠ 0) :
    k.mods.linkByName k.ram args.typeLang args.namePtr = (k.forkHdr args, k.mods.counted (k.forkEntry args)) :=
  if_neg found

theorem loadImage_undone (live : k.forkHdr args ≠ 0) :
    (∃ code, loadImage (k.mods.counted (k.forkEntry args)) k.ram args (k.forkHdr args) =
        (.error code, k.mods.undoLink (k.forkEntry args), undoMemory k.ram (k.forkHdr args) (k.forkSize args))) ∨
      ∃ image mods ram, loadImage (k.mods.counted (k.forkEntry args)) k.ram args (k.forkHdr args) =
          (.ok image, mods, ram) ∧
        dropImage mods ram image =
          (k.mods.undoLink (k.forkEntry args), undoMemory k.ram (k.forkHdr args) (k.forkSize args)) := by
  have undone : k.mods.undoLink (k.forkEntry args) =
      (k.mods.counted (k.forkEntry args)).unlinkByHeader (k.forkHdr args) := if_neg live
  have size : (k.ram.getU32 (k.forkHdr args + Mh.mem) + k.ram.getU32 (k.forkHdr args + Mh.stack) + args.addMem +
    args.paramSize) % 4294967296 = k.forkSize args := rfl
  cases took : Arena.allocMem k.ram (k.forkSize args) with
  | mk block m =>
    have loads : loadImage (k.mods.counted (k.forkEntry args)) k.ram args (k.forkHdr args) =
        if block = 0 then (.error SysMem.eMemful, (k.mods.counted (k.forkEntry args)).unlinkByHeader (k.forkHdr args), m)
        else fillImage (k.mods.counted (k.forkEntry args)) m
          ⟨k.forkHdr args, add32 (k.forkHdr args) (k.ram.getU32 (k.forkHdr args + Mh.exec)), block, k.forkSize args⟩ := by
      unfold loadImage
      dsimp only
      rw [size, took]
    rw [loads, undone, undoMemory_eq took]
    by_cases full : block = 0
    · rw [if_pos full, if_pos full]
      exact .inl ⟨_, rfl⟩
    · rw [if_neg full, if_neg full]
      unfold fillImage
      cases filled : applyInitializedData (zeroFill m block (k.forkSize args)) (k.forkHdr args) block (k.forkSize args) with
      | mk valid data =>
        cases valid with
        | true => exact .inr ⟨_, _, _, rfl, rfl⟩
        | false => exact .inl ⟨_, rfl⟩

/-- An image that cannot be made leaves nothing behind, and one that can may be given up. -/
theorem forkImage_undone :
    (k.forkEntry args = 0 ∧ forkImage k.mods k.ram args = (.error eMnf, k.mods, k.ram)) ∨
      (k.forkEntry args ≠ 0 ∧ ∃ ram, (ram = k.ram ∨ ram = undoMemory k.ram (k.forkHdr args) (k.forkSize args)) ∧
        ((∃ code, forkImage k.mods k.ram args = (.error code, k.mods.undoLink (k.forkEntry args), ram)) ∨
          ∃ image mods m, forkImage k.mods k.ram args = (.ok image, mods, m) ∧
            dropImage mods m image = (k.mods.undoLink (k.forkEntry args), ram))) := by
  by_cases missing : k.forkEntry args = 0
  · refine .inl ⟨missing, ?_⟩
    unfold forkImage
    rw [linkByName_missing missing]
    exact if_pos rfl
  refine .inr ⟨missing, ?_⟩
  have linked : forkImage k.mods k.ram args =
      if k.forkHdr args = 0 then (.error eMnf, k.mods.counted (k.forkEntry args), k.ram)
      else loadImage (k.mods.counted (k.forkEntry args)) k.ram args (k.forkHdr args) := by
    unfold forkImage
    rw [linkByName_found missing]
  rw [linked]
  by_cases null : k.forkHdr args = 0
  · have kept : k.mods.undoLink (k.forkEntry args) = k.mods.counted (k.forkEntry args) := if_pos null
    rw [if_pos null, kept]
    exact ⟨k.ram, .inl rfl, .inl ⟨_, rfl⟩⟩
  · rw [if_neg null]
    exact ⟨_, .inr rfl, loadImage_undone null⟩

/-- What a call leaves that has not got its image, or has given it up. -/
def Undone (k : Kernel) (args : ForkArgs) (k' : Kernel) : Prop :=
  (k.forkEntry args = 0 ∧ k' = k) ∨
    (k.forkEntry args ≠ 0 ∧ ∃ ram, k' = { k with mods := k.mods.undoLink (k.forkEntry args), ram := ram } ∧
      (ram = k.ram ∨ ram = undoMemory k.ram (k.forkHdr args) (k.forkSize args)))

/-- A fork that fails leaves everything but the directory and the memory alone. -/
theorem procFork_failed {code : Nat} (failed : (k.procFork args).1 = .error code) : Undone k args (k.procFork args).2 := by
  unfold procFork at failed ⊢
  rcases @forkImage_undone k args with ⟨missing, made⟩ | ⟨found, ram, memory, ⟨code, made⟩ | ⟨image, mods, m, made, dropped⟩⟩
  · rw [made]
    exact .inl ⟨missing, rfl⟩
  · rw [made]
    exact .inr ⟨found, ram, rfl, memory⟩
  · rw [made] at failed ⊢
    unfold forkLoaded forkSlot at failed ⊢
    dsimp only at failed ⊢
    by_cases full : (k.setStore (mods, m)).poolFree = 0
    · rw [procPoolAlloc_none _ full, if_pos rfl]
      refine .inr ⟨found, ram, ?_, memory⟩
      show setStore _ (dropImage mods m image) = _
      rw [dropped]
      rfl
    · rw [procPoolAlloc_some _ full] at failed
      dsimp only at failed
      rw [if_neg full] at failed
      cases failed

/-- What is given back is as before exactly when the link of the module can be taken back. -/
theorem Undone.unchanged {region : Arena.Region} {free used : List Block} {k' : Kernel} (undone : Undone k args k')
    (partition : Arena.Partition region.base region.size k.ram free used) :
    (k.Unchanged k' → k.LinkUndoable args) ∧ (k.LinkUndoable args → k.SizeRounds args → k.Unchanged k') := by
  rcases undone with ⟨missing, same⟩ | ⟨found, ram, is, memory⟩
  · rw [same]
    exact ⟨fun _ found => absurd missing found, fun _ _ => ⟨.refl _, fun _ => Iff.rfl, rfl⟩⟩
  · obtain ⟨front, back, chain, short⟩ := ModDir.findSlotByName_split k.ram args.typeLang args.namePtr found
    rw [is]
    constructor
    · intro unchanged _
      exact ModDir.undoable_of_same chain short unchanged.modules
    · intro undoable rounds
      have restored := ModDir.undoLink_undoable chain short (undoable found)
      refine ⟨?_, ?_, rfl⟩
      · show k.mods.Same (k.mods.undoLink (k.forkEntry args))
        unfold forkEntry
        rw [restored]
        exact .refl _
      · obtain ⟨free', after⟩ : ∃ free', Arena.Partition region.base region.size ram free' used := by
          rcases memory with rfl | rfl
          · exact ⟨free, partition⟩
          · exact undoMemory_partition partition _ (rounds found)
        intro x
        rw [SysMem.freeByte_iff after, SysMem.freeByte_iff partition]

/-- A fork that fails changes nothing exactly when the link of its module can be taken back: the
entry is the first with its header, its count does not overflow, and the entry is permanent or has
a link already. -/
theorem procFork_unchanged {region : Arena.Region} {free used : List Block} {code : Nat}
    (partition : Arena.Partition region.base region.size k.ram free used)
    (failed : (k.procFork args).1 = .error code) :
    (k.Unchanged (k.procFork args).2 → k.LinkUndoable args) ∧
      (k.LinkUndoable args → k.SizeRounds args → k.Unchanged (k.procFork args).2) :=
  (procFork_failed failed).unchanged partition

/-! ### A full process table -/

/-- A module `a` at 0x2000 and the text `a` at 0x3000. -/
def oneModule : Mem := fun x =>
  if x = 0x2006 then 1 else if x = 0x200F then 0x50 else if x = 0x2050 ∨ x = 0x3000 then 0x61 else 0

/-- The module stands in the directory with `links` links, and no process slot is free. -/
def crowded (links : UInt8) : Kernel :=
  { Kernel.zeroed 0 0 with
    ram := Arena.arenaInit oneModule 0x10000 0x100
    mods := ⟨0x500, 0, fun b o => if b ≠ 0x500 then 0 else if o = 6 then 0x20 else if o = 13 then links else 0⟩ }

def oneFork : ForkArgs :=
  { typeLang := 0, addMem := 0x40, paramSize := 0, namePtr := 0x3000, paramPtr := 0, priority := 0, numPaths := 0 }

/-- With a link held elsewhere nothing changes. -/
theorem procFork_unchanged_linked :
    ((crowded 1).procFork oneFork).1 = .error ePrcFul ∧ (crowded 1).Unchanged ((crowded 1).procFork oneFork).2 := by
  have failed : ((crowded 1).procFork oneFork).1 = .error ePrcFul := by decide
  have entry : (crowded 1).forkEntry oneFork = 0x500 := by decide
  refine ⟨failed, (procFork_unchanged (Arena.arenaInit_partition Arena.sampleRegion oneModule) failed).2 ?_ ?_⟩
  · intro _
    rw [entry]
    have last : (crowded 1).mods.entries.get32 0x500 ModDir.next = 0 := by decide
    exact ⟨by decide, ⟨[], [], ⟨rfl, by decide, last⟩, nofun⟩, by decide, .inl (by decide)⟩
  · intro _
    exact .inl (by decide)

/-- A module that was entered and never linked is gone after the fork that failed. -/
theorem procFork_drops_module :
    ¬ ∀ (k : Kernel) (args : ForkArgs) (region : Arena.Region) (free used : List Block) (code : Nat),
      Arena.Partition region.base region.size k.ram free used → (k.procFork args).1 = .error code →
        k.Unchanged (k.procFork args).2 := by
  intro always
  have unchanged := always (crowded 0) oneFork Arena.sampleRegion _ _ ePrcFul
    (Arena.arenaInit_partition Arena.sampleRegion oneModule) (by decide)
  have listed : (crowded 0).mods.Listed 0x500 := .head (by decide)
  have empty : ((crowded 0).procFork oneFork).2.mods.head = 0 := by decide +kernel
  have chain : Linked (fun a => ((crowded 0).procFork oneFork).2.mods.entries.get32 a ModDir.next) 0
      ((crowded 0).procFork oneFork).2.mods.head [] := empty
  have gone := (ModDir.listed_iff chain).mp ((unchanged.modules.listed 0x500).mpr listed)
  exact absurd gone List.not_mem_nil

end Kernel

end Q9OS

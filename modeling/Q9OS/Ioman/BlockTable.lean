import Mathlib.Tactic
import Q9OS.Lib.Chain
import Q9OS.Lib.Heap
import Q9OS.Lib.Run

/-!
# The descriptor block table

F$AllPD, F$RetPD and F$FindPD of `q9kernel_iopath.c`. A table of the caller maps
numbers to descriptors, and the descriptors come from the path pool of the kernel,
whose free link lies over the number of a descriptor in use.
-/

namespace Q9OS

namespace Pd

def eBpAddr : Nat := 0xD2
def ePthFul : Nat := 0xC8
def eBpNum : Nat := 0xC9

def descSize : Nat := 256

/-- A table at `addr` with the path pool beside it. -/
structure BlockTable where
  addr : Nat
  table : Mem
  free : Nat
  descs : Heap

namespace BlockTable

def maxIndex (t : BlockTable) : Nat := t.table.getU16 0

def entry (t : BlockTable) (idx : Nat) : Nat := t.table.getU32 (idx * 4)

def setEntry (t : BlockTable) (idx desc : Nat) : BlockTable := { t with table := t.table.setU32 (idx * 4) desc }

/-! ### The pool -/

/-- A descriptor from the free list, 0 when there is none. -/
def pathPoolAlloc (t : BlockTable) : Nat × BlockTable :=
  if t.free = 0 then (0, t) else (t.free, { t with free := t.descs.get32 t.free 0 })

def pathPoolFree (t : BlockTable) (desc : Nat) : BlockTable :=
  { t with descs := t.descs.set32 desc 0 t.free, free := desc }

def clear (h : Heap) (desc : Nat) : Heap :=
  fun b o => if b = desc ∧ o < descSize then 0 else h b o

/-! ### The calls -/

/-- The first index without a descriptor. -/
def freeIndex (t : BlockTable) : Option Nat := (List.range' 1 t.maxIndex).find? fun idx => t.entry idx = 0

def procAllPD (t : BlockTable) : Except Nat (Nat × Nat) × BlockTable :=
  if t.addr = 0 then (.error eBpAddr, t)
  else
    match t.freeIndex with
    | none => (.error ePthFul, t)
    | some idx =>
      let taken := t.pathPoolAlloc
      let desc := taken.1
      if desc = 0 then (.error ePthFul, t)
      else
        let t := taken.2
        let t := { t with descs := (clear t.descs desc).set16 desc 0 idx }
        (.ok (desc, idx), t.setEntry idx desc)

def procRetPD (t : BlockTable) (num : Nat) : Except Nat Unit × BlockTable :=
  if t.addr = 0 then (.error eBpAddr, t)
  else if num = 0 ∨ num > t.maxIndex then (.error eBpNum, t)
  else
    let desc := t.entry num
    if desc = 0 then (.error eBpNum, t)
    else if t.descs.get16 desc 0 ≠ num then (.error eBpNum, t)
    else (.ok (), (t.setEntry num 0).pathPoolFree desc)

def procFindPD (t : BlockTable) (num : Nat) : Except Nat Nat :=
  if t.addr = 0 then .error eBpAddr
  else if num = 0 ∨ num > t.maxIndex then .error eBpNum
  else
    let desc := t.entry num
    if desc = 0 then .error eBpNum else .ok desc

end BlockTable

/-! ### Reads after writes -/

section
variable {t : BlockTable}

theorem maxIndex_lt (t : BlockTable) : t.maxIndex < 65536 := Mem.getU16_lt _ _

theorem setEntry_maxIndex (t : BlockTable) {idx : Nat} (desc : Nat) (pos : 0 < idx) : (t.setEntry idx desc).maxIndex = t.maxIndex :=
  Mem.getU16_congr (fun x _ high => Mem.setU32_outside _ _ (by omega))

theorem setEntry_entry (t : BlockTable) (idx : Nat) {desc : Nat} (fits : desc < 4294967296) :
    (t.setEntry idx desc).entry idx = desc :=
  Mem.getU32_setU32_of_lt _ _ fits

theorem setEntry_other (t : BlockTable) (desc : Nat) {idx other : Nat} (apart : other ≠ idx) :
    (t.setEntry idx desc).entry other = t.entry other :=
  Mem.getU32_setU32_apart _ _ (by omega)

theorem clear_other (h : Heap) {desc b : Nat} (other : b ≠ desc) : BlockTable.clear h desc b = h b := by
  funext o
  exact if_neg (fun both => other both.1)

/-- The index is used for the descriptor. -/
structure Allocated (t : BlockTable) (idx desc : Nat) : Prop where
  pos : 0 < idx
  inside : idx ≤ t.maxIndex
  entry : t.entry idx = desc
  live : desc ≠ 0

theorem allocated_congr {t' : BlockTable} (same : t'.table = t.table) (idx desc : Nat) :
    Allocated t' idx desc ↔ Allocated t idx desc := by
  have maxIndex : t'.maxIndex = t.maxIndex := by
    unfold BlockTable.maxIndex
    rw [same]
  have entry : t'.entry idx = t.entry idx := by
    unfold BlockTable.entry
    rw [same]
  constructor
  · rintro ⟨pos, inside, held, live⟩
    exact ⟨pos, maxIndex ▸ inside, entry ▸ held, live⟩
  · rintro ⟨pos, inside, held, live⟩
    exact ⟨pos, maxIndex.symm ▸ inside, entry.symm ▸ held, live⟩

/-- What a changed entry says of the others. -/
theorem allocated_setEntry {idx desc : Nat} (pos : 0 < idx) (inside : idx ≤ t.maxIndex) (fits : desc < 4294967296) (i d : Nat) :
    Allocated (t.setEntry idx desc) i d ↔ (i = idx ∧ d = desc ∧ desc ≠ 0) ∨ (i ≠ idx ∧ Allocated t i d) := by
  have same := setEntry_maxIndex t desc pos
  by_cases here : i = idx
  · subst here
    constructor
    · rintro ⟨-, -, held, live⟩
      rw [setEntry_entry t i fits] at held
      subst held
      exact Or.inl ⟨rfl, rfl, live⟩
    · rintro (⟨-, rfl, live⟩ | ⟨other, -⟩)
      · exact ⟨pos, same.symm ▸ inside, setEntry_entry t i fits, live⟩
      · exact absurd rfl other
  · have other := setEntry_other t desc here
    constructor
    · rintro ⟨above, low, held, live⟩
      exact Or.inr ⟨here, above, same ▸ low, other ▸ held, live⟩
    · rintro (⟨same', -⟩ | ⟨-, above, low, held, live⟩)
      · exact absurd same' here
      · exact ⟨above, same.symm ▸ low, other.trans held, live⟩

theorem freeIndex_eq_some {idx : Nat} :
    t.freeIndex = some idx ↔ t.entry idx = 0 ∧ 0 < idx ∧ idx ≤ t.maxIndex ∧ ∀ i, 0 < i → i < idx → t.entry i ≠ 0 := by
  unfold BlockTable.freeIndex
  rw [List.find?_range'_eq_some]
  simp only [decide_eq_true_eq, List.mem_range'_1, Bool.not_eq_true', decide_eq_false_iff_not]
  constructor
  · rintro ⟨free, ⟨low, high⟩, before⟩
    exact ⟨free, low, by omega, before⟩
  · rintro ⟨free, low, high, before⟩
    exact ⟨free, ⟨low, by omega⟩, before⟩

/-! ### What the calls do -/

/-- The table after a descriptor was taken for an index. -/
def BlockTable.given (t : BlockTable) (idx : Nat) : BlockTable :=
  { t with
    table := t.table.setU32 (idx * 4) t.free
    free := t.descs.get32 t.free 0
    descs := (BlockTable.clear t.descs t.free).set16 t.free 0 idx }

/-- The table after the descriptor of an index was given back. -/
def BlockTable.back (t : BlockTable) (num : Nat) : BlockTable :=
  { t with
    table := t.table.setU32 (num * 4) 0
    free := t.entry num
    descs := t.descs.set32 (t.entry num) 0 t.free }

theorem procAllPD_cases (t : BlockTable) :
    (∃ code, t.procAllPD = (.error code, t) ∧ (t.addr = 0 ∨ t.freeIndex = none ∨ t.free = 0)) ∨
    ∃ idx, t.freeIndex = some idx ∧ t.free ≠ 0 ∧ t.addr ≠ 0 ∧ t.procAllPD = (.ok (t.free, idx), t.given idx) := by
  unfold BlockTable.procAllPD
  split
  · next null => exact Or.inl ⟨_, rfl, Or.inl null⟩
  · next placed =>
    cases found : t.freeIndex with
    | none => exact Or.inl ⟨_, rfl, Or.inr (Or.inl rfl)⟩
    | some idx =>
      dsimp only
      by_cases none : t.free = 0
      · have taken : t.pathPoolAlloc = (0, t) := if_pos none
        rw [taken]
        exact Or.inl ⟨_, rfl, Or.inr (Or.inr none)⟩
      · have taken : t.pathPoolAlloc = (t.free, { t with free := t.descs.get32 t.free 0 }) := if_neg none
        rw [taken]
        dsimp only
        rw [if_neg none]
        exact Or.inr ⟨idx, rfl, none, placed, rfl⟩

theorem procRetPD_cases (t : BlockTable) (num : Nat) :
    (∃ code, t.procRetPD num = (.error code, t)) ∨
    (Allocated t num (t.entry num) ∧ t.descs.get16 (t.entry num) 0 = num ∧ t.procRetPD num = (.ok (), t.back num)) := by
  unfold BlockTable.procRetPD
  split
  · exact Or.inl ⟨_, rfl⟩
  · split
    · exact Or.inl ⟨_, rfl⟩
    · next inside =>
      dsimp only
      split
      · exact Or.inl ⟨_, rfl⟩
      · next live =>
        split
        · exact Or.inl ⟨_, rfl⟩
        · next number => exact Or.inr ⟨⟨by omega, by omega, rfl, live⟩, not_not.mp number, rfl⟩

theorem procFindPD_eq_ok {num desc : Nat} (placed : t.addr ≠ 0) : t.procFindPD num = .ok desc ↔ Allocated t num desc := by
  unfold BlockTable.procFindPD
  rw [if_neg placed]
  split
  · next outside =>
    constructor
    · rintro ⟨⟩
    · rintro ⟨pos, inside, -, -⟩
      omega
  · next inside =>
    dsimp only
    split
    · next free =>
      constructor
      · rintro ⟨⟩
      · rintro ⟨-, -, held, live⟩
        exact absurd (held.symm.trans free) live
    · next live =>
      constructor
      · intro found
        obtain rfl := Except.ok.inj found
        exact ⟨by omega, by omega, rfl, live⟩
      · rintro ⟨-, -, held, -⟩
        rw [held]

/-! ### The invariant -/

/-- Every descriptor of the pool is either free or used for one index, whose number it carries. -/
structure Consistent (pool : List Nat) (t : BlockTable) (free : List Nat) : Prop where
  linked : Linked (fun d => t.descs.get32 d 0) 0 t.free free
  known : ∀ d, d ∈ pool ↔ d ∈ free ∨ ∃ idx, Allocated t idx d
  apart : ∀ d ∈ free, ∀ idx, ¬ Allocated t idx d
  unique : ∀ idx idx' d, Allocated t idx d → Allocated t idx' d → idx = idx'
  number : ∀ idx d, Allocated t idx d → t.descs.get16 d 0 = idx

theorem given_descs (t : BlockTable) (idx : Nat) {d : Nat} (other : d ≠ t.free) : (t.given idx).descs d = t.descs d := by
  have stored : (t.given idx).descs d = BlockTable.clear t.descs t.free d := Heap.set16_block _ _ _ other
  rw [stored, clear_other _ other]

theorem given_allocated {idx : Nat} (found : t.freeIndex = some idx) (some : t.free ≠ 0) (fits : t.free < 4294967296) (i d : Nat) :
    Allocated (t.given idx) i d ↔ (i = idx ∧ d = t.free) ∨ Allocated t i d := by
  obtain ⟨empty, pos, inside, -⟩ := freeIndex_eq_some.mp found
  have table : (t.given idx).table = (t.setEntry idx t.free).table := rfl
  rw [allocated_congr table, allocated_setEntry pos inside fits]
  constructor
  · rintro (⟨here, desc, -⟩ | ⟨-, held⟩)
    · exact Or.inl ⟨here, desc⟩
    · exact Or.inr held
  · rintro (⟨here, desc⟩ | held)
    · exact Or.inl ⟨here, desc, some⟩
    · refine Or.inr ⟨?_, held⟩
      rintro rfl
      exact held.live (held.entry.symm.trans empty)

theorem given_consistent {pool free : List Nat} {idx : Nat} (fits : ∀ d ∈ pool, d < 4294967296)
    (consistent : Consistent pool t free) (found : t.freeIndex = some idx) (some : t.free ≠ 0) :
    ∃ rest, free = t.free :: rest ∧ Consistent pool (t.given idx) rest := by
  obtain ⟨linked, known, apart, unique, number⟩ := consistent
  cases free with
  | nil => exact absurd linked some
  | cons head rest =>
    have nodup := linked.nodup
    obtain ⟨rfl, live, onward⟩ := linked
    have outside : t.free ∉ rest := (List.nodup_cons.mp nodup).1
    have member : t.free ∈ pool := (known t.free).mpr (Or.inl List.mem_cons_self)
    have allocated := given_allocated found some (fits t.free member)
    have unused (i : Nat) : ¬ Allocated t i t.free := apart t.free List.mem_cons_self i
    obtain ⟨-, -, inside, -⟩ := freeIndex_eq_some.mp found
    refine ⟨rest, rfl, ?_, fun d => ?_, fun d free i held => ?_, fun i j d one two => ?_, fun i d held => ?_⟩
    · refine onward.congr (fun d free => ?_)
      have other : d ≠ t.free := fun same => outside (same ▸ free)
      show (t.given idx).descs.get32 d 0 = t.descs.get32 d 0
      unfold Heap.get32
      rw [given_descs t idx other]
    · rw [known d, List.mem_cons]
      constructor
      · rintro ((rfl | free) | ⟨i, held⟩)
        · exact Or.inr ⟨idx, (allocated idx _).mpr (Or.inl ⟨rfl, rfl⟩)⟩
        · exact Or.inl free
        · exact Or.inr ⟨i, (allocated i d).mpr (Or.inr held)⟩
      · rintro (free | ⟨i, held⟩)
        · exact Or.inl (Or.inr free)
        · rcases (allocated i d).mp held with ⟨-, same⟩ | before
          · exact Or.inl (Or.inl same)
          · exact Or.inr ⟨i, before⟩
    · rcases (allocated i d).mp held with ⟨-, rfl⟩ | before
      · exact outside free
      · exact apart d (List.mem_cons_of_mem _ free) i before
    · rcases (allocated i d).mp one with ⟨rfl, rfl⟩ | first
      · rcases (allocated j _).mp two with ⟨rfl, -⟩ | second
        · rfl
        · exact absurd second (unused j)
      · rcases (allocated j d).mp two with ⟨-, rfl⟩ | second
        · exact absurd first (unused i)
        · exact unique i j d first second
    · rcases (allocated i d).mp held with ⟨rfl, rfl⟩ | before
      · have stored : (t.given i).descs.get16 t.free 0 = i % 65536 := Heap.get16_set16 _ _ _ _
        rw [stored]
        have small := maxIndex_lt t
        omega
      · have other : d ≠ t.free := by
          rintro rfl
          exact unused i before
        unfold Heap.get16
        rw [given_descs t idx other]
        exact number i d before

theorem back_consistent {pool free : List Nat} {num : Nat} (fits : t.free < 4294967296)
    (consistent : Consistent pool t free) (held : Allocated t num (t.entry num)) :
    Consistent pool (t.back num) (t.entry num :: free) := by
  obtain ⟨linked, known, apart, unique, number⟩ := consistent
  have outside : t.entry num ∉ free := fun member => apart _ member num held
  have table : (t.back num).table = (t.setEntry num 0).table := rfl
  have allocated (i d : Nat) : Allocated (t.back num) i d ↔ i ≠ num ∧ Allocated t i d := by
    rw [allocated_congr table, allocated_setEntry held.pos held.inside (by decide)]
    simp
  have descs {d : Nat} (other : d ≠ t.entry num) : (t.back num).descs d = t.descs d := Heap.set32_block _ _ _ other
  refine ⟨⟨rfl, held.live, ?_⟩, fun d => ?_, fun d member i held' => ?_, fun i j d one two => ?_, fun i d held' => ?_⟩
  · have link : (t.back num).descs.get32 (t.entry num) 0 = t.free := Heap.get32_set32_of_lt _ _ _ fits
    show Linked (fun d => (t.back num).descs.get32 d 0) 0 ((t.back num).descs.get32 (t.entry num) 0) free
    rw [link]
    refine linked.congr (fun d member => ?_)
    show (t.back num).descs.get32 d 0 = t.descs.get32 d 0
    unfold Heap.get32
    rw [descs (fun same => outside (same ▸ member))]
  · rw [known d, List.mem_cons]
    constructor
    · rintro (member | ⟨i, before⟩)
      · exact Or.inl (Or.inr member)
      · by_cases here : i = num
        · subst here
          exact Or.inl (Or.inl before.entry.symm)
        · exact Or.inr ⟨i, (allocated i d).mpr ⟨here, before⟩⟩
    · rintro ((rfl | member) | ⟨i, after⟩)
      · exact Or.inr ⟨num, held⟩
      · exact Or.inl member
      · exact Or.inr ⟨i, ((allocated i d).mp after).2⟩
  · obtain ⟨other, before⟩ := (allocated i d).mp held'
    rcases List.mem_cons.mp member with rfl | free
    · exact other (unique i num _ before held)
    · exact apart d free i before
  · exact unique i j d ((allocated i d).mp one).2 ((allocated j d).mp two).2
  · obtain ⟨other, before⟩ := (allocated i d).mp held'
    have apart' : d ≠ t.entry num := by
      rintro rfl
      exact other (unique i num _ before held)
    unfold Heap.get16
    rw [descs apart']
    exact number i d before

/-! ### Runs -/

inductive Call where
  | allPD
  | retPD (num : Nat)
  | findPD (num : Nat)

/-- Whether a call fails, and the state it leaves. -/
def answer (t : BlockTable) : Call → Bool × BlockTable
  | .allPD => (t.procAllPD.1.isOk, t.procAllPD.2)
  | .retPD num => ((t.procRetPD num).1.isOk, (t.procRetPD num).2)
  | .findPD num => ((t.procFindPD num).isOk, t)

def step (t : BlockTable) (call : Call) : Option BlockTable := some (answer t call).2

theorem answer_failed {call : Call} (failed : (answer t call).1 = false) : (answer t call).2 = t := by
  cases call with
  | allPD =>
    rcases procAllPD_cases t with ⟨code, same, -⟩ | ⟨idx, -, -, -, done⟩
    · exact congrArg Prod.snd same
    · have ok : (answer t .allPD).1 = t.procAllPD.1.isOk := rfl
      rw [ok, done] at failed
      cases failed
  | retPD num =>
    rcases procRetPD_cases t num with ⟨code, same⟩ | ⟨-, -, done⟩
    · exact congrArg Prod.snd same
    · have ok : (answer t (.retPD num)).1 = (t.procRetPD num).1.isOk := rfl
      rw [ok, done] at failed
      cases failed
  | findPD num => rfl

/-- The invariant of a run. -/
structure Kept (pool : List Nat) (t : BlockTable) : Prop where
  placed : t.addr ≠ 0
  long : t.free < 4294967296
  consistent : ∃ free, Consistent pool t free

theorem step_kept {pool : List Nat} (fits : ∀ d ∈ pool, d < 4294967296) {t' : BlockTable} {call : Call} (kept : Kept pool t)
    (stepped : step t call = some t') : Kept pool t' := by
  obtain ⟨placed, long, free, consistent⟩ := kept
  obtain rfl := Option.some.inj stepped
  cases call with
  | allPD =>
    show Kept pool t.procAllPD.2
    rcases procAllPD_cases t with ⟨code, same, -⟩ | ⟨idx, found, some, -, done⟩
    · rw [same]
      exact ⟨placed, long, free, consistent⟩
    · rw [done]
      obtain ⟨rest, -, after⟩ := given_consistent fits consistent found some
      exact ⟨placed, Heap.get32_lt _ _ _, rest, after⟩
  | retPD num =>
    show Kept pool (t.procRetPD num).2
    rcases procRetPD_cases t num with ⟨code, same⟩ | ⟨held, -, done⟩
    · rw [same]
      exact ⟨placed, long, free, consistent⟩
    · rw [done]
      exact ⟨placed, Mem.getU32_lt _ _, _, back_consistent long consistent held⟩
  | findPD num => exact ⟨placed, long, free, consistent⟩

/-- A descriptor given back at once leaves the table as it was, and the free list too. -/
theorem given_back {pool free : List Nat} {idx : Nat} (fits : ∀ d ∈ pool, d < 4294967296) (placed : t.addr ≠ 0)
    (consistent : Consistent pool t free) (found : t.freeIndex = some idx) (some : t.free ≠ 0) :
    ∃ back, (t.given idx).procRetPD idx = (.ok (), back) ∧ back.table = t.table ∧ back.free = t.free ∧
      Linked (fun d => back.descs.get32 d 0) 0 back.free free := by
  obtain ⟨rest, parts, after⟩ := given_consistent fits consistent found some
  have member : t.free ∈ pool := (consistent.known t.free).mpr (Or.inl (parts ▸ List.mem_cons_self))
  have held : Allocated (t.given idx) idx t.free := (given_allocated found some (fits _ member) idx _).mpr (Or.inl ⟨rfl, rfl⟩)
  have entry : (t.given idx).entry idx = t.free := held.entry
  obtain ⟨empty, pos, inside, -⟩ := freeIndex_eq_some.mp found
  have done : (t.given idx).procRetPD idx = (.ok (), (t.given idx).back idx) := by
    have range : ¬ (idx = 0 ∨ idx > (t.given idx).maxIndex) := by
      have low := held.inside
      omega
    unfold BlockTable.procRetPD
    rw [if_neg (show (t.given idx).addr ≠ 0 from placed), if_neg range]
    dsimp only
    rw [entry, if_neg some, if_neg (not_not.mpr (after.number idx _ held)), BlockTable.back, entry]
    rfl
  have table : ((t.given idx).back idx).table = t.table := by
    have cleared : t.table.setU32 (idx * 4) 0 = t.table := Mem.setU32_getU32 _ _ empty.symm
    funext x
    by_cases here : idx * 4 ≤ x ∧ x < idx * 4 + 4
    · have zero : ((t.given idx).back idx).table x = t.table.setU32 (idx * 4) 0 x := Mem.setU32_byte_new _ _ 0 here
      rw [zero, cleared]
    · have outside : x < idx * 4 ∨ idx * 4 + 4 ≤ x := by omega
      have first : ((t.given idx).back idx).table x = (t.given idx).table x := Mem.setU32_outside _ _ outside
      have second : (t.given idx).table x = t.table x := Mem.setU32_outside _ _ outside
      rw [first, second]
  have restored := (back_consistent (Heap.get32_lt _ _ _) after (entry.symm ▸ held)).linked
  rw [entry, ← parts] at restored
  exact ⟨_, done, table, entry, restored⟩

/-- The lowest index without a descriptor. -/
structure LowestFree (t : BlockTable) (idx : Nat) : Prop where
  free : t.entry idx = 0
  pos : 0 < idx
  inside : idx ≤ t.maxIndex
  before : ∀ i, 0 < i → i < idx → t.entry i ≠ 0

theorem lowestFree_iff {idx : Nat} : LowestFree t idx ↔ t.freeIndex = some idx := by
  rw [freeIndex_eq_some]
  exact ⟨fun ⟨free, pos, inside, before⟩ => ⟨free, pos, inside, before⟩, fun ⟨free, pos, inside, before⟩ => ⟨free, pos, inside, before⟩⟩

/-- Addresses read from memory are long words. -/
theorem linked_lt {h : Heap} {head : Nat} {nodes : List Nat} (long : head < 4294967296)
    (linked : Linked (fun d => h.get32 d 0) 0 head nodes) : ∀ d ∈ nodes, d < 4294967296 := by
  induction nodes generalizing head with
  | nil => exact fun d member => absurd member List.not_mem_nil
  | cons first rest ih =>
    obtain ⟨rfl, -, onward⟩ := linked
    intro d member
    rcases List.mem_cons.mp member with rfl | later
    · exact long
    · exact ih (Heap.get32_lt _ _ _) onward d later

/-- After any run from an empty table and a linked pool, indexes and descriptors in use correspond one to
one, numbers are right and the rest of the pool is free; F$AllPD takes the lowest free index, F$RetPD undoes
it, F$FindPD finds what is in use, and a failing call changes nothing. -/
theorem block_table_consistent (t : BlockTable) (placed : t.addr ≠ 0) (long : t.free < 4294967296)
    (empty : ∀ idx, 0 < idx → idx ≤ t.maxIndex → t.entry idx = 0) (pool : List Nat)
    (linked : Linked (fun d => t.descs.get32 d 0) 0 t.free pool) (calls : List Call) (t' : BlockTable)
    (ran : run step t calls = some t') :
    ∃ free, Consistent pool t' free ∧
      (∀ idx, LowestFree t' idx → t'.free ≠ 0 → ∃ given back,
        t'.procAllPD = (.ok (t'.free, idx), given) ∧ Allocated given idx t'.free ∧ given.procRetPD idx = (.ok (), back) ∧
        back.table = t'.table ∧ back.free = t'.free ∧ Linked (fun d => back.descs.get32 d 0) 0 back.free free) ∧
      (∀ d idx, t'.procAllPD.1 = .ok (d, idx) → LowestFree t' idx ∧ t'.free ≠ 0 ∧ d = t'.free) ∧
      (∀ num d, t'.procFindPD num = .ok d ↔ Allocated t' num d) ∧
      ∀ call, (answer t' call).1 = false → (answer t' call).2 = t' := by
  have none (idx d : Nat) : ¬ Allocated t idx d := by
    rintro ⟨pos, inside, held, live⟩
    exact live (held.symm.trans (empty idx pos inside))
  have start : Consistent pool t pool := by
    refine ⟨linked, fun d => ⟨Or.inl, ?_⟩, fun d _ idx => none idx d, fun idx idx' d held => absurd held (none idx d),
      fun idx d held => absurd held (none idx d)⟩
    rintro (member | ⟨idx, held⟩)
    · exact member
    · exact absurd held (none idx d)
  have fits : ∀ d ∈ pool, d < 4294967296 := linked_lt long linked
  obtain ⟨placed', long', free, consistent⟩ : Kept pool t' :=
    run_invariant (fun t call t' kept _ stepped => step_kept fits kept stepped) ⟨placed, long, pool, start⟩
      (runMeets_of_forall (fun _ _ => trivial) t calls) ran
  refine ⟨free, consistent, fun idx lowest live => ?_, fun d idx done => ?_, fun num d => procFindPD_eq_ok placed',
    fun call => answer_failed⟩
  · have found := lowestFree_iff.mp lowest
    have member : t'.free ∈ pool := by
      obtain ⟨rest, parts, -⟩ := given_consistent fits consistent found live
      exact (consistent.known t'.free).mpr (Or.inl (parts ▸ List.mem_cons_self))
    obtain ⟨back, returned, table, head, list⟩ := given_back fits placed' consistent found live
    refine ⟨t'.given idx, back, ?_, ?_, returned, table, head, list⟩
    · rcases procAllPD_cases t' with ⟨code, -, null | full | exhausted⟩ | ⟨idx', found', -, -, done⟩
      · exact absurd null placed'
      · rw [found] at full
        cases full
      · exact absurd exhausted live
      · obtain rfl := Option.some.inj (found.symm.trans found')
        exact done
    · exact (given_allocated found live (fits _ member) idx _).mpr (Or.inl ⟨rfl, rfl⟩)
  · rcases procAllPD_cases t' with ⟨code, failed, -⟩ | ⟨idx', found, live, -, success⟩
    · rw [failed] at done
      cases done
    · rw [success] at done
      obtain ⟨rfl, rfl⟩ := Prod.mk.inj (Except.ok.inj done)
      exact ⟨lowestFree_iff.mpr found, live, rfl⟩

end

/-- A table for two descriptors and a pool of two. -/
def small : BlockTable :=
  { addr := 0x8000, table := fun x => if x = 1 then 2 else 0, free := 0x1000
    descs := Heap.set32 (fun _ _ => 0) 0x1000 0 0x1100 }

/-- The lowest index is taken again after it was given back. -/
theorem block_table_consistent_small :
    ∃ t', run step small [.allPD, .allPD, .retPD 1] = some t' ∧
      ∃ given, t'.procAllPD = (.ok (t'.free, 1), given) ∧ Allocated given 1 t'.free := by
  have empty : ∀ idx, 0 < idx → idx ≤ small.maxIndex → small.entry idx = 0 := by
    intro idx pos inside
    have two : small.maxIndex = 2 := by decide
    rw [two] at inside
    interval_cases idx <;> decide
  have linked : Linked (fun d => small.descs.get32 d 0) 0 small.free [0x1000, 0x1100] :=
    ⟨rfl, by decide, by decide, by decide, show small.descs.get32 0x1100 0 = 0 by decide⟩
  obtain ⟨free, -, takes, -⟩ := block_table_consistent small (by decide) (by decide) empty _ linked
    [.allPD, .allPD, .retPD 1] _ rfl
  refine ⟨_, rfl, ?_⟩
  obtain ⟨given, back, done, held, -⟩ := takes 1 ⟨by decide, by decide, by decide, fun i pos low => by omega⟩
    (by decide)
  exact ⟨given, done, held⟩

end Pd

end Q9OS

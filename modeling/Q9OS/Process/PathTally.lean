import Mathlib.Tactic
import Q9OS.Lib.Cells
import Q9OS.Memory.Tables
import Q9OS.Process.Paths

/-!
# Users of the path pool

A table whose cells name descriptors of the pool: every descriptor counts the
cells that name it, and those that no cell names are on the free list.
-/

namespace Q9OS

open Heap

namespace PathPool

/-- The use count of descriptor `n`. -/
def refs (t : PathPool) (n : Nat) : Nat := t.descs.get16 (t.descAddr n) ref

/-- The link of a free descriptor. -/
def nextFree (t : PathPool) (d : Nat) : Nat := t.descs.get32 d 0

/-- Numbers of the descriptors of a pool. -/
def Numbered (count n : Nat) : Prop := 3 ≤ n ∧ n < 3 + count

/-- The pool lies in the address space. -/
structure Placed (t : PathPool) (count : Nat) : Prop where
  base : 0 < t.base
  fits : t.base + count * descSize ≤ 4294967296

/-- The free list holds the descriptors with a property. -/
def FreeAre (t : PathPool) (count : Nat) (unused : Nat → Prop) : Prop :=
  ∃ free, Linked t.nextFree 0 t.free free ∧ ∀ a, a ∈ free ↔ ∃ n, Numbered count n ∧ a = t.descAddr n ∧ unused n

variable {t : PathPool} {count n v : Nat}

theorem descAddr_inj {m : Nat} (low : 3 ≤ m) (low' : 3 ≤ n) (same : t.descAddr m = t.descAddr n) : m = n := by
  unfold descAddr descSize at same
  omega

theorem Placed.congr {t' : PathPool} (placed : t.Placed count) (base : t'.base = t.base) : t'.Placed count :=
  ⟨base.symm ▸ placed.base, base.symm ▸ placed.fits⟩

theorem Placed.addr_lt (placed : t.Placed count) (here : Numbered count n) : t.descAddr n < 4294967296 := by
  have fits := placed.fits
  unfold Numbered at here
  unfold descAddr descSize at *
  omega

theorem Placed.addr_pos (placed : t.Placed count) : t.descAddr n ≠ 0 := by
  have base := placed.base
  unfold descAddr
  omega

theorem FreeAre.head_lt {unused : Nat → Prop} (placed : t.Placed count) (free : t.FreeAre count unused) :
    t.free < 4294967296 := by
  obtain ⟨l, linked, members⟩ := free
  cases l with
  | nil =>
    have none : t.free = 0 := linked
    omega
  | cons d l =>
    obtain ⟨head, -, -⟩ := linked
    obtain ⟨n, here, same, -⟩ := (members d).mp (List.mem_cons_self ..)
    rw [head, same]
    exact placed.addr_lt here

/-! ### Use counts -/

def setRefs (t : PathPool) (v c : Nat) : PathPool := { t with descs := t.descs.set16 (t.descAddr v) ref c }

theorem addRef_eq (low : 3 ≤ v) (high : v < 0x8000) : t.addRef v = t.setRefs v (t.refs v + 1) := if_pos ⟨low, high⟩

theorem dropRef_eq (low : 3 ≤ v) (high : v < 0x8000) : t.dropRef v =
    if t.refs v - 1 = 0 then (t.setRefs v (t.refs v - 1)).pathPoolFree (t.descAddr v) else t.setRefs v (t.refs v - 1) := by
  unfold dropRef
  rw [if_neg (by omega), if_neg (by omega)]
  rfl

theorem refs_lt (t : PathPool) (n : Nat) : t.refs n < 65536 := Heap.get16_lt _ _ _

theorem refs_setRefs {c : Nat} (fits : c < 65536) : (t.setRefs v c).refs v = c :=
  (get16_set16 _ _ _ _).trans (Nat.mod_eq_of_lt fits)

theorem refs_setRefs_other {c : Nat} (low : 3 ≤ n) (low' : 3 ≤ v) (other : n ≠ v) : (t.setRefs v c).refs n = t.refs n :=
  congrArg (fun m => Mem.getU16 m ref) (set16_block _ _ _ (fun equal => other (descAddr_inj low low' equal)))

theorem num_setRefs {c : Nat} (n : Nat) :
    (t.setRefs v c).descs.get16 ((t.setRefs v c).descAddr n) num = t.descs.get16 (t.descAddr n) num :=
  get16_set16_off _ _ _ _ (by decide)

theorem nextFree_setRefs {c : Nat} (d : Nat) : (t.setRefs v c).nextFree d = t.nextFree d :=
  get32_set16_off _ _ _ _ (by decide)

/-! ### The free list -/

theorem FreeAre.congr {unused unused' : Nat → Prop} (free : t.FreeAre count unused)
    (same : ∀ n, Numbered count n → (unused n ↔ unused' n)) : t.FreeAre count unused' := by
  obtain ⟨l, linked, members⟩ := free
  refine ⟨l, linked, fun a => (members a).trans (exists_congr (fun n => ?_))⟩
  exact and_congr_right (fun here => and_congr_right (fun _ => same n here))

/-- A descriptor that was not free goes to the head of the list. -/
theorem FreeAre.push {unused : Nat → Prop} (free : t.FreeAre count unused) (placed : t.Placed count) (here : Numbered count v)
    (busy : ¬ unused v) : (t.pathPoolFree (t.descAddr v)).FreeAre count (fun n => n = v ∨ unused n) := by
  have short := free.head_lt placed
  obtain ⟨l, linked, members⟩ := free
  have fresh : t.descAddr v ∉ l := by
    intro member
    obtain ⟨n, there, equal, idle⟩ := (members _).mp member
    rw [← descAddr_inj here.1 there.1 equal] at idle
    exact busy idle
  refine ⟨t.descAddr v :: l, ⟨rfl, placed.addr_pos, ?_⟩, fun d => ?_⟩
  · have link : (t.pathPoolFree (t.descAddr v)).nextFree (t.descAddr v) = t.free := get32_set32_of_lt _ _ _ short
    rw [link]
    refine linked.congr (fun d member => ?_)
    exact get32_set32_block _ _ _ _ (fun equal => fresh (equal ▸ member))
  · rw [List.mem_cons, members]
    constructor
    · rintro (rfl | ⟨n, there, rfl, idle⟩)
      · exact ⟨v, here, rfl, Or.inl rfl⟩
      · exact ⟨n, there, rfl, Or.inr idle⟩
    · rintro ⟨n, there, rfl, rfl | idle⟩
      · exact Or.inl rfl
      · exact Or.inr ⟨n, there, rfl, idle⟩

/-- A cell of row `c.1` stands for path number `c.2`. -/
structure Tallied (t : PathPool) (count : Nat) (cells : Finset (Nat × Nat)) (f : Nat × Nat → Nat) : Prop where
  placed : t.Placed count
  /-- No number of a descriptor has bit 15. -/
  few : count ≤ 32765
  entries : ∀ c ∈ cells, f c ≠ 0 → 3 ≤ c.2 ∧ Numbered count (f c)
  apart : ∀ c ∈ cells, ∀ c' ∈ cells, c.1 = c'.1 → f c = f c' → f c ≠ 0 → c = c'
  refs : ∀ n, Numbered count n → t.refs n = holders cells f n
  nums : ∀ n, Numbered count n → holders cells f n ≠ 0 → t.descs.get16 (t.descAddr n) num = n
  free : t.FreeAre count (fun n => holders cells f n = 0)

namespace Tallied

variable {cells : Finset (Nat × Nat)} {f f' : Nat × Nat → Nat} {a : Nat × Nat}

theorem congr (tallied : Tallied t count cells f) (same : ∀ c ∈ cells, f' c = f c) : Tallied t count cells f' where
  placed := tallied.placed
  few := tallied.few
  entries c inside some := by
    rw [same c inside] at some ⊢
    exact tallied.entries c inside some
  apart c inside c' inside' row equal some := by
    rw [same c inside, same c' inside'] at equal
    rw [same c inside] at some
    exact tallied.apart c inside c' inside' row equal some
  refs n here := by
    rw [holders_congr same]
    exact tallied.refs n here
  nums n here used := by
    rw [holders_congr same] at used
    exact tallied.nums n here used
  free := tallied.free.congr (fun n _ => by rw [holders_congr same])

theorem used (tallied : Tallied t count cells f) (inside : a ∈ cells) (some : f a ≠ 0) :
    Numbered count (f a) ∧ 0 < holders cells f (f a) :=
  ⟨(tallied.entries a inside some).2, holders_pos inside rfl⟩

/-- The cells of a table after one that was empty names `v`. -/
theorem apart_fill (tallied : Tallied t count cells f) (same : ∀ c ∈ cells, c ≠ a → f' c = f c)
    (new : f' a = v) (other : ∀ c ∈ cells, c.1 = a.1 → f c ≠ v) : ∀ c ∈ cells, ∀ c' ∈ cells, c.1 = c'.1 → f' c = f' c' →
      f' c ≠ 0 → c = c' := by
  intro c inside c' inside' row equal some
  by_cases here : c = a
  · subst here
    by_contra differ
    rw [new, same c' inside' (Ne.symm differ)] at equal
    exact other c' inside' row.symm equal.symm
  · by_cases here' : c' = a
    · subst here'
      rw [new, same c inside here] at equal
      exact absurd equal (other c inside row)
    · rw [same c inside here, same c' inside' here'] at equal
      rw [same c inside here] at some
      exact tallied.apart c inside c' inside' row equal some

/-- One more cell names a descriptor in use. -/
theorem addRef (tallied : Tallied t count cells f) (rows : (cells.image Prod.fst).card < 65536) (inside : a ∈ cells)
    (same : ∀ c ∈ cells, c ≠ a → f' c = f c) (old : f a = 0) (new : f' a = v) (number : 3 ≤ a.2) (here : Numbered count v)
    (used : 0 < holders cells f v) (other : ∀ c ∈ cells, c.1 = a.1 → f c ≠ v) : Tallied (t.addRef v) count cells f' := by
  obtain ⟨low, high⟩ := id here
  have fewer := tallied.few
  have apart := tallied.apart_fill same new other
  have gained : holders cells f' v = holders cells f v + 1 := holders_gain inside same (by omega) new
  have kept : ∀ n, Numbered count n → n ≠ v → holders cells f' n = holders cells f n := by
    intro n there differ
    have pos := there.1
    exact holders_same inside same (by omega) (by omega)
  have bound : holders cells f' v ≤ (cells.image Prod.fst).card := by
    refine holders_le_rows Prod.fst (fun c member c' member' row one two => ?_)
    exact apart c member c' member' row (one.trans two.symm) (by omega)
  have users := tallied.refs v here
  rw [addRef_eq low (by omega)]
  refine ⟨tallied.placed.congr rfl, fewer, ?_, apart, ?_, ?_, ?_⟩
  · intro c there some
    by_cases own : c = a
    · rw [own, new]
      exact ⟨number, here⟩
    · rw [same c there own] at some ⊢
      exact tallied.entries c there some
  · intro n there
    by_cases own : n = v
    · rw [own, refs_setRefs (by omega), gained, users]
    · rw [kept n there own, ← tallied.refs n there]
      exact refs_setRefs_other there.1 low own
  · intro n there live
    refine (num_setRefs _).trans (tallied.nums n there ?_)
    by_cases own : n = v
    · rw [own]
      omega
    · rwa [← kept n there own]
  · obtain ⟨l, linked, members⟩ := tallied.free
    refine ⟨l, linked.congr (fun d _ => nextFree_setRefs d), fun d => (members d).trans (exists_congr (fun n => ?_))⟩
    refine and_congr_right (fun there => and_congr_right (fun _ => ?_))
    show holders cells f n = 0 ↔ holders cells f' n = 0
    by_cases own : n = v
    · rw [own]
      omega
    · rw [kept n there own]

/-- A cell gives its descriptor up. -/
theorem dropRef (tallied : Tallied t count cells f) (inside : a ∈ cells)
    (same : ∀ c ∈ cells, c ≠ a → f' c = f c) (old : f a = v) (some : v ≠ 0) (new : f' a = 0) :
    Tallied (t.dropRef v) count cells f' := by
  obtain ⟨here, users⟩ := tallied.used inside (old ▸ some)
  rw [old] at here users
  obtain ⟨low, high⟩ := id here
  have fewer := tallied.few
  have lost : holders cells f' v = holders cells f v - 1 := holders_lose inside same old (by omega)
  have kept : ∀ n, Numbered count n → n ≠ v → holders cells f' n = holders cells f n := by
    intro n there differ
    have pos := there.1
    exact holders_same inside same (by omega) (by omega)
  have named := tallied.refs v here
  have fits := refs_lt t v
  have filled : ∀ c ∈ cells, f' c ≠ 0 → f' c = f c := by
    intro c there live
    exact same c there (fun own => live (own ▸ new))
  have entries : ∀ c ∈ cells, f' c ≠ 0 → 3 ≤ c.2 ∧ Numbered count (f' c) := by
    intro c there live
    have kept := filled c there live
    rw [kept] at live ⊢
    exact tallied.entries c there live
  have apart : ∀ c ∈ cells, ∀ c' ∈ cells, c.1 = c'.1 → f' c = f' c' → f' c ≠ 0 → c = c' := by
    intro c there c' there' row equal live
    have kept := filled c there live
    have kept' := filled c' there' (fun zero => live (equal.trans zero))
    rw [kept, kept'] at equal
    rw [kept] at live
    exact tallied.apart c there c' there' row equal live
  have refs : ∀ n, Numbered count n → (t.setRefs v (t.refs v - 1)).refs n = holders cells f' n := by
    intro n there
    by_cases own : n = v
    · rw [own, refs_setRefs (by omega), lost, named]
    · rw [kept n there own, ← tallied.refs n there]
      exact refs_setRefs_other there.1 low own
  have free : (t.setRefs v (t.refs v - 1)).FreeAre count (fun n => holders cells f n = 0) := by
    obtain ⟨l, linked, members⟩ := tallied.free
    exact ⟨l, linked.congr (fun d _ => nextFree_setRefs d), members⟩
  rw [dropRef_eq low (by omega)]
  by_cases last : t.refs v - 1 = 0
  · -- the last user
    rw [if_pos last]
    refine ⟨tallied.placed.congr rfl, fewer, entries, apart, fun n there => ?_, fun n there live => ?_, ?_⟩
    · refine Eq.trans ?_ (refs n there)
      exact get16_set32_off _ _ _ _ (by decide)
    · have own : n ≠ v := fun own => by rw [own] at live; omega
      rw [kept n there own] at live
      refine Eq.trans ?_ ((num_setRefs (t := t) (v := v) (c := t.refs v - 1) n).trans (tallied.nums n there live))
      exact congrArg (fun m => Mem.getU16 m num) (set32_block _ _ _ (fun equal => own (descAddr_inj there.1 low equal)))
    · refine (free.push (t := t.setRefs v (t.refs v - 1)) (tallied.placed.congr rfl) here (by omega)).congr (fun n there => ?_)
      show n = v ∨ holders cells f n = 0 ↔ holders cells f' n = 0
      by_cases own : n = v
      · rw [own]
        omega
      · rw [kept n there own]
        tauto
  · rw [if_neg last]
    refine ⟨tallied.placed.congr rfl, fewer, entries, apart, refs, fun n there live => ?_, free.congr (fun n there => ?_)⟩
    · refine (num_setRefs n).trans (tallied.nums n there ?_)
      by_cases own : n = v
      · rw [own]
        omega
      · rwa [← kept n there own]
    · show holders cells f n = 0 ↔ holders cells f' n = 0
      by_cases own : n = v
      · rw [own]
        omega
      · rw [kept n there own]

/-- The head of the free list is a descriptor that no cell names. -/
theorem head (tallied : Tallied t count cells f) (some : t.free ≠ 0) :
    ∃ n, Numbered count n ∧ t.free = t.descAddr n ∧ holders cells f n = 0 := by
  obtain ⟨l, linked, members⟩ := tallied.free
  cases l with
  | nil => exact absurd linked some
  | cons d l =>
    obtain ⟨rfl, -, -⟩ := linked
    exact (members _).mp (List.mem_cons_self ..)

/-- A descriptor taken and put back at once. -/
theorem restored (tallied : Tallied t count cells f) (some : t.free ≠ 0) : Tallied (t.pathPoolAlloc.2.pathPoolFree t.free) count cells f := by
  obtain ⟨n, here, place, unused⟩ := tallied.head some
  have taken : t.pathPoolAlloc.2 = { t with free := t.nextFree t.free } := congrArg Prod.snd (if_neg some)
  rw [taken]
  have others : ∀ d, d ≠ t.free → (PathPool.pathPoolFree { t with free := t.nextFree t.free } t.free).descs d = t.descs d :=
    fun d differ => set32_block _ _ _ differ
  have next : (PathPool.pathPoolFree { t with free := t.nextFree t.free } t.free).nextFree = t.nextFree := by
    funext d
    by_cases own : d = t.free
    · rw [own]
      exact get32_set32_of_lt _ _ _ (Heap.get32_lt _ _ _)
    · exact congrArg (fun m => Mem.getU32 m 0) (others d own)
  refine ⟨tallied.placed.congr rfl, tallied.few, tallied.entries, tallied.apart, ?_, ?_, ?_⟩
  · intro m there
    rw [← tallied.refs m there]
    exact get16_set32_off _ _ _ _ (by decide)
  · intro m there live
    have differ : t.descAddr m ≠ t.free := by
      intro equal
      rw [place] at equal
      rw [descAddr_inj there.1 here.1 equal] at live
      exact live unused
    exact (congrArg (fun m => Mem.getU16 m num) (others _ differ)).trans (tallied.nums m there live)
  · obtain ⟨l, linked, members⟩ := tallied.free
    exact ⟨l, by rw [next]; exact linked, members⟩

/-- A descriptor from the free list gets its first cell. -/
theorem enter (tallied : Tallied t count cells f) (inside : a ∈ cells) (same : ∀ c ∈ cells, c ≠ a → f' c = f c)
    (old : f a = 0) (new : f' a = n) (number : 3 ≤ a.2) (some : t.free ≠ 0) (here : Numbered count n)
    (place : t.free = t.descAddr n) (unused : holders cells f n = 0) (kind object mode : Nat) :
    Tallied (t.pathPoolAlloc.2.enter t.free n kind object mode) count cells f' := by
  have taken : t.pathPoolAlloc.2 = { t with free := t.nextFree t.free } := congrArg Prod.snd (if_neg some)
  rw [taken]
  have fewer := tallied.few
  have gained : holders cells f' n = 1 := by
    have pos := here.1
    rw [holders_gain inside same (by omega) new, unused]
  have kept : ∀ m, Numbered count m → m ≠ n → holders cells f' m = holders cells f m := by
    intro m there differ
    have pos := there.1
    exact holders_same inside same (by omega) (by omega)
  have others : ∀ d, d ≠ t.free →
      (PathPool.enter { t with free := t.nextFree t.free } t.free n kind object mode).descs d = t.descs d := by
    intro d differ
    unfold PathPool.enter
    dsimp only
    rw [set8_block _ _ _ differ, set32_block _ _ _ differ, set16_block _ _ _ differ, set16_block _ _ _ differ,
      set16_block _ _ _ differ, set16_block _ _ _ differ]
  refine ⟨tallied.placed.congr rfl, fewer, ?_, ?_, ?_, ?_, ?_⟩
  · intro c there live
    by_cases own : c = a
    · rw [own, new]
      exact ⟨number, here⟩
    · rw [same c there own] at live ⊢
      exact tallied.entries c there live
  · exact tallied.apart_fill same new (fun c there _ => holders_eq_zero.mp unused c there)
  · intro m there
    by_cases own : m = n
    · rw [own, gained]
      show Heap.get16 _ (t.descAddr n) ref = 1
      rw [← place]
      unfold PathPool.enter
      dsimp only
      rw [get16_set8_off _ _ _ _ (by decide), get16_set32_off _ _ _ _ (by decide), get16_set16]
    · have differ : t.descAddr m ≠ t.free := fun equal => own (descAddr_inj there.1 here.1 (equal.trans place))
      rw [kept m there own, ← tallied.refs m there]
      exact congrArg (fun m => Mem.getU16 m ref) (others _ differ)
  · intro m there live
    by_cases own : m = n
    · rw [own]
      show Heap.get16 _ (t.descAddr n) num = n
      rw [← place]
      unfold PathPool.enter
      dsimp only
      rw [get16_set8_off _ _ _ _ (by decide), get16_set32_off _ _ _ _ (by decide), get16_set16_off _ _ _ _ (by decide),
        get16_set16_off _ _ _ _ (by decide), get16_set16_off _ _ _ _ (by decide), get16_set16]
      have high := here.2
      exact Nat.mod_eq_of_lt (by omega)
    · have differ : t.descAddr m ≠ t.free := fun equal => own (descAddr_inj there.1 here.1 (equal.trans place))
      rw [kept m there own] at live
      exact (congrArg (fun m => Mem.getU16 m num) (others _ differ)).trans (tallied.nums m there live)
  · obtain ⟨l, linked, members⟩ := tallied.free
    cases l with
    | nil => exact absurd linked some
    | cons d l =>
      have once := List.nodup_cons.mp linked.nodup
      obtain ⟨rfl, -, onward⟩ := linked
      refine ⟨l, onward.congr (fun d member => ?_), fun d => ?_⟩
      · have differ : d ≠ t.free := fun equal => once.1 (equal ▸ member)
        exact congrArg (fun m => Mem.getU32 m 0) (others d differ)
      · have whole := members d
        rw [List.mem_cons] at whole
        constructor
        · intro member
          obtain ⟨m, there, rfl, unused'⟩ := whole.mp (Or.inr member)
          have own : m ≠ n := fun own => once.1 (by rw [place, ← own]; exact member)
          exact ⟨m, there, rfl, (kept m there own).trans unused'⟩
        · rintro ⟨m, there, rfl, unused'⟩
          have own : m ≠ n := fun own => by rw [own, gained] at unused'; exact one_ne_zero unused'
          rcases whole.mpr ⟨m, there, rfl, (kept m there own).symm.trans unused'⟩ with first | member
          · exact absurd (descAddr_inj there.1 here.1 (first.trans place)) own
          · exact member

end Tallied

/-! ### The pool at boot -/

/-- The pool as `Q9K_SetupTables` leaves it: the rest of a descriptor is what the memory held. -/
def boot (h : Heap) (base count : Nat) : PathPool where
  base := base
  free := (buildFreeList h base descSize count).1
  descs := (buildFreeList h base descSize count).2
  mgrRef _ := 0

theorem boot_full (h : Heap) {base : Nat} (pos : 0 < base) (fits : base + count * descSize ≤ 4294967296) :
    (boot h base count).FreeAre count (fun _ => True) := by
  refine ⟨poolSlots descSize count base, buildFreeList_linked h (by decide) pos (by rwa [Nat.mul_comm]), fun a => ?_⟩
  rw [mem_poolSlots]
  constructor
  · rintro ⟨i, few, rfl⟩
    exact ⟨i + 3, ⟨by omega, by omega⟩, by unfold descAddr; rw [Nat.add_sub_cancel]; rfl, trivial⟩
  · rintro ⟨n, ⟨low, high⟩, rfl, -⟩
    exact ⟨n - 3, by omega, rfl⟩

theorem boot_refs (h : Heap) (base n : Nat) : (boot h base count).refs n = h.get16 (base + (n - 3) * descSize) ref :=
  (buildFreeList_agree h base descSize count).get16 _ (fun x low _ => by unfold ref at low; omega)

theorem get16_zeroed (b o : Nat) : Heap.get16 (fun _ _ => 0) b o = 0 := by
  simp [Heap.get16, Mem.getU16, Mem.getU8]

theorem get32_zeroed (b o : Nat) : Heap.get32 (fun _ _ => 0) b o = 0 := by
  simp [Heap.get32, Mem.getU32, Mem.getU16, Mem.getU8]

/-- In cleared memory no descriptor counts a user. -/
theorem boot_cleared (base n : Nat) : (boot (fun _ _ => 0) base count).refs n = 0 := by
  rw [boot_refs, get16_zeroed]

end PathPool

end Q9OS

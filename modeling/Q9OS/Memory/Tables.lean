import Mathlib.Tactic
import Q9OS.Lib.Chain
import Q9OS.Lib.Heap

/-!
# Pools

`q9kernel_tables.c` cuts one block into pools of equal slots and links the
slots of each pool into a free list through their first long word.
-/

namespace Q9OS

/-- The slots of a pool. -/
def poolSlots (slotSize : Nat) : Nat → Nat → List Nat
  | 0, _ => []
  | n + 1, base => base :: poolSlots slotSize n (base + slotSize)

def linkSlots (h : Heap) (slotSize : Nat) : Nat → Nat → Heap
  | 0, slot => h.set32 slot 0 0
  | n + 1, slot => linkSlots (h.set32 slot 0 (slot + slotSize)) slotSize n (slot + slotSize)

/-- The head of the free list and the memory with its links. -/
def buildFreeList (h : Heap) (base slotSize count : Nat) : Nat × Heap :=
  if count = 0 then (0, h) else (base, linkSlots h slotSize (count - 1) base)

theorem poolSlots_length (slotSize n base : Nat) : (poolSlots slotSize n base).length = n := by
  induction n generalizing base with
  | zero => rfl
  | succ n ih => rw [poolSlots, List.length_cons, ih]

theorem poolSlots_bounds {slotSize n base a : Nat} (member : a ∈ poolSlots slotSize n base) :
    base ≤ a ∧ (0 < slotSize → a < base + slotSize * n) := by
  induction n generalizing base with
  | zero => cases member
  | succ n ih =>
    rw [poolSlots] at member
    rcases List.mem_cons.mp member with rfl | later
    · refine ⟨le_refl _, fun pos => ?_⟩
      rw [Nat.mul_succ]
      omega
    · obtain ⟨low, high⟩ := ih later
      refine ⟨by omega, fun pos => ?_⟩
      have bound := high pos
      rw [Nat.mul_succ]
      omega

theorem mem_poolSlots {slotSize n base a : Nat} : a ∈ poolSlots slotSize n base ↔ ∃ i < n, a = base + i * slotSize := by
  induction n generalizing base with
  | zero => simp [poolSlots]
  | succ n ih =>
    rw [poolSlots, List.mem_cons, ih]
    constructor
    · rintro (rfl | ⟨i, few, rfl⟩)
      · exact ⟨0, by omega, by simp⟩
      · exact ⟨i + 1, by omega, by rw [Nat.succ_mul]; omega⟩
    · rintro ⟨i, few, rfl⟩
      cases i with
      | zero => exact Or.inl (by simp)
      | succ i => exact Or.inr ⟨i, by omega, by rw [Nat.succ_mul]; omega⟩

theorem linkSlots_agree (h : Heap) (slotSize n slot : Nat) : Heap.Agree (fun o => 4 ≤ o) h (linkSlots h slotSize n slot) := by
  induction n generalizing h slot with
  | zero => exact Heap.Agree.rfl.set32 _ _ (fun x here => by omega)
  | succ n ih => exact (Heap.Agree.rfl.set32 _ _ (fun x here => by omega)).trans (ih _ _)

theorem linkSlots_before {slotSize n slot a : Nat} (h : Heap) (before : a < slot) :
    linkSlots h slotSize n slot a = h a := by
  induction n generalizing h slot with
  | zero => exact Heap.set32_block _ _ _ (by omega)
  | succ n ih => rw [linkSlots, ih _ (by omega), Heap.set32_block _ _ _ (by omega)]

theorem linkSlots_linked {slotSize n base : Nat} (h : Heap) (pos : 0 < slotSize) (placed : 0 < base)
    (fits : base + slotSize * (n + 1) ≤ 4294967296) :
    Linked (fun a => (linkSlots h slotSize n base).get32 a 0) 0 base (poolSlots slotSize (n + 1) base) := by
  rw [Nat.mul_succ] at fits
  induction n generalizing h base with
  | zero => exact ⟨rfl, by omega, Heap.get32_set32 ..⟩
  | succ n ih =>
    rw [Nat.mul_succ] at fits
    refine ⟨rfl, by omega, ?_⟩
    have link : (linkSlots h slotSize (n + 1) base).get32 base 0 = base + slotSize := by
      rw [linkSlots]
      unfold Heap.get32
      rw [linkSlots_before _ (by omega)]
      exact Heap.get32_set32_of_lt _ _ _ (by omega)
    show Linked _ 0 ((linkSlots h slotSize (n + 1) base).get32 base 0) _
    rw [link]
    exact ih _ (by omega) (by omega)

/-- A new free list holds every slot of its pool. -/
theorem buildFreeList_linked {base slotSize count : Nat} (h : Heap) (pos : 0 < slotSize) (placed : 0 < base)
    (fits : base + slotSize * count ≤ 4294967296) :
    Linked (fun a => (buildFreeList h base slotSize count).2.get32 a 0) 0 (buildFreeList h base slotSize count).1
      (poolSlots slotSize count base) := by
  unfold buildFreeList
  cases count with
  | zero => rfl
  | succ n => exact linkSlots_linked h pos placed fits

/-- A free list is built in the first long word of each slot. -/
theorem buildFreeList_agree (h : Heap) (base slotSize count : Nat) :
    Heap.Agree (fun o => 4 ≤ o) h (buildFreeList h base slotSize count).2 := by
  unfold buildFreeList
  split
  · exact Heap.Agree.rfl
  · exact linkSlots_agree h slotSize _ base

end Q9OS

import Mathlib.Tactic
import Q9OS.Lib.Chain
import Q9OS.Process.End

/-!
# Slots of processes

The free list of the process pool, which is linked through P$ID, and what taking
and giving back a slot does to it.
-/

namespace Q9OS

open Heap

namespace Kernel

def IsSlot (k : Kernel) (d : Nat) : Prop := ∃ i < k.poolCount, d = k.slotAddr i

/-- The pool lies in the address space, and its count is a word. -/
structure Placed (k : Kernel) : Prop where
  base : 0 < k.poolBase
  fits : k.poolBase + k.poolCount * Desc.size ≤ 4294967296
  few : k.poolCount < 65536

def nextSlot (k : Kernel) (d : Nat) : Nat := k.desc.get32 d Desc.id

/-- A slot is on the free list. -/
def Spare (k : Kernel) (d : Nat) : Prop := ∃ spare, Linked k.nextSlot 0 k.poolFree spare ∧ d ∈ spare

/-- The free slots; a free slot has no parent. -/
structure Spares (k : Kernel) (spare : List Nat) : Prop where
  linked : Linked k.nextSlot 0 k.poolFree spare
  slots : ∀ d ∈ spare, k.IsSlot d
  orphans : ∀ d ∈ spare, k.desc.get32 d Desc.parent = 0

variable {k k' : Kernel} {spare : List Nat} {d : Nat}

theorem slotAddr_inj {i j : Nat} (same : k.slotAddr i = k.slotAddr j) : i = j := by
  unfold slotAddr Desc.size at same
  omega

theorem Placed.congr (placed : k.Placed) (base : k'.poolBase = k.poolBase) (count : k'.poolCount = k.poolCount) : k'.Placed :=
  ⟨by rw [base]; exact placed.base, by rw [base, count]; exact placed.fits, by rw [count]; exact placed.few⟩

theorem IsSlot.pos (placed : k.Placed) (slot : k.IsSlot d) : d ≠ 0 := by
  obtain ⟨i, -, rfl⟩ := slot
  have base := placed.base
  unfold slotAddr
  omega

theorem IsSlot.lt (placed : k.Placed) (slot : k.IsSlot d) : d < 4294967296 := by
  obtain ⟨i, few, rfl⟩ := slot
  have fits := placed.fits
  unfold slotAddr Desc.size at *
  omega

theorem isSlot_congr (base : k'.poolBase = k.poolBase) (count : k'.poolCount = k.poolCount) : k'.IsSlot d ↔ k.IsSlot d := by
  unfold IsSlot slotAddr
  rw [base, count]

/-- The slot behind the number of a slot. -/
theorem slotAddr_slotPid (slot : k.IsSlot d) : k.slotAddr (k.slotPid d - 1) = d := by
  obtain ⟨i, -, rfl⟩ := slot
  have size : Desc.size = 1024 := rfl
  unfold slotPid slotAddr
  rw [size, Nat.add_sub_cancel_left, Nat.mul_div_cancel _ (by decide), Nat.add_sub_cancel]

namespace Spares

theorem mem_iff (spares : k.Spares spare) : k.Spare d ↔ d ∈ spare := by
  constructor
  · rintro ⟨other, linked, member⟩
    rwa [linked.unique spares.linked] at member
  · exact fun member => ⟨spare, spares.linked, member⟩

theorem head_lt (placed : k.Placed) (spares : k.Spares spare) : k.poolFree < 4294967296 := by
  obtain ⟨linked, slots, -⟩ := spares
  cases spare with
  | nil =>
    have none : k.poolFree = 0 := linked
    omega
  | cons d spare =>
    rw [linked.1]
    exact (slots d (List.mem_cons_self ..)).lt placed

theorem congr (spares : k.Spares spare) (base : k'.poolBase = k.poolBase) (count : k'.poolCount = k.poolCount)
    (free : k'.poolFree = k.poolFree) (ids : ∀ d ∈ spare, k'.nextSlot d = k.nextSlot d)
    (parents : ∀ d ∈ spare, k'.desc.get32 d Desc.parent = k.desc.get32 d Desc.parent) : k'.Spares spare where
  linked := by
    rw [free]
    exact spares.linked.congr ids
  slots d member := (isSlot_congr base count).mpr (spares.slots d member)
  orphans d member := (parents d member).trans (spares.orphans d member)

/-- The first free slot is taken. -/
theorem pop (spares : k.Spares spare) (some : k.poolFree ≠ 0) :
    ∃ rest, spare = k.poolFree :: rest ∧ k.poolFree ∉ rest ∧ k.IsSlot k.poolFree ∧ k.popSlot.Spares rest := by
  cases spare with
  | nil => exact absurd spares.linked some
  | cons d rest =>
    have once := List.nodup_cons.mp spares.linked.nodup
    obtain ⟨head, -, onward⟩ := spares.linked
    refine ⟨rest, by rw [head], by rw [head]; exact once.1, ?_, ?_, ?_, ?_⟩
    · rw [head]
      exact spares.slots d (List.mem_cons_self ..)
    · show Linked _ 0 (k.desc.get32 k.poolFree Desc.id) rest
      rw [head]
      exact onward
    · exact fun e member => spares.slots e (List.mem_cons_of_mem _ member)
    · exact fun e member => spares.orphans e (List.mem_cons_of_mem _ member)

/-- A slot without a parent is put back. -/
theorem push (placed : k.Placed) (spares : k.Spares spare) (slot : k.IsSlot d) (fresh : d ∉ spare)
    (orphan : k.desc.get32 d Desc.parent = 0) : (k.procPoolAbortAlloc d).Spares (d :: spare) where
  linked := by
    refine ⟨rfl, slot.pos placed, ?_⟩
    have link : (k.procPoolAbortAlloc d).nextSlot d = k.poolFree := get32_set32_of_lt _ _ _ (spares.head_lt placed)
    rw [link]
    refine spares.linked.congr (fun e member => ?_)
    exact get32_set32_block _ _ _ _ (fun same => fresh (same ▸ member))
  slots e member := by
    rcases List.mem_cons.mp member with rfl | later
    · exact slot
    · exact spares.slots e later
  orphans e member := by
    have kept : (k.procPoolAbortAlloc d).desc.get32 e Desc.parent = k.desc.get32 e Desc.parent :=
      get32_set32_off _ _ _ _ (by decide)
    rw [kept]
    rcases List.mem_cons.mp member with rfl | later
    · exact orphan
    · exact spares.orphans e later

end Spares

end Kernel

end Q9OS

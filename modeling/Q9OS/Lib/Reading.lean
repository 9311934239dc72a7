import Mathlib.Tactic
import Q9OS.Lib.Mem

/-!
# Computations that read memory

A computation with the addresses it reads, for code that may look at a part of
the memory only.
-/

namespace Q9OS

/-- A value read from memory, and the addresses that were looked at. -/
def Reading (α : Type) := Mem → α × List Nat

namespace Reading

variable {α β : Type}

def value (r : Reading α) (m : Mem) : α := (r m).1

def reads (r : Reading α) (m : Mem) : List Nat := (r m).2

instance : Monad Reading where
  pure a := fun _ => (a, [])
  bind r f := fun m => ((f (r.value m)).value m, r.reads m ++ (f (r.value m)).reads m)

def getU8 (a : Nat) : Reading Nat := fun m => (m.getU8 a, [a])

def getU16 (a : Nat) : Reading Nat := fun m => (m.getU16 a, [a, a + 1])

def getU32 (a : Nat) : Reading Nat := fun m => (m.getU32 a, [a, a + 1, a + 2, a + 3])

/-- Only addresses with `p` are looked at. -/
def Within (p : Nat → Prop) (r : Reading α) (m : Mem) : Prop := ∀ a ∈ r.reads m, p a

variable {p q : Nat → Prop} {m : Mem} {r : Reading α} {f : α → Reading β}

@[simp] theorem value_pure (a : α) : (pure a : Reading α).value m = a := rfl

@[simp] theorem value_bind : (r >>= f).value m = (f (r.value m)).value m := rfl

@[simp] theorem value_getU8 (a : Nat) : (getU8 a).value m = m.getU8 a := rfl

@[simp] theorem value_getU16 (a : Nat) : (getU16 a).value m = m.getU16 a := rfl

@[simp] theorem value_getU32 (a : Nat) : (getU32 a).value m = m.getU32 a := rfl

theorem Within.mono (within : Within p r m) (more : ∀ a, p a → q a) : Within q r m :=
  fun a member => more a (within a member)

theorem within_pure (a : α) : Within p (pure a) m := fun _ member => absurd member List.not_mem_nil

theorem Within.bind (first : Within p r m) (rest : Within p (f (r.value m)) m) : Within p (r >>= f) m := by
  intro a member
  obtain inFirst | inRest := List.mem_append.mp member
  · exact first a inFirst
  · exact rest a inRest

theorem within_getU8 {a : Nat} (inside : p a) : Within p (getU8 a) m := by
  intro x member
  obtain rfl := List.mem_singleton.mp member
  exact inside

theorem within_getU16 {a : Nat} (inside : ∀ x, a ≤ x → x < a + 2 → p x) : Within p (getU16 a) m := by
  intro x member
  have place : x = a ∨ x = a + 1 := by simpa [reads, getU16] using member
  exact inside x (by omega) (by omega)

theorem within_getU32 {a : Nat} (inside : ∀ x, a ≤ x → x < a + 4 → p x) : Within p (getU32 a) m := by
  intro x member
  have place : x = a ∨ x = a + 1 ∨ x = a + 2 ∨ x = a + 3 := by simpa [reads, getU32] using member
  exact inside x (by omega) (by omega)

end Reading

end Q9OS

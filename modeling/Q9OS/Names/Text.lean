import Mathlib.Tactic
import Q9OS.Lib.Mem

/-!
# Texts in memory

Texts that a NUL ends.
-/

namespace Q9OS

theorem Mem.bytes_succ (m : Mem) (a n : Nat) : m.bytes a (n + 1) = m a :: m.bytes (a + 1) n := by
  rw [Nat.add_comm n 1, Mem.bytes_add]
  rfl

theorem Mem.dropLast_bytes (m : Mem) (a n : Nat) : (m.bytes a (n + 1)).dropLast = m.bytes a n := by
  rw [Mem.bytes_add]
  exact List.dropLast_concat

theorem Mem.mem_bytes {m : Mem} {a n : Nat} {b : UInt8} : b ∈ m.bytes a n ↔ ∃ k < n, m (a + k) = b := by
  simp [Mem.bytes]

/-- `s` stands at `a`, and a NUL behind it. -/
def Text (m : Mem) : Nat → List UInt8 → Prop
  | a, [] => m a = 0
  | a, c :: s => m a = c ∧ c ≠ 0 ∧ Text m (a + 1) s

namespace Text

variable {m m' : Mem} {a : Nat} {c : UInt8} {s s' : List UInt8}

@[simp] theorem nil_iff : Text m a [] ↔ m a = 0 := Iff.rfl

@[simp] theorem cons_iff : Text m a (c :: s) ↔ m a = c ∧ c ≠ 0 ∧ Text m (a + 1) s := Iff.rfl

/-- The first byte says whether the text is empty. -/
theorem getU8_zero (text : Text m a s) : m.getU8 a = 0 ↔ s = [] := by
  have zero : m.getU8 a = 0 ↔ m a = 0 := UInt8.toNat_inj (b := 0)
  rw [zero]
  cases s with
  | nil => exact iff_of_true text rfl
  | cons c s =>
    obtain ⟨here, live, -⟩ := text
    simp [here, live]

/-- There is one text at an address only. -/
theorem unique (text : Text m a s) (text' : Text m a s') : s = s' := by
  induction s generalizing a s' with
  | nil =>
    cases s' with
    | nil => rfl
    | cons d s' => exact absurd (text'.1.symm.trans text) text'.2.1
  | cons c s ih =>
    obtain ⟨rfl, live, rest⟩ := text
    cases s' with
    | nil => exact absurd text' live
    | cons d s' =>
      obtain ⟨rfl, -, rest'⟩ := text'
      rw [ih rest rest']

/-- A text from any of its places on. -/
theorem drop (text : Text m a (s ++ s')) : Text m (a + s.length) s' := by
  induction s generalizing a with
  | nil => exact text
  | cons c s ih =>
    rw [List.length_cons, show a + (s.length + 1) = a + 1 + s.length by omega]
    exact ih text.2.2

theorem bytes (text : Text m a (s ++ s')) : m.bytes a s.length = s := by
  induction s generalizing a with
  | nil => rfl
  | cons c s ih =>
    obtain ⟨here, -, rest⟩ := text
    rw [List.length_cons, Mem.bytes_succ, here, ih rest]

end Text

end Q9OS

import Mathlib.Tactic
import Q9OS.Module.Directory
import Q9OS.Names.Text

/-!
# F$PrsNam

`Q9K_ProcPrsNam` of `q9kernel_iopath.c`: the next name of a path. Bit 7 may mark
the last character of a name.
-/

namespace Q9OS

namespace PrsNam

def eBpnam : Nat := 0xD7

def isNameChar (c : Nat) : Bool :=
  if 0x41 ≤ c ∧ c ≤ 0x5A then true
  else if 0x61 ≤ c ∧ c ≤ 0x7A then true
  else if 0x30 ≤ c ∧ c ≤ 0x39 then true
  else c == 0x5F || c == 0x2E || c == 0x24

/-- The outputs, with the return value. -/
structure Result where
  ok : Bool
  nameStart : Nat
  pastName : Nat
  len : Nat
  delim : Nat
  error : Nat
  deriving DecidableEq

def skipSlashes (m : Mem) (p : Nat) : Nat → Nat → Option Nat
  | 0, _ => none
  | fuel + 1, i => if m.getU8 (p + i) = 0x2F then skipSlashes m p fuel (i + 1) else some i

def nameEnd (m : Mem) (p : Nat) : Nat → Nat → Option Nat
  | 0, _ => none
  | fuel + 1, i =>
    let c := m.getU8 (p + i)
    if isNameChar (c % 128) then
      if c ≥ 128 then some (i + 1) else nameEnd m p fuel (i + 1)
    else some i

def failed (pathPtr : Nat) : Result := ⟨false, 0, pathPtr, 0, 0, eBpnam⟩

/-- The name from `start` up to `i`. -/
def found (m : Mem) (pathPtr start i : Nat) : Result where
  ok := true
  nameStart := pathPtr + i
  pastName := pathPtr + start
  len := (i - start) % 65536
  delim := if m.getU8 (pathPtr + i - 1) ≥ 128 then 0 else m.getU8 (pathPtr + i)
  error := 0

end PrsNam

open PrsNam in
/-- F$PrsNam, `none` when the fuel is used up. -/
def procPrsNam (m : Mem) (fuel pathPtr : Nat) : Option Result :=
  if pathPtr = 0 then some (failed pathPtr)
  else
    (skipSlashes m pathPtr fuel 0).bind fun start =>
      (nameEnd m pathPtr fuel start).map fun i => if i = start then failed pathPtr else found m pathPtr start i

namespace PrsNam

theorem isNameChar_eq (c : Nat) : isNameChar c = ModDir.isNameChar c := by
  unfold isNameChar ModDir.isNameChar
  by_cases upper : 0x41 ≤ c ∧ c ≤ 0x5A
  · simp [upper]
  · by_cases lower : 0x61 ≤ c ∧ c ≤ 0x7A
    · simp [upper, lower]
    · by_cases digit : 0x30 ≤ c ∧ c ≤ 0x39
      · simp [upper, lower, digit]
      · rw [if_neg upper, if_neg lower, if_neg digit]
        grind

/-! ### Names of a text -/

/-- A character of a name, with or without the mark. -/
def Named (c : UInt8) : Prop := isNameChar (c.toNat % 128) = true

instance : DecidablePred Named := fun c => inferInstanceAs (Decidable (isNameChar (c.toNat % 128) = true))

def Marked (c : UInt8) : Prop := 128 ≤ c.toNat

instance : DecidablePred Marked := fun c => inferInstanceAs (Decidable (128 ≤ c.toNat))

def slash : UInt8 := 0x2F

/-- The name at the start of a text, up to a mark or the first character that is none of a name. -/
def firstName : List UInt8 → List UInt8
  | [] => []
  | c :: s => if Named c then if Marked c then [c] else c :: firstName s else []

theorem not_named_slash : ¬ Named slash := by decide

theorem firstName_prefix (s : List UInt8) : firstName s <+: s := by
  induction s with
  | nil => exact List.prefix_refl []
  | cons c s ih =>
    rw [firstName]
    split
    · split
      · exact ⟨s, rfl⟩
      · exact (List.prefix_cons_inj c).mpr ih
    · exact List.nil_prefix

/-- A name that ends by a mark, or before a character that is none of a name, is read as a whole. -/
theorem firstName_append {name rest : List UInt8} (named : ∀ c ∈ name, Named c) (plain : ∀ c ∈ name.dropLast, ¬ Marked c)
    (ends : ∀ d ∈ rest.head?, ¬ Named d) (some : name ≠ []) : firstName (name ++ rest) = name := by
  induction name with
  | nil => exact absurd rfl some
  | cons c name ih =>
    obtain ⟨first, others⟩ := List.forall_mem_cons.mp named
    rw [List.cons_append, firstName, if_pos first]
    cases name with
    | nil =>
      split
      · rfl
      · cases rest with
        | nil => rfl
        | cons d rest => rw [List.nil_append, firstName, if_neg (ends d rfl)]
    | cons d name =>
      rw [List.dropLast_cons_cons] at plain
      obtain ⟨unmarked, plain⟩ := List.forall_mem_cons.mp plain
      rw [if_neg unmarked, ih others plain (List.cons_ne_nil d name)]

/-! ### The loops on a text -/

variable {m : Mem} {p i fuel : Nat} {s : List UInt8}

theorem nameEnd_text (text : Text m (p + i) s) (enough : s.length < fuel) :
    nameEnd m p fuel i = some (i + (firstName s).length) := by
  induction s generalizing i fuel with
  | nil =>
    cases fuel with
    | zero => exact absurd enough (Nat.not_lt_zero _)
    | succ fuel =>
      rw [nameEnd]
      have zero : m.getU8 (p + i) = 0 := text.getU8_zero.mpr rfl
      rw [zero]
      rfl
  | cons c s ih =>
    cases fuel with
    | zero => exact absurd enough (Nat.not_lt_zero _)
    | succ fuel =>
      obtain ⟨here, -, rest⟩ := text
      have byte : m.getU8 (p + i) = c.toNat := congrArg UInt8.toNat here
      rw [nameEnd, firstName, byte]
      by_cases named : Named c
      · rw [if_pos (show isNameChar (c.toNat % 128) = true from named), if_pos named]
        by_cases marked : Marked c
        · rw [if_pos (show c.toNat ≥ 128 from marked), if_pos marked]
          rfl
        · rw [if_neg (show ¬ c.toNat ≥ 128 from marked), if_neg marked, ih rest (Nat.lt_of_succ_lt_succ enough)]
          rw [List.length_cons, show i + 1 + (firstName s).length = i + ((firstName s).length + 1) by omega]
      · rw [if_neg (show ¬ isNameChar (c.toNat % 128) = true from named), if_neg named]
        rfl

theorem skipSlashes_text (text : Text m (p + i) s) (enough : s.length < fuel) :
    skipSlashes m p fuel i = some (i + (s.takeWhile (· == slash)).length) := by
  induction s generalizing i fuel with
  | nil =>
    cases fuel with
    | zero => exact absurd enough (Nat.not_lt_zero _)
    | succ fuel =>
      have zero : m.getU8 (p + i) = 0 := text.getU8_zero.mpr rfl
      rw [skipSlashes, zero]
      rfl
  | cons c s ih =>
    cases fuel with
    | zero => exact absurd enough (Nat.not_lt_zero _)
    | succ fuel =>
      obtain ⟨here, -, rest⟩ := text
      have byte : m.getU8 (p + i) = c.toNat := congrArg UInt8.toNat here
      have same : c.toNat = 0x2F ↔ c = slash := by
        rw [← UInt8.toNat_inj]
        rfl
      rw [skipSlashes, byte, List.takeWhile_cons]
      by_cases is : c = slash
      · rw [if_pos (same.mpr is), is, ih rest (Nat.lt_of_succ_lt_succ enough)]
        simp only [beq_self_eq_true, if_true, List.length_cons]
        congr 1
        omega
      · rw [if_neg (fun slash => is (same.mp slash)), if_neg (by simpa using is)]
        rfl

/-- What F$PrsNam makes of a text: behind the slashes at its start it reads the first name. -/
theorem procPrsNam_text {slashes rest : List UInt8} (text : Text m p (slashes ++ rest)) (live : p ≠ 0)
    (skipped : ∀ c ∈ slashes, c = slash) (head : rest.head? ≠ some slash) (enough : (slashes ++ rest).length < fuel) :
    procPrsNam m fuel p = some (if firstName rest = [] then failed p
      else found m p slashes.length (slashes.length + (firstName rest).length)) := by
  have front : (slashes ++ rest).takeWhile (· == slash) = slashes := by
    rw [List.takeWhile_append_of_pos (fun c member => by simpa using skipped c member)]
    cases rest with
    | nil => simp
    | cons c rest =>
      have other : c ≠ slash := by simpa using head
      simp [other]
  have skips := skipSlashes_text (i := 0) text enough
  rw [front, Nat.zero_add] at skips
  have ends := nameEnd_text text.drop (show rest.length < fuel by rw [List.length_append] at enough; omega)
  rw [procPrsNam, if_neg live, skips, Option.bind_some, ends, Option.map_some]
  congr 1
  exact if_congr (by simp) rfl rfl

end PrsNam

end Q9OS

import Mathlib.Tactic
import Q9OS.Rbf.File

/-!
# Names in paths and in directories

`Rbf_CompareFilename`, `Rbf_MatchDevName` and `Rbf_ParseComponent`. A pointer
into a path is the list of bytes from there up to the NUL.
-/

namespace Q9OS.Rbf

/-- A path from a pointer on. -/
abbrev Chars := List UInt8

/-- The byte at the pointer, the NUL behind the last one. -/
def cur (s : Chars) : UInt8 := s.headD 0

def slash : UInt8 := 0x2F
def space : UInt8 := 0x20
def carriageReturn : UInt8 := 0x0D
def atSign : UInt8 := 0x40
def dot : UInt8 := 0x2E

/-- `E_BNAM`. -/
def errBnam : Nat := 0xD7

/-- What a name in a path ends with. -/
def endsName (c : UInt8) : Bool := c == 0 || c == slash || c == space || c == carriageReturn

/-- A small letter as a capital one. -/
def foldCase (c : UInt8) : UInt8 := if 0x61 ≤ c ∧ c ≤ 0x7A then c - 0x20 else c

def dirNm : Nat := 0
def dirFd : Nat := 28
def dirSz : Nat := 32

/-- `Rbf_CompareFilename` with `n` bytes of the entry to go. -/
def compareFilename (slot : Mem) : Nat → Nat → Chars → Bool
  | 0, _, _ => true
  | n + 1, a0, a2 =>
    if endsName (cur a2) then slot a0 == 0
    else if slot a0 = 0 then false
    else if foldCase (slot a0 &&& 0x7F) ≠ foldCase (cur a2) then false
    else if 0x80 ≤ slot a0 then endsName (cur a2.tail)
    else compareFilename slot n (a0 + 1) a2.tail

/-- `Rbf_MatchDevName`: the path behind the name of the device. -/
def matchDevName : List UInt8 → Chars → Option Chars
  | [], a3 => if endsName (cur a3) then some a3 else none
  | d0 :: a0, a3 =>
    if foldCase (d0 &&& 0x7F) ≠ foldCase (cur a3) then none
    else if 0x80 ≤ d0 then if endsName (cur a3.tail) then some a3.tail else none
    else matchDevName a0 a3.tail

/-- What `Rbf_ParseComponent` brings back: the component, the pointer behind it and the byte that ends it. The length
is a word. -/
structure Component where
  start : Chars
  next : Chars
  delim : UInt8
  length : Nat

/-- `Rbf_ParseComponent` ends a component of dots at these. -/
def endsDots (c : UInt8) : Bool := endsName c || c == atSign

/-- The name loop: the bytes up to the end of the name; one with bit 7 is the last. -/
def nameLoop : Chars → Chars × UInt8
  | [] => ([], 0)
  | c :: rest => if endsDots c then (c :: rest, c) else if 0x80 ≤ c then (rest, 0) else nameLoop rest

def parseComponent (a0 : Chars) : Except Nat Component :=
  let a0 := a0.dropWhile (· == space)
  if cur a0 = dot then
    let dots := (a0.takeWhile (· == dot)).length
    let a3 := a0.drop dots
    -- three and more are ".." with a slash in front of the second one
    if 3 ≤ dots % 65536 then .ok ⟨a0, a0.tail, slash, 2⟩
    else if endsDots (cur a3) then .ok ⟨a0, a3, cur a3, dots % 65536⟩
    else .error errBnam
  else
    let a3 := nameLoop a0
    let d1 := a0.length - a3.1.length
    if d1 = 0 then .error errBnam
    else if d1 % 65536 ≤ 28 then .ok ⟨a0, a3.1, a3.2, d1 % 65536⟩
    else .error errBnam

/-! ### Names of entries -/

/-- The name in an entry: up to the byte with bit 7, or the NUL. -/
def entryName (slot : Mem) : Nat → Nat → List UInt8
  | 0, _ => []
  | n + 1, a0 =>
    if slot a0 = 0 then []
    else if 0x80 ≤ slot a0 then [slot a0 &&& 0x7F]
    else slot a0 :: entryName slot n (a0 + 1)

/-- One name but for the case of its letters. -/
def SameName (a b : List UInt8) : Prop := a.map foldCase = b.map foldCase

instance (a b : List UInt8) : Decidable (SameName a b) := inferInstanceAs (Decidable (_ = _))

theorem low_byte {c : UInt8} (low : ¬ 0x80 ≤ c) : c &&& 0x7F = c := by
  have small : c.toNat < 128 := Nat.lt_of_not_le (fun high => low (UInt8.le_iff_toNat_le.mpr high))
  rw [← UInt8.toNat_inj, UInt8.toNat_and]
  exact (Nat.and_two_pow_sub_one_eq_mod c.toNat 7).trans (Nat.mod_eq_of_lt small)

/-- The entry is compared with the name that stands in front of an end. -/
theorem compareFilename_same (slot : Mem) {n a0 : Nat} {name rest : Chars} (plain : ∀ c ∈ name, endsName c = false)
    (ended : endsName (cur rest) = true) (fits : name.length ≤ n) :
    compareFilename slot n a0 (name ++ rest) = decide (SameName (entryName slot n a0) name) := by
  induction n generalizing a0 name with
  | zero =>
    obtain rfl := List.length_eq_zero_iff.mp (Nat.le_zero.mp fits)
    simp [compareFilename, entryName, SameName]
  | succ n ih =>
    unfold compareFilename entryName
    cases name with
    | nil =>
      rw [List.nil_append, if_pos ended]
      unfold SameName
      by_cases none : slot a0 = 0
      · simp [none]
      · by_cases high : 0x80 ≤ slot a0 <;> simp [none, high]
    | cons c name =>
      have here : endsName c = false := plain c List.mem_cons_self
      have later : ∀ c ∈ name, endsName c = false := fun c member => plain c (List.mem_cons_of_mem _ member)
      have head : cur (c :: name ++ rest) = c := rfl
      have tail : (c :: name ++ rest).tail = name ++ rest := rfl
      rw [head, tail, here, if_neg (by decide)]
      by_cases none : slot a0 = 0
      · rw [if_pos none, if_pos none]
        simp [SameName]
      rw [if_neg none, if_neg none]
      by_cases other : foldCase (slot a0 &&& 0x7F) ≠ foldCase c
      · rw [if_pos other]
        by_cases high : 0x80 ≤ slot a0
        · rw [if_pos high]
          simp [SameName, other]
        · rw [low_byte high] at other
          rw [if_neg high]
          simp [SameName, other]
      have one : foldCase (slot a0 &&& 0x7F) = foldCase c := not_not.mp other
      rw [if_neg other]
      by_cases high : 0x80 ≤ slot a0
      · rw [if_pos high, if_pos high]
        cases name with
        | nil => simp [SameName, one, ended]
        | cons c' name =>
          have inner : endsName c' = false := later c' List.mem_cons_self
          simp [SameName, cur, inner]
      · rw [if_neg high, if_neg high, ih later (by simpa using fits)]
        rw [low_byte high] at one
        exact decide_eq_decide.mpr (by simp [SameName, one])

end Q9OS.Rbf

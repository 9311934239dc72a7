import Mathlib.Tactic

/-!
# Nested words

Words that open and close, what stands open after them, and how deep they nest.
-/

namespace Q9OS

namespace Brackets

variable {α : Type}

/-- A letter that opens something, closes what was opened last, or does neither. -/
inductive Mark (α : Type) where
  | opening (a : α)
  | closing
  | plain

/-- What is open after a word, innermost first; none if it closes what is not open. -/
def openAfter : List α → List (Mark α) → Option (List α)
  | stack, [] => some stack
  | stack, .plain :: word => openAfter stack word
  | stack, .opening a :: word => openAfter (a :: stack) word
  | [], .closing :: _ => none
  | _ :: stack, .closing :: word => openAfter stack word

def Nested (word : List (Mark α)) : Prop := openAfter [] word = some []

instance [DecidableEq α] : DecidablePred (@Nested α) := fun word => inferInstanceAs (Decidable (openAfter [] word = some []))

/-- No more than `bound` are open at a time. -/
def Shallow (bound : Nat) (word : List (Mark α)) : Prop :=
  ∀ front stack, front <+: word → openAfter [] front = some stack → stack.length ≤ bound

theorem openAfter_append (stack : List α) (front back : List (Mark α)) :
    openAfter stack (front ++ back) = (openAfter stack front).bind fun mid => openAfter mid back := by
  induction front generalizing stack with
  | nil => rfl
  | cons mark front ih =>
    cases mark with
    | plain => exact ih stack
    | opening a => exact ih (a :: stack)
    | closing =>
      cases stack with
      | nil => rfl
      | cons a stack => exact ih stack

theorem openAfter_length {stack out : List α} {word : List (Mark α)} (opened : openAfter stack word = some out) :
    out.length ≤ stack.length + word.length := by
  induction word generalizing stack with
  | nil =>
    obtain rfl := Option.some.inj opened
    exact Nat.le_refl _
  | cons mark word ih =>
    rw [List.length_cons]
    cases mark with
    | plain =>
      have rest : openAfter stack word = some out := opened
      have bound := ih rest
      omega
    | opening a =>
      have rest : openAfter (a :: stack) word = some out := opened
      have bound := ih rest
      rw [List.length_cons] at bound
      omega
    | closing =>
      cases stack with
      | nil => cases opened
      | cons a stack =>
        have rest : openAfter stack word = some out := opened
        have bound := ih rest
        rw [List.length_cons]
        omega

/-- A word does not touch what stands below the stack it needs. -/
theorem openAfter_below {stack out : List α} {word : List (Mark α)} (opened : openAfter stack word = some out)
    (below : List α) : openAfter (stack ++ below) word = some (out ++ below) := by
  induction word generalizing stack with
  | nil =>
    obtain rfl := Option.some.inj opened
    rfl
  | cons mark word ih =>
    cases mark with
    | plain => exact ih opened
    | opening a =>
      have rest : openAfter (a :: stack) word = some out := opened
      exact ih rest
    | closing =>
      cases stack with
      | nil => cases opened
      | cons a stack =>
        have rest : openAfter stack word = some out := opened
        exact ih rest

theorem Nested.keeps {word : List (Mark α)} (nested : Nested word) (stack : List α) : openAfter stack word = some stack :=
  openAfter_below nested stack

theorem Nested.append {front back : List (Mark α)} (first : Nested front) (second : Nested back) : Nested (front ++ back) := by
  unfold Nested
  rw [openAfter_append, first]
  exact second

/-- An opening, what nests in it, and its closing. -/
theorem Nested.enclose {word : List (Mark α)} (nested : Nested word) (a : α) :
    Nested (.opening a :: (word ++ [.closing])) := by
  show openAfter [a] (word ++ [.closing]) = some []
  rw [openAfter_append, nested.keeps]
  rfl

theorem openAfter_front {front back : List (Mark α)} {out : List α} (opened : openAfter [] (front ++ back) = some out) :
    ∃ mid, openAfter [] front = some mid ∧ openAfter mid back = some out := by
  rw [openAfter_append] at opened
  exact Option.bind_eq_some_iff.mp opened

theorem Shallow.front {bound : Nat} {front back : List (Mark α)} (shallow : Shallow bound (front ++ back)) :
    Shallow bound front :=
  fun _ _ isPrefix => shallow _ _ (isPrefix.trans (List.prefix_append front back))

theorem shallow_of_length {bound : Nat} {word : List (Mark α)} (short : word.length ≤ bound) : Shallow bound word := by
  intro front stack isPrefix opened
  have grown := openAfter_length opened
  have shorter := isPrefix.length_le
  rw [List.length_nil] at grown
  omega

end Brackets

end Q9OS

import Mathlib.Tactic
import Q9OS.Lib.Wildcard
import Q9OS.Names.Text

/-!
# F$CmpNam

`Q9K_ProcCmpNam` of `q9kernel_iopath.c`: the comparison of a pattern with a
name, with one place to come back to.
-/

namespace Q9OS

namespace CmpNam

def eDiffer : Nat := 0xA5

def star : Nat := 0x2A
def question : Nat := 0x3F

def fold (c : Nat) : Nat := if 0x41 ≤ c ∧ c ≤ 0x5A then c - 0x41 + 0x61 else c

structure State where
  pi : Nat
  ti : Nat
  starPat : Nat
  starTgt : Nat
  haveStar : Bool

/-- One turn of the loop over the target, `none` on a difference. -/
def turn (m : Mem) (pat len tgt : Nat) (s : State) : Option State :=
  if s.pi < len ∧ m.getU8 (pat + s.pi) = star then
    some { s with haveStar := true, starPat := s.pi, starTgt := s.ti, pi := s.pi + 1 }
  else if s.pi < len ∧
      (m.getU8 (pat + s.pi) = question ∨ fold (m.getU8 (pat + s.pi)) = fold (m.getU8 (tgt + s.ti))) then
    some { s with pi := s.pi + 1, ti := s.ti + 1 }
  else if s.haveStar then
    some { s with starTgt := s.starTgt + 1, ti := s.starTgt + 1, pi := s.starPat + 1 }
  else none

/-- The position in the pattern at the end of the target, `some none` on a difference. -/
def loop (m : Mem) (pat len tgt : Nat) : Nat → State → Option (Option Nat)
  | 0, _ => none
  | fuel + 1, s =>
    if m.getU8 (tgt + s.ti) = 0 then some (some s.pi)
    else
      match turn m pat len tgt s with
      | none => some none
      | some s => loop m pat len tgt fuel s

def skipStars (m : Mem) (pat len : Nat) : Nat → Nat → Nat
  | 0, pi => pi
  | fuel + 1, pi => if pi < len ∧ m.getU8 (pat + pi) = star then skipStars m pat len fuel (pi + 1) else pi

/-- Behind the end of the target only stars may be left. -/
def verdict (m : Mem) (pat len : Nat) : Option Nat → Except Nat Unit
  | none => .error eDiffer
  | some pi => if skipStars m pat len len pi ≠ len then .error eDiffer else .ok ()

end CmpNam

open CmpNam in
/-- F$CmpNam, `none` when the fuel is used up. -/
def procCmpNam (m : Mem) (fuel patternPtr patternLen targetPtr : Nat) : Option (Except Nat Unit) :=
  if patternPtr = 0 ∨ targetPtr = 0 then some (.error eDiffer)
  else
    (loop m patternPtr patternLen targetPtr fuel ⟨0, 0, 0, 0, false⟩).map (verdict m patternPtr patternLen)

namespace CmpNam

/-! ### Patterns -/

def isStar (c : UInt8) : Prop := c.toNat = star

instance : DecidablePred isStar := fun c => inferInstanceAs (Decidable (c.toNat = star))

/-- A question mark stands for any character, another character for itself in either case. -/
def fits (p t : UInt8) : Prop := p.toNat = question ∨ fold p.toNat = fold t.toNat

def Matches : List UInt8 → List UInt8 → Prop := Wildcard.Matches isStar fits

variable {m : Mem} {pat len tgt : Nat} {pattern target p t : List UInt8} {back : Option (List UInt8 × List UInt8)}
  {s : State}

/-- The place to come back to, with what the search started from there. -/
def Back (m : Mem) (pat len tgt : Nat) (s : State) : Option (List UInt8 × List UInt8) → Prop
  | none => s.haveStar = false
  | some (behind, origin) =>
    s.haveStar = true ∧ s.starPat < len ∧ behind = m.bytes (pat + (s.starPat + 1)) (len - (s.starPat + 1)) ∧
      Text m (tgt + s.starTgt) origin

/-- The indices of a search stand for what is left of pattern and target. -/
structure Search (m : Mem) (pat len tgt : Nat) (pattern target : List UInt8) (s : State)
    (back : Option (List UInt8 × List UInt8)) (p t : List UInt8) : Prop where
  inside : s.pi ≤ len
  left : p = m.bytes (pat + s.pi) (len - s.pi)
  text : Text m (tgt + s.ti) t
  place : Back m pat len tgt s back
  reached : Wildcard.Reached isStar fits pattern target back p t

theorem skipStars_spec (fuel pi : Nat) (inside : pi ≤ len) (enough : len ≤ pi + fuel) :
    skipStars m pat len fuel pi = len ↔ ∀ c ∈ m.bytes (pat + pi) (len - pi), isStar c := by
  induction fuel generalizing pi with
  | zero =>
    obtain rfl : pi = len := by omega
    simp [skipStars, Mem.bytes]
  | succ fuel ih =>
    rw [skipStars]
    by_cases more : pi < len
    · have first : m.bytes (pat + pi) (len - pi) = m (pat + pi) :: m.bytes (pat + (pi + 1)) (len - (pi + 1)) := by
        rw [show len - pi = len - (pi + 1) + 1 by omega, Mem.bytes_succ, Nat.add_assoc]
      rw [first, List.forall_mem_cons]
      by_cases is : m.getU8 (pat + pi) = star
      · rw [if_pos ⟨more, is⟩, ih (pi + 1) (by omega) (by omega)]
        exact (and_iff_right is).symm
      · rw [if_neg (fun both => is both.2)]
        exact iff_of_false (by omega) (fun both => is both.1)
    · rw [if_neg (fun both => more both.1)]
      obtain rfl : pi = len := by omega
      simp [Mem.bytes]

theorem verdict_ok {pi : Nat} (inside : pi ≤ len) :
    verdict m pat len (some pi) = .ok () ↔ ∀ c ∈ m.bytes (pat + pi) (len - pi), isStar c := by
  rw [← skipStars_spec len pi inside (by omega), verdict]
  split
  · next some_left => exact iff_of_false (by simp) some_left
  · next all => exact iff_of_true rfl (not_not.mp all)

theorem verdict_cases (found : Option Nat) : verdict m pat len found = .ok () ∨ verdict m pat len found = .error eDiffer := by
  cases found with
  | none => exact .inr rfl
  | some pi =>
    by_cases all : skipStars m pat len len pi = len
    · exact .inl (if_neg (not_not_intro all))
    · exact .inr (if_pos all)

/-! ### One turn -/

variable (search : Search m pat len tgt pattern target s back p t)

theorem Search.pattern_nil (search : Search m pat len tgt pattern target s back [] t) : s.pi = len := by
  have long := congrArg List.length search.left
  have inside := search.inside
  rw [Mem.length_bytes, List.length_nil] at long
  omega

theorem Search.pattern_cons {c : UInt8} (search : Search m pat len tgt pattern target s back (c :: p) t) :
    s.pi < len ∧ m.getU8 (pat + s.pi) = c.toNat ∧ p = m.bytes (pat + (s.pi + 1)) (len - (s.pi + 1)) := by
  have left := search.left
  have long := congrArg List.length left
  rw [Mem.length_bytes, List.length_cons] at long
  rw [show len - s.pi = len - (s.pi + 1) + 1 by omega, Mem.bytes_succ] at left
  obtain ⟨rfl, rest⟩ := List.cons.inj left
  exact ⟨by omega, rfl, by rw [rest, Nat.add_assoc]⟩

theorem Search.text_cons {d : UInt8} (search : Search m pat len tgt pattern target s back p (d :: t)) :
    m.getU8 (tgt + s.ti) = d.toNat ∧ Text m (tgt + (s.ti + 1)) t := by
  obtain ⟨rfl, -, rest⟩ := search.text
  exact ⟨rfl, rest⟩

/-- How far a search still has to go: the place to come back to only moves on, and between two retries target
and pattern are used up. -/
def togo (back : Option (List UInt8 × List UInt8)) (p t : List UInt8) : Nat ×ₗ Nat ×ₗ Nat ×ₗ Nat :=
  match back with
  | none => toLex (1, toLex (0, toLex (t.length, p.length)))
  | some (_, origin) => toLex (0, toLex (origin.length, toLex (t.length, p.length)))

/-- What one turn makes of a search: it gets nearer to its end, or the pattern does not match. -/
def Turned (m : Mem) (pat len tgt : Nat) (pattern target : List UInt8) (before : Nat ×ₗ Nat ×ₗ Nat ×ₗ Nat) :
    Option State → Prop
  | none => ¬ Matches pattern target
  | some s => ∃ back p t, Search m pat len tgt pattern target s back p t ∧ togo back p t < before

theorem turned_star {c d : UInt8} (search : Search m pat len tgt pattern target s back (c :: p) (d :: t)) (is : isStar c) :
    Turned m pat len tgt pattern target (togo back (c :: p) (d :: t)) (turn m pat len tgt s) := by
  obtain ⟨inside, here, left⟩ := search.pattern_cons
  have goes : turn m pat len tgt s =
      some { s with haveStar := true, starPat := s.pi, starTgt := s.ti, pi := s.pi + 1 } :=
    if_pos ⟨inside, here.trans is⟩
  rw [goes]
  refine ⟨some (p, d :: t), p, d :: t, ⟨inside, left, search.text, ⟨rfl, inside, left, search.text⟩,
    search.reached.meets_star is⟩, ?_⟩
  cases back with
  | none => simp [togo, Prod.Lex.lt_iff]
  | some back =>
    obtain ⟨-, segment, used, -, origin, -⟩ := search.reached
    have long := congrArg List.length origin
    simp only [List.length_append, List.length_cons] at long
    simp [togo, Prod.Lex.lt_iff]
    omega

theorem turned_char {c d : UInt8} (search : Search m pat len tgt pattern target s back (c :: p) (d :: t))
    (plain : ¬ isStar c) (fit : fits c d) :
    Turned m pat len tgt pattern target (togo back (c :: p) (d :: t)) (turn m pat len tgt s) := by
  obtain ⟨inside, here, left⟩ := search.pattern_cons
  obtain ⟨there, text⟩ := search.text_cons
  have goes : turn m pat len tgt s = some { s with pi := s.pi + 1, ti := s.ti + 1 } := by
    unfold turn
    rw [here, there, if_neg (fun both => plain both.2), if_pos ⟨inside, fit⟩]
  rw [goes]
  refine ⟨back, p, t, ⟨inside, left, text, ?_, search.reached.meets_char plain fit⟩, ?_⟩
  · cases back with
    | none => exact search.place
    | some back => exact search.place
  · cases back with
    | none => simp [togo, Prod.Lex.lt_iff]
    | some back => simp [togo, Prod.Lex.lt_iff]

/-- A search that is stuck goes back to its last star, which takes one character more. -/
theorem turned_stuck {d : UInt8} (search : Search m pat len tgt pattern target s back p (d :: t))
    (stuck : ¬ Wildcard.Matches isStar fits p (d :: t))
    (goes : turn m pat len tgt s = if s.haveStar then
      some { s with starTgt := s.starTgt + 1, ti := s.starTgt + 1, pi := s.starPat + 1 } else none) :
    Turned m pat len tgt pattern target (togo back p (d :: t)) (turn m pat len tgt s) := by
  rw [goes]
  cases back with
  | none =>
    have no_star : s.haveStar = false := search.place
    rw [no_star, if_neg Bool.false_ne_true]
    exact search.reached.fails stuck
  | some back =>
    obtain ⟨behind, origin⟩ := back
    obtain ⟨have_star, inside, left, text⟩ := search.place
    rw [have_star, if_pos rfl]
    cases origin with
    | nil =>
      -- what is left of the target is a part of what was left at the star
      obtain ⟨-, segment, used, -, origin, -⟩ := search.reached
      simp at origin
    | cons e tail =>
      refine ⟨some (behind, tail), behind, tail, ⟨inside, left, text.2.2, ⟨rfl, inside, left, text.2.2⟩,
        search.reached.retries stuck⟩, ?_⟩
      simp [togo, Prod.Lex.lt_iff]

theorem turned {d : UInt8} (search : Search m pat len tgt pattern target s back p (d :: t)) :
    Turned m pat len tgt pattern target (togo back p (d :: t)) (turn m pat len tgt s) := by
  cases p with
  | nil =>
    have ended := search.pattern_nil
    apply turned_stuck search Wildcard.stuck_empty
    unfold turn
    rw [if_neg (by omega), if_neg (by omega)]
  | cons c p =>
    by_cases is : isStar c
    · exact turned_star search is
    by_cases fit : fits c d
    · exact turned_char search is fit
    obtain ⟨inside, here, -⟩ := search.pattern_cons
    obtain ⟨there, -⟩ := search.text_cons
    apply turned_stuck search (Wildcard.stuck_char is fit)
    unfold turn
    rw [here, there, if_neg (fun both => is both.2), if_neg (fun both => fit both.2)]

/-! ### The whole loop -/

/-- The loop ends, and what it has found at the end of the target decides. -/
theorem loop_ends (search : Search m pat len tgt pattern target s back p t) :
    ∃ fuel found, (∀ more, loop m pat len tgt (fuel + more) s = some found) ∧
      (Matches pattern target ↔ verdict m pat len found = .ok ()) := by
  induction left : togo back p t using WellFoundedLT.induction generalizing s back p t with
  | ind left ih =>
  subst left
  cases t with
  | nil =>
    have ended : m.getU8 (tgt + s.ti) = 0 := search.text.getU8_zero.mpr rfl
    refine ⟨1, some s.pi, ?_, ?_⟩
    · intro more
      rw [Nat.add_comm, loop, if_pos ended]
    · have decides : Matches pattern target ↔ ∀ c ∈ p, isStar c := search.reached.ends
      rw [decides, search.left, verdict_ok search.inside]
  | cons d t =>
    have going : ¬ m.getU8 (tgt + s.ti) = 0 := fun ended => by simpa using search.text.getU8_zero.mp ended
    have after := turned search
    cases next : turn m pat len tgt s with
    | none =>
      rw [next] at after
      refine ⟨1, none, ?_, iff_of_false after (by simp [verdict])⟩
      intro more
      rw [Nat.add_comm, loop, if_neg going, next]
    | some s' =>
      rw [next] at after
      obtain ⟨back', p', t', search', nearer⟩ := after
      obtain ⟨fuel, found, ends, decides⟩ := ih _ nearer search' rfl
      refine ⟨fuel + 1, found, ?_, decides⟩
      intro more
      rw [show fuel + 1 + more = fuel + more + 1 by omega, loop, if_neg going, next]
      exact ends more

end CmpNam

open CmpNam in
/-- F$CmpNam comes to an end for every pattern and every text, and succeeds exactly when the one matches the other. -/
theorem procCmpNam_matches (m : Mem) (patternPtr patternLen targetPtr : Nat) (target : List UInt8)
    (text : Text m targetPtr target) :
    ∃ fuel result, (∀ more, procCmpNam m (fuel + more) patternPtr patternLen targetPtr = some result) ∧
      (result = .ok () ∨ result = .error eDiffer) ∧
      (result = .ok () ↔ patternPtr ≠ 0 ∧ targetPtr ≠ 0 ∧ Matches (m.bytes patternPtr patternLen) target) := by
  by_cases null : patternPtr = 0 ∨ targetPtr = 0
  · refine ⟨0, .error eDiffer, fun more => if_pos null, .inr rfl, iff_of_false (by simp) ?_⟩
    rintro ⟨pattern, target, -⟩
    exact null.elim pattern target
  have start : Search m patternPtr patternLen targetPtr (m.bytes patternPtr patternLen) target ⟨0, 0, 0, 0, false⟩ none
      (m.bytes patternPtr patternLen) target := ⟨Nat.zero_le _, rfl, text, rfl, Iff.rfl⟩
  obtain ⟨fuel, found, ends, decides⟩ := loop_ends start
  have run : ∀ more, procCmpNam m (fuel + more) patternPtr patternLen targetPtr = some (verdict m patternPtr patternLen found) := by
    intro more
    rw [procCmpNam, if_neg null, ends more]
    rfl
  refine ⟨fuel, _, run, verdict_cases found, ?_⟩
  rw [← decides, and_iff_right (fun pattern => null (.inl pattern)), and_iff_right (fun target => null (.inr target))]

namespace CmpNam

/-- `*A?` at 16, and `banal` at 32. -/
def sample : Mem := fun x =>
  if x < 32 then [0x2A, 0x41, 0x3F].getD (x - 16) 0 else [0x62, 0x61, 0x6E, 0x61, 0x6C].getD (x - 32) 0

end CmpNam

open CmpNam in
example : procCmpNam sample 40 16 3 32 = some (.ok ()) := rfl

open CmpNam in
theorem procCmpNam_matches_banal :
    ∃ fuel result, (∀ more, procCmpNam sample (fuel + more) 16 3 32 = some result) ∧
      (result = .ok () ∨ result = .error eDiffer) ∧
      (result = .ok () ↔ 16 ≠ 0 ∧ 32 ≠ 0 ∧ Matches (sample.bytes 16 3) [0x62, 0x61, 0x6E, 0x61, 0x6C]) :=
  procCmpNam_matches sample 16 3 32 [0x62, 0x61, 0x6E, 0x61, 0x6C] (by simp [sample])

end Q9OS

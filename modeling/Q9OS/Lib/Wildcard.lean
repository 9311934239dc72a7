import Mathlib.Tactic

/-!
# Wildcard patterns

A star stands for any string, every other character of a pattern for one
character that it fits. A search needs to come back to its last star only.
-/

namespace Q9OS

namespace Wildcard

variable {α β : Type} (star : α → Prop) [DecidablePred star] (fits : α → β → Prop)

def Matches : List α → List β → Prop
  | [], target => target = []
  | p :: pattern, target =>
    if star p then ∃ taken rest, target = taken ++ rest ∧ Matches pattern rest
    else ∃ t rest, target = t :: rest ∧ fits p t ∧ Matches pattern rest

/-- Characters other than stars, each with the one it stands for. -/
def Literal (segment : List α) (used : List β) : Prop :=
  List.Forall₂ (fun p t => ¬ star p ∧ fits p t) segment used

/-- A search has come to `p` and `t`. It answers for the whole once it answers for these, or for a later
place where what stood behind its last star may begin. -/
def Reached (pattern : List α) (target : List β) : Option (List α × List β) → List α → List β → Prop
  | none, p, t => Matches star fits pattern target ↔ Matches star fits p t
  | some (behind, origin), p, t =>
    (Matches star fits pattern target ↔ ∃ rest, rest <:+ origin ∧ Matches star fits behind rest) ∧
      ∃ segment used, behind = segment ++ p ∧ origin = used ++ t ∧ Literal star fits segment used

variable {star fits} {pattern p behind : List α} {target t tail : List β} {c : α} {d : β}
  {back : Option (List α × List β)}

/-! ### Single characters -/

theorem matches_star (is : star c) : Matches star fits (c :: p) t ↔ ∃ rest, rest <:+ t ∧ Matches star fits p rest := by
  rw [Matches, if_pos is]
  constructor
  · rintro ⟨taken, rest, rfl, fine⟩
    exact ⟨rest, List.suffix_append taken rest, fine⟩
  · rintro ⟨rest, ⟨taken, rfl⟩, fine⟩
    exact ⟨taken, rest, rfl, fine⟩

theorem matches_char (plain : ¬ star c) : Matches star fits (c :: p) (d :: t) ↔ fits c d ∧ Matches star fits p t := by
  rw [Matches, if_neg plain]
  constructor
  · rintro ⟨d, rest, same, fit, fine⟩
    obtain ⟨rfl, rfl⟩ := List.cons.inj same
    exact ⟨fit, fine⟩
  · rintro ⟨fit, fine⟩
    exact ⟨d, t, rfl, fit, fine⟩

/-- Only stars match the empty string. -/
theorem matches_nil : Matches star fits p [] ↔ ∀ c ∈ p, star c := by
  induction p with
  | nil => simp [Matches]
  | cons c p ih =>
    by_cases is : star c
    · simp [matches_star is, ih, is]
    · simp [Matches, is]

/-! ### Characters between two stars -/

theorem matches_literal {segment : List α} {used : List β} (literal : Literal star fits segment used) :
    Matches star fits (segment ++ p) (used ++ t) ↔ Matches star fits p t := by
  induction literal with
  | nil => rfl
  | cons first literal ih =>
    rw [List.cons_append, List.cons_append, matches_char first.1, ih]
    exact and_iff_right first.2

/-- Plain characters use up as many characters as they are. -/
theorem matches_plain {segment : List α} (plain : ∀ c ∈ segment, ¬ star c)
    (fine : Matches star fits (segment ++ p) t) :
    ∃ used rest, t = used ++ rest ∧ used.length = segment.length ∧ Matches star fits p rest := by
  induction segment generalizing t with
  | nil => exact ⟨[], t, rfl, rfl, fine⟩
  | cons c segment ih =>
    have first := plain c List.mem_cons_self
    rw [List.cons_append, Matches, if_neg first] at fine
    obtain ⟨d, rest, rfl, fit, fine⟩ := fine
    obtain ⟨used, rest, rfl, long, fine⟩ := ih (fun c member => plain c (List.mem_cons_of_mem _ member)) fine
    exact ⟨d :: used, rest, rfl, by simp [long], fine⟩

omit [DecidablePred star] in
theorem Literal.plain {segment : List α} {used : List β} (literal : Literal star fits segment used) :
    ∀ c ∈ segment, ¬ star c := by
  induction literal with
  | nil => simp
  | cons first literal ih =>
    intro c member
    obtain rfl | member := List.mem_cons.mp member
    · exact first.1
    · exact ih c member

/-- What comes behind the segment begins no earlier than where it was first found. -/
theorem rest_suffix {segment : List α} {used : List β} (literal : Literal star fits segment used) {rest : List β}
    (later : rest <:+ used ++ t) (fine : Matches star fits (segment ++ p) rest) :
    ∃ last, last <:+ t ∧ Matches star fits p last := by
  obtain ⟨used', last, rfl, long, fine⟩ := matches_plain literal.plain fine
  have long : used'.length = used.length := long.trans (List.Forall₂.length_eq literal)
  have inside : last <:+ used ++ t := (List.suffix_append used' last).trans later
  have short := later.length_le
  rw [List.length_append, List.length_append] at short
  exact ⟨last, List.suffix_of_suffix_length_le inside (List.suffix_append used t) (by omega), fine⟩

/-! ### The search, step by step -/

/-- A new star becomes the place to come back to. What stood before it need not be looked at again: it has
been found as early as it can be. -/
theorem Reached.meets_star (reached : Reached star fits pattern target back (c :: p) t) (is : star c) :
    Reached star fits pattern target (some (p, t)) p t := by
  refine ⟨?_, [], [], rfl, rfl, List.Forall₂.nil⟩
  cases back with
  | none =>
    have same : Matches star fits pattern target ↔ Matches star fits (c :: p) t := reached
    rw [same, matches_star is]
  | some back =>
    obtain ⟨same, segment, used, behind, origin, literal⟩ := reached
    rw [same, behind, origin]
    constructor
    · rintro ⟨rest, later, fine⟩
      obtain ⟨last, inside, fine⟩ := rest_suffix literal later fine
      obtain ⟨rest, after, fine⟩ := (matches_star is).mp fine
      exact ⟨rest, after.trans inside, fine⟩
    · intro here
      exact ⟨used ++ t, List.suffix_rfl, (matches_literal literal).mpr ((matches_star is).mpr here)⟩

theorem Reached.meets_char (reached : Reached star fits pattern target back (c :: p) (d :: t)) (plain : ¬ star c)
    (fit : fits c d) : Reached star fits pattern target back p t := by
  cases back with
  | none =>
    have same : Matches star fits pattern target ↔ Matches star fits (c :: p) (d :: t) := reached
    exact (same.trans (matches_char plain)).trans (and_iff_right fit)
  | some back =>
    obtain ⟨same, segment, used, behind, origin, literal⟩ := reached
    refine ⟨same, segment ++ [c], used ++ [d], by simp [behind], by simp [origin], ?_⟩
    exact List.rel_append literal (List.Forall₂.cons ⟨plain, fit⟩ List.Forall₂.nil)

/-- Where the search is stuck, the last star takes one character more. -/
theorem Reached.retries (reached : Reached star fits pattern target (some (behind, d :: tail)) p t)
    (stuck : ¬ Matches star fits p t) : Reached star fits pattern target (some (behind, tail)) behind tail := by
  obtain ⟨same, segment, used, rfl, origin, literal⟩ := reached
  refine ⟨?_, [], [], rfl, rfl, List.Forall₂.nil⟩
  rw [same]
  constructor
  · rintro ⟨rest, later, fine⟩
    obtain here | later := List.suffix_cons_iff.mp later
    · rw [here, origin, matches_literal literal] at fine
      exact absurd fine stuck
    · exact ⟨rest, later, fine⟩
  · rintro ⟨rest, later, fine⟩
    exact ⟨rest, later.trans (List.suffix_cons d tail), fine⟩

theorem Reached.fails (reached : Reached star fits pattern target none p t) (stuck : ¬ Matches star fits p t) :
    ¬ Matches star fits pattern target :=
  fun fine => stuck (reached.mp fine)

/-- At the end of the target the rest of the pattern decides. -/
theorem Reached.ends (reached : Reached star fits pattern target back p []) :
    Matches star fits pattern target ↔ ∀ c ∈ p, star c := by
  have only : Matches star fits p ([] : List β) ↔ ∀ c ∈ p, star c := matches_nil
  rw [← only]
  cases back with
  | none => exact reached
  | some back =>
    obtain ⟨same, segment, used, behind, origin, literal⟩ := reached
    rw [same, behind, origin]
    constructor
    · rintro ⟨rest, later, fine⟩
      obtain ⟨last, inside, fine⟩ := rest_suffix literal later fine
      rwa [List.suffix_nil.mp inside] at fine
    · intro fine
      exact ⟨used ++ [], List.suffix_rfl, (matches_literal literal).mpr fine⟩

theorem stuck_empty : ¬ Matches star fits [] (d :: t) := by simp [Matches]

theorem stuck_char (plain : ¬ star c) (misfit : ¬ fits c d) : ¬ Matches star fits (c :: p) (d :: t) :=
  fun fine => misfit ((matches_char plain).mp fine).1

end Wildcard

end Q9OS

import Mathlib.Tactic

/-!
# The last write wins

A fold whose steps overwrite a cell, or leave it alone, leaves in it what the
last step that touches it has put there.
-/

namespace Q9OS

variable {σ ε α : Type} {step : σ → ε → σ}

/-- The last element with `p`. -/
def lastWith (p : ε → Bool) (es : List ε) : Option ε := (es.filter p).getLast?

theorem lastWith_none {p : ε → Bool} {es : List ε} (absent : ∀ e ∈ es, p e = false) : lastWith p es = none := by
  unfold lastWith
  rw [List.filter_eq_nil_iff.mpr (fun e member => by rw [absent e member]; exact Bool.false_ne_true)]
  rfl

theorem lastWith_some {p : ε → Bool} {es : List ε} {e : ε} (last : lastWith p es = some e) : e ∈ es ∧ p e :=
  List.mem_filter.mp (List.mem_of_getLast? last)

theorem lastWith_ne_none {p : ε → Bool} {es : List ε} {e : ε} (member : e ∈ es) (here : p e) : lastWith p es ≠ none := by
  intro none
  have kept : e ∈ es.filter p := List.mem_filter.mpr ⟨member, here⟩
  rw [List.getLast?_eq_none_iff.mp none] at kept
  exact absurd kept List.not_mem_nil

theorem lastWith_append_one (p : ε → Bool) (es : List ε) (e : ε) :
    lastWith p (es ++ [e]) = if p e then some e else lastWith p es := by
  unfold lastWith
  rw [List.filter_append]
  by_cases here : p e
  · rw [if_pos here, List.filter_cons_of_pos here, List.filter_nil, List.getLast?_append]
    rfl
  · rw [if_neg here, List.filter_cons_of_neg here, List.filter_nil, List.append_nil]

/-- What the last element with `p` has put into a cell, or its old content. -/
def lastValue (p : ε → Bool) (value : ε → α) (es : List ε) (old : α) : α := ((lastWith p es).map value).getD old

theorem lastValue_absent {p : ε → Bool} {value : ε → α} {es : List ε} {old : α} (absent : ∀ e ∈ es, p e = false) :
    lastValue p value es old = old := by
  rw [lastValue, lastWith_none absent]
  rfl

/-- The cell `read` after all the steps. -/
theorem read_foldl (read : σ → α) {p : ε → Bool} {value : ε → α} (s : σ) (es : List ε)
    (each : ∀ s, ∀ e ∈ es, read (step s e) = if p e then value e else read s) :
    read (es.foldl step s) = lastValue p value es (read s) := by
  induction es using List.reverseRecOn with
  | nil => rfl
  | append_singleton es e ih =>
    rw [List.foldl_append, List.foldl_cons, List.foldl_nil, each _ e (List.mem_append_right _ (List.mem_singleton_self e)),
      lastValue, lastWith_append_one]
    by_cases here : p e
    · rw [if_pos here, if_pos here]
      rfl
    · rw [if_neg here, if_neg here]
      exact ih (fun s e member => each s e (List.mem_append_left _ member))

/-- A cell that no step touches. -/
theorem read_foldl_of_keeps (read : σ → α) (s : σ) (es : List ε) (keeps : ∀ s, ∀ e ∈ es, read (step s e) = read s) :
    read (es.foldl step s) = read s := by
  induction es generalizing s with
  | nil => rfl
  | cons e es ih =>
    exact (ih (step s e) (fun s e member => keeps s e (List.mem_cons_of_mem _ member))).trans
      (keeps s e List.mem_cons_self)

end Q9OS

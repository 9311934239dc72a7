import Mathlib.Tactic

/-!
# Stretches of clear places

Among the places from `low` up to `high` a stretch is clear throughout. One
pass finds the longest, and the first among the longest.
-/

namespace Q9OS

/-- `n` clear places from `s` on. -/
structure Stretch (clear : Nat → Prop) (low high s n : Nat) : Prop where
  low : low ≤ s
  high : s + n ≤ high
  clear : ∀ i, s ≤ i → i < s + n → clear i

/-- The first of the longest stretches; its length is 0 when nothing is clear. -/
structure Longest (clear : Nat → Prop) (low high s n : Nat) : Prop where
  stretch : 0 < n → Stretch clear low high s n
  longest : ∀ s' n', Stretch clear low high s' n' → n' ≤ n
  first : ∀ s', 0 < n → Stretch clear low high s' n → s ≤ s'

/-- The longest stretch that reaches up to `high`. -/
structure Reaching (clear : Nat → Prop) (low high s n : Nat) : Prop where
  stretch : 0 < n → Stretch clear low high s n ∧ s + n = high
  longest : ∀ s' n', Stretch clear low high s' n' → s' + n' = high → n' ≤ n

variable {clear : Nat → Prop} {low high s n start len : Nat}

theorem Stretch.more (stretch : Stretch clear low high s n) : Stretch clear low (high + 1) s n :=
  ⟨stretch.low, stretch.high.trans (Nat.le_succ high), stretch.clear⟩

/-- A stretch up to the next place ends there, or has been one before. -/
theorem Stretch.less (stretch : Stretch clear low (high + 1) s n) : s + n = high + 1 ∨ Stretch clear low high s n := by
  obtain ⟨above, below, all⟩ := stretch
  by_cases ends : s + n = high + 1
  · exact .inl ends
  · exact .inr ⟨above, by omega, all⟩

/-- A stretch that ends behind a clear place is one longer than before it. -/
theorem Stretch.shorter (stretch : Stretch clear low (high + 1) s (n + 1)) (ends : s + (n + 1) = high + 1) :
    Stretch clear low high s n :=
  ⟨stretch.low, by omega, fun i above below => stretch.clear i above (by omega)⟩

theorem longest_start (low : Nat) : Longest clear low low 0 0 := by
  refine ⟨by omega, ?_, by omega⟩
  rintro s' n' ⟨above, below, -⟩
  omega

theorem reaching_start (low s : Nat) : Reaching clear low low s 0 := by
  refine ⟨by omega, ?_⟩
  rintro s' n' ⟨above, below, -⟩ -
  omega

/-! ### One place further -/

theorem Reaching.taken (taken : ¬ clear high) : Reaching clear low (high + 1) s 0 := by
  refine ⟨by omega, ?_⟩
  intro s' n' stretch ends
  by_contra some
  exact taken (stretch.clear high (by omega) (by omega))

theorem Longest.taken (longest : Longest clear low high start len) (taken : ¬ clear high) :
    Longest clear low (high + 1) start len := by
  have before : ∀ s' n', 0 < n' → Stretch clear low (high + 1) s' n' → Stretch clear low high s' n' := by
    intro s' n' some stretch
    obtain ends | before := stretch.less
    · exact absurd (stretch.clear high (by omega) (by omega)) taken
    · exact before
  refine ⟨fun some => (longest.stretch some).more, ?_, ?_⟩
  · intro s' n' stretch
    obtain rfl | some := Nat.eq_zero_or_pos n'
    · exact Nat.zero_le len
    · exact longest.longest s' n' (before s' n' some stretch)
  · intro s' some stretch
    exact longest.first s' some (before s' len some stretch)

theorem Reaching.free (reaching : Reaching clear low high s n) (free : clear high) (inside : low ≤ high) :
    Reaching clear low (high + 1) (if n = 0 then high else s) (n + 1) := by
  refine ⟨fun _ => ?_, ?_⟩
  · by_cases fresh : n = 0
    · rw [if_pos fresh, fresh]
      refine ⟨⟨inside, le_refl _, ?_⟩, rfl⟩
      intro i above below
      obtain rfl : i = high := by omega
      exact free
    · obtain ⟨⟨above, below, all⟩, ends⟩ := reaching.stretch (by omega)
      rw [if_neg fresh]
      refine ⟨⟨above, by omega, ?_⟩, by omega⟩
      intro i lower upper
      obtain here | before : i = high ∨ i < s + n := by omega
      · rwa [here]
      · exact all i lower before
  · intro s' n' stretch ends
    cases n' with
    | zero => exact Nat.zero_le _
    | succ n' => exact Nat.succ_le_succ (reaching.longest s' n' (stretch.shorter ends) (by omega))

/-- The stretch that ends here replaces the longest one only when it has become longer. -/
theorem Longest.free (longest : Longest clear low high start len) (reaching : Reaching clear low (high + 1) s n) (some : 0 < n) :
    if n > len then Longest clear low (high + 1) s n else Longest clear low (high + 1) start len := by
  have bound : ∀ s' n', Stretch clear low (high + 1) s' n' → n' ≤ n ∨ n' ≤ len := by
    intro s' n' stretch
    obtain ends | before := stretch.less
    · exact .inl (reaching.longest s' n' stretch ends)
    · exact .inr (longest.longest s' n' before)
  split
  · next longer =>
    refine ⟨fun _ => (reaching.stretch some).1, ?_, ?_⟩
    · intro s' n' stretch
      have := bound s' n' stretch
      omega
    · intro s' _ stretch
      obtain ends | before := stretch.less
      · have := (reaching.stretch some).2
        omega
      · have := longest.longest s' n before
        omega
  · next short =>
    refine ⟨fun some => (longest.stretch some).more, ?_, ?_⟩
    · intro s' n' stretch
      have := bound s' n' stretch
      omega
    · intro s' some stretch
      obtain ends | before := stretch.less
      · have := (longest.stretch some).high
        omega
      · exact longest.first s' some before

/-- As long as no stretch of the wanted length has been seen, the first one ends at the next place. -/
theorem Reaching.least {count top : Nat} (reaching : Reaching clear low (high + 1) s n)
    (longest : Longest clear low high start len) (short : len < count) (enough : count ≤ n) (inside : high < top) :
    n = count ∧ IsLeast {s | Stretch clear low top s count} s := by
  obtain ⟨here, ends⟩ := reaching.stretch (by omega)
  obtain ⟨k, rfl⟩ := Nat.exists_eq_add_of_lt (show 0 < n by omega)
  have before := longest.longest s _ ((Nat.zero_add k ▸ here).shorter (by omega))
  obtain rfl : 0 + k + 1 = count := by omega
  refine ⟨rfl, ⟨here.low, by have := here.high; omega, here.clear⟩, ?_⟩
  rintro s' ⟨above, -, all⟩
  by_contra earlier
  have := longest.longest s' _ ⟨above, by omega, all⟩
  omega

end Q9OS

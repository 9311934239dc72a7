import Mathlib.Tactic

/-!
# Runs of a state machine

A machine is a partial step function. A condition on the state and the event
before each step restricts runs, and an invariant carries over whole runs.
-/

namespace Q9OS

variable {σ ε : Type} (step : σ → ε → Option σ)

/-- One event after another; `none` as soon as an event is not enabled. -/
def run (s : σ) : List ε → Option σ
  | [] => some s
  | event :: events => (step s event).bind (fun s => run s events)

/-- Every step of the run meets `cond` in the state it starts from. -/
def RunMeets (cond : σ → ε → Prop) : σ → List ε → Prop
  | _, [] => True
  | s, event :: events => cond s event ∧ ∀ s', step s event = some s' → RunMeets cond s' events

variable {step}

theorem run_cons {s s' : σ} {event : ε} {events : List ε} (ran : run step s (event :: events) = some s') :
    ∃ mid, step s event = some mid ∧ run step mid events = some s' :=
  Option.bind_eq_some_iff.mp ran

theorem run_append (s : σ) (before after : List ε) :
    run step s (before ++ after) = (run step s before).bind (fun s => run step s after) := by
  induction before generalizing s with
  | nil => rfl
  | cons event before ih =>
    rw [List.cons_append, run, run, Option.bind_assoc]
    exact congrArg _ (funext (fun s => ih s))

theorem run_step {s mid s' : σ} {event : ε} {events : List ε} (stepped : step s event = some mid)
    (rest : run step mid events = some s') : run step s (event :: events) = some s' := by
  rw [run, stepped]
  exact rest

theorem run_snoc {s mid s' : σ} {event : ε} {before : List ε} (ran : run step s before = some mid)
    (stepped : step mid event = some s') : run step s (before ++ [event]) = some s' := by
  rw [run_append, ran]
  exact run_step stepped rfl

/-- An invariant that each step under `cond` keeps holds after every run under `cond`. -/
theorem run_invariant {cond : σ → ε → Prop} {inv : σ → Prop}
    (keeps : ∀ s event s', inv s → cond s event → step s event = some s' → inv s')
    {s s' : σ} {events : List ε} (start : inv s) (meets : RunMeets step cond s events)
    (ran : run step s events = some s') : inv s' := by
  induction events generalizing s with
  | nil =>
    cases ran
    exact start
  | cons event events ih =>
    obtain ⟨mid, stepped, rest⟩ := run_cons ran
    exact ih (keeps s event mid start meets.1 stepped) (meets.2 mid stepped) rest

theorem RunMeets.front {cond : σ → ε → Prop} {s : σ} {before after : List ε}
    (meets : RunMeets step cond s (before ++ after)) : RunMeets step cond s before := by
  induction before generalizing s with
  | nil => trivial
  | cons event before ih => exact ⟨meets.1, fun s' stepped => ih (meets.2 s' stepped)⟩

theorem runMeets_next {cond : σ → ε → Prop} {s mid : σ} {before after : List ε} {event : ε}
    (meets : RunMeets step cond s (before ++ event :: after)) (ran : run step s before = some mid) : cond mid event := by
  induction before generalizing s with
  | nil =>
    cases ran
    exact meets.1
  | cons first before ih =>
    obtain ⟨next, stepped, rest⟩ := run_cons ran
    exact ih (meets.2 next stepped) rest

theorem runMeets_of_forall {cond : σ → ε → Prop} (always : ∀ s event, cond s event) (s : σ)
    (events : List ε) : RunMeets step cond s events := by
  induction events generalizing s with
  | nil => trivial
  | cons event events ih => exact ⟨always s event, fun s' _ => ih s'⟩

/-- A condition that is exact at each step is exact over runs: every state reached is good if
and only if every step meets it. -/
theorem runMeets_iff {cond : σ → ε → Prop} {inv good : σ → Prop} (total : ∀ s event, ∃ s', step s event = some s')
    (sound : ∀ s, inv s → good s)
    (keeps : ∀ s event s', inv s → cond s event → step s event = some s' → inv s')
    (tight : ∀ s event s', inv s → step s event = some s' → good s' → cond s event)
    {s : σ} (start : inv s) (events : List ε) :
    RunMeets step cond s events ↔
      ∀ front back mid, events = front ++ back → run step s front = some mid → good mid := by
  constructor
  · rintro meets front back mid rfl ran
    exact sound mid (run_invariant keeps start meets.front ran)
  · intro always
    induction events generalizing s with
    | nil => trivial
    | cons event events ih =>
      obtain ⟨next, stepped⟩ := total s event
      have first : good next := always [event] events next rfl (run_step stepped rfl)
      have met := tight s event next start stepped first
      refine ⟨met, fun s' stepped' => ?_⟩
      have kept := keeps s event s' start met stepped'
      refine ih kept (fun front back mid split ran => ?_)
      exact always (event :: front) back mid (by rw [split, List.cons_append]) (run_step stepped' ran)

/-- Two conditions that agree wherever the invariant holds agree over every run that goes through. -/
theorem runMeets_congr {cond good : σ → ε → Prop} {inv : σ → Prop}
    (keeps : ∀ s event s', inv s → step s event = some s' → cond s event → inv s')
    (same : ∀ s event s', inv s → step s event = some s' → (cond s event ↔ good s event))
    {s s' : σ} {events : List ε} (start : inv s) (ran : run step s events = some s') :
    RunMeets step cond s events ↔ RunMeets step good s events := by
  induction events generalizing s with
  | nil => exact Iff.rfl
  | cons event events ih =>
    obtain ⟨mid, stepped, rest⟩ := run_cons ran
    have first := same s event mid start stepped
    refine and_congr_left' first |>.trans (and_congr_right (fun met => ?_))
    refine forall₂_congr (fun next stepped' => ?_)
    obtain rfl := Option.some.inj (stepped.symm.trans stepped')
    exact ih (keeps s event mid start stepped (first.mpr met)) rest

end Q9OS

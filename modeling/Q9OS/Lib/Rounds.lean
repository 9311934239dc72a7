import Mathlib.Tactic

/-!
# Serving a queue in rounds

Each round serves the first member whose demand the current value meets, and
moves the value on. Members that are passed over keep their places.
-/

namespace Q9OS

variable {α ν : Type} {fits : ν → α → Prop} {advance : ν → ν}

/-- From the value `v` and the queue `q` those in `served` were served, each at the value noted with
it, which left the value and the queue at the end. -/
inductive Rounds (fits : ν → α → Prop) (advance : ν → ν) : ν → List α → List (α × ν) → ν → List α → Prop
  | stop (v : ν) (q : List α) : Rounds fits advance v q [] v q
  | serve {v final : ν} {front back rest : List α} {a : α} {served : List (α × ν)} :
    (∀ b ∈ front, ¬ fits v b) → fits v a → Rounds fits advance (advance v) (front ++ back) served final rest →
      Rounds fits advance v (front ++ a :: back) ((a, v) :: served) final rest

/-- The first member that fits is where it is. -/
theorem firstFit_unique {v : ν} {front front' back back' : List α} {a a' : α} (same : front ++ a :: back = front' ++ a' :: back')
    (before : ∀ b ∈ front, ¬ fits v b) (here : fits v a) (before' : ∀ b ∈ front', ¬ fits v b) (here' : fits v a') :
    front = front' ∧ a = a' ∧ back = back' := by
  induction front generalizing front' with
  | nil =>
    cases front' with
    | nil =>
      obtain ⟨rfl, rfl⟩ := List.cons.inj same
      exact ⟨rfl, rfl, rfl⟩
    | cons b front' =>
      obtain ⟨rfl, -⟩ := List.cons.inj same
      exact absurd here (before' a List.mem_cons_self)
  | cons c front ih =>
    cases front' with
    | nil =>
      obtain ⟨rfl, -⟩ := List.cons.inj same
      exact absurd here' (before c List.mem_cons_self)
    | cons b front' =>
      obtain ⟨rfl, rest⟩ := List.cons.inj same
      obtain ⟨rfl, rfl, rfl⟩ := ih rest (fun b member => before b (List.mem_cons_of_mem _ member))
        (fun b member => before' b (List.mem_cons_of_mem _ member))
      exact ⟨rfl, rfl, rfl⟩

namespace Rounds
variable {v final : ν} {q rest : List α} {served : List (α × ν)}

theorem length (rounds : Rounds fits advance v q served final rest) : served.length + rest.length = q.length := by
  induction rounds with
  | stop v q => simp
  | serve before here rounds ih =>
    simp only [List.length_append, List.length_cons] at ih ⊢
    omega

theorem value (rounds : Rounds fits advance v q served final rest) : final = advance^[served.length] v := by
  induction rounds with
  | stop v q => rfl
  | serve before here rounds ih => exact ih

theorem sublist (rounds : Rounds fits advance v q served final rest) : rest.Sublist q := by
  induction rounds with
  | stop v q => exact List.Sublist.refl _
  | serve before here rounds ih => exact ih.trans (List.Sublist.append_left (List.sublist_cons_self _ _) _)

theorem mem (rounds : Rounds fits advance v q served final rest) {a : α} (member : a ∈ served.map Prod.fst) : a ∈ q := by
  induction rounds with
  | stop v q => cases member
  | serve before here rounds ih =>
    rcases List.mem_cons.mp member with rfl | later
    · simp
    · have inside := ih later
      simp only [List.mem_append, List.mem_cons] at inside ⊢
      tauto

/-- No rounds go on beyond those that leave nobody who fits. -/
theorem longest {final' : ν} {rest' : List α} {served' : List (α × ν)} (rounds : Rounds fits advance v q served final rest)
    (done : ∀ b ∈ rest, ¬ fits final b) (other : Rounds fits advance v q served' final' rest') :
    served'.length ≤ served.length ∧ (served'.length = served.length → served' = served ∧ final' = final ∧ rest' = rest) := by
  induction rounds generalizing served' with
  | stop v q =>
    generalize is : q = queue at other
    cases other with
    | stop => exact ⟨le_refl _, fun _ => ⟨rfl, rfl, rfl⟩⟩
    | serve before here onward =>
      subst is
      exact absurd here (done _ (by simp))
  | @serve v final front back rest a served before here rounds ih =>
    generalize is : front ++ a :: back = queue at other
    cases other with
    | stop => exact ⟨Nat.zero_le _, fun none => by simp at none⟩
    | serve before' here' onward =>
      obtain ⟨rfl, rfl, rfl⟩ := firstFit_unique is before here before' here'
      obtain ⟨shorter, equal⟩ := ih done onward
      refine ⟨Nat.succ_le_succ shorter, fun lengths => ?_⟩
      obtain ⟨rfl, rfl, rfl⟩ := equal (Nat.succ.inj lengths)
      exact ⟨rfl, rfl, rfl⟩

/-- A value everybody fits and nothing moves serves all in order. -/
theorem everybody (all : ∀ a ∈ q, fits v a) (stays : advance v = v) :
    Rounds fits advance v q (q.map fun a => (a, v)) v [] := by
  induction q with
  | nil => exact .stop v []
  | cons a q ih =>
    have later := ih (fun b member => all b (List.mem_cons_of_mem _ member))
    rw [List.map_cons]
    have before : ∀ b ∈ ([] : List α), ¬ fits v b := nofun
    refine .serve before (all a List.mem_cons_self) ?_
    rw [stays]
    exact later

end Rounds

end Q9OS

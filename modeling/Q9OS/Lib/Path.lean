import Mathlib.Tactic

/-!
# Paths read component by component

A path is a list of characters; the names between separators are followed one
after another, where "." stays and ".." goes up.
-/

namespace Q9OS

namespace Path

variable {α : Type} [DecidableEq α] {sep dot : α}

/-- One name further. The root is its own parent. -/
def enter (dot : α) (here : List (List α)) (name : List α) : List (List α) :=
  if name = [] ∨ name = [dot] then here else if name = [dot, dot] then here.dropLast else here ++ [name]

def walk (dot : α) (here : List (List α)) (names : List (List α)) : List (List α) := names.foldl (enter dot) here

/-- Where an absolute path leads, as the names from the root on. -/
def location (sep dot : α) (path : List α) : List (List α) := walk dot [] (path.splitOn sep)

/-- The name of an entry, not of a step. -/
structure Proper (sep dot : α) (name : List α) : Prop where
  nonempty : name ≠ []
  whole : sep ∉ name
  here : name ≠ [dot]
  up : name ≠ [dot, dot]

/-- The canonical path of a location. -/
def render (sep : α) (names : List (List α)) : List α := sep :: [sep].intercalate names

theorem location_append (a b : List α) : location sep dot (a ++ sep :: b) = walk dot (location sep dot a) (b.splitOn sep) := by
  unfold location walk
  rw [List.splitOn_append_cons_self, List.foldl_append]

theorem enter_proper {name : List α} (proper : Proper sep dot name) (here : List (List α)) :
    enter dot here name = here ++ [name] := by
  unfold enter
  rw [if_neg (not_or.mpr ⟨proper.nonempty, proper.here⟩), if_neg proper.up]

theorem walk_proper {names : List (List α)} (proper : ∀ name ∈ names, Proper sep dot name) (here : List (List α)) :
    walk dot here names = here ++ names := by
  induction names generalizing here with
  | nil => simp [walk]
  | cons name rest ih =>
    have first : walk dot here (name :: rest) = walk dot (enter dot here name) rest := rfl
    rw [first, enter_proper (proper name List.mem_cons_self), ih (fun n member => proper n (List.mem_cons_of_mem _ member)),
      List.append_assoc]
    rfl

theorem splitOn_render {names : List (List α)} (proper : ∀ name ∈ names, Proper sep dot name) (some : names ≠ []) :
    (render sep names).splitOn sep = [] :: names := by
  have whole : ([sep].intercalate names).splitOn sep = names :=
    List.splitOn_intercalate sep (fun name member => (proper name member).whole) some
  have split : (render sep names).splitOn sep = [].splitOn sep ++ ([sep].intercalate names).splitOn sep :=
    List.splitOn_append_cons_self [] _
  rw [split, whole]
  simp

theorem location_render {names : List (List α)} (proper : ∀ name ∈ names, Proper sep dot name) :
    location sep dot (render sep names) = names := by
  by_cases some : names = []
  · subst some
    simp [location, render, walk, enter, List.splitOn_cons_eq_if_modifyHead]
  · unfold location
    rw [splitOn_render proper some]
    exact walk_proper proper []

/-- No step up leaves the place where the walk began. -/
def Stays (dot : α) : Nat → List (List α) → Prop
  | _, [] => True
  | depth, name :: rest =>
    if name = [] ∨ name = [dot] then Stays dot depth rest
    else if name = [dot, dot] then depth ≠ 0 ∧ Stays dot (depth - 1) rest
    else Stays dot (depth + 1) rest

theorem stays_walk {base here : List (List α)} {names : List (List α)} (stays : Stays dot (here.length - base.length) names)
    (below : base <+: here) : base <+: walk dot here names := by
  induction names generalizing here with
  | nil => exact below
  | cons name rest ih =>
    have long := below.length_le
    unfold Stays at stays
    show base <+: walk dot (enter dot here name) rest
    unfold enter
    split_ifs at stays ⊢
    · exact ih stays below
    · refine ih ?_ ?_
      · rw [List.length_dropLast]
        have same : here.length - 1 - base.length = here.length - base.length - 1 := by omega
        rw [same]
        exact stays.2
      · rw [List.prefix_iff_eq_take] at below ⊢
        have shorter : base.length ≤ here.length - 1 := by omega
        rw [List.dropLast_eq_take, List.take_take, Nat.min_eq_left shorter]
        exact below
    · refine ih ?_ (below.trans (List.prefix_append here [name]))
      rw [List.length_append, List.length_singleton]
      have same : here.length + 1 - base.length = here.length - base.length + 1 := by omega
      rw [same]
      exact stays

/-- One more name keeps below a base, unless it steps up from the base itself. -/
theorem prefix_enter {base dir : List (List α)} {last : List α} (below : base <+: dir)
    (up : last = [dot, dot] → dir ≠ base) : base <+: enter dot dir last := by
  unfold enter
  split
  · exact below
  · split
    · next steps =>
      obtain ⟨more, rfl⟩ := below
      have deeper : more ≠ [] := by
        rintro rfl
        exact up steps (List.append_nil base)
      rw [List.dropLast_append_of_ne_nil deeper]
      exact List.prefix_append base _
    · exact below.trans (List.prefix_append dir [last])

/-- The names of a directory and one more, when its text starts like a base. -/
theorem names_of_prefix {base dir tail : List (List α)} {last : List α} (baseProper : ∀ name ∈ base, Proper sep dot name)
    (dirProper : ∀ name ∈ dir, Proper sep dot name) (below : base ≠ [])
    (names : (render sep dir).splitOn sep ++ [last] = ([] :: base) ++ tail) : dir ++ [last] = base ++ tail := by
  by_cases root : dir = []
  · subst root
    obtain ⟨first, rest, rfl⟩ := List.exists_cons_of_ne_nil below
    have empty : first = [] := by
      simp [render, List.splitOn_cons_eq_if_modifyHead] at names
      exact names.1
    exact absurd empty (baseProper first List.mem_cons_self).nonempty
  · rw [splitOn_render dirProper root] at names
    exact (List.cons.inj names).2

/-- A location and one more name, which starts with the text of a base: it leads to the base or below, if
the text of the base ends where a name does and the name is no step up from the base itself. -/
theorem prefix_location {base dir : List (List α)} {last : List α} (baseProper : ∀ name ∈ base, Proper sep dot name)
    (dirProper : ∀ name ∈ dir, Proper sep dot name) (whole : sep ∉ last)
    (starts : render sep base <+: render sep dir ++ sep :: last)
    (ends : base = [] ∨ ∀ c rest, render sep dir ++ sep :: last = render sep base ++ c :: rest → c = sep)
    (up : last = [dot, dot] → dir ≠ base) : base <+: location sep dot (render sep dir ++ sep :: last) := by
  by_cases root : base = []
  · rw [root]
    exact List.nil_prefix
  have ends := ends.resolve_left root
  have location : location sep dot (render sep dir ++ sep :: last) = enter dot dir last := by
    rw [location_append, location_render dirProper, List.splitOn_eq_singleton whole]
    rfl
  have names : (render sep dir ++ sep :: last).splitOn sep = (render sep dir).splitOn sep ++ [last] := by
    rw [List.splitOn_append_cons_self, List.splitOn_eq_singleton whole]
  rw [location]
  obtain ⟨rest, same⟩ := starts
  cases rest with
  | nil =>
    -- the path is the base, so the last name is one of its names
    rw [← same, List.append_nil, splitOn_render baseProper root] at names
    have parts : dir ++ [last] = base ++ [] :=
      names_of_prefix baseProper dirProper root (names.symm.trans (List.append_nil _).symm)
    rw [List.append_nil] at parts
    have member : last ∈ base := by
      rw [← parts]
      exact List.mem_append_right dir (List.mem_singleton_self last)
    rw [enter_proper (baseProper last member), parts]
  | cons c rest =>
    obtain rfl := ends c rest same.symm
    rw [← same, List.splitOn_append_cons_self, splitOn_render baseProper root] at names
    have parts := names_of_prefix baseProper dirProper root names.symm
    obtain ⟨front, final, tail⟩ := List.eq_nil_or_concat (rest.splitOn c) |>.resolve_left (List.splitOn_ne_nil c rest)
    rw [tail, List.concat_eq_append, ← List.append_assoc] at parts
    have dirs : dir = base ++ front := (List.append_inj' parts rfl).1
    exact prefix_enter (dirs ▸ List.prefix_append base front) up

end Path

end Q9OS

import Mathlib.Tactic

/-!
# Singly linked chains

A chain starts at a head pointer, follows `next` and ends at the null value.
-/

namespace Q9OS

variable {α : Type} {next next' : α → α} {null head : α}

/-- Following `next` from `head` visits exactly `nodes` and then meets `null`. -/
def Linked (next : α → α) (null : α) : α → List α → Prop
  | head, [] => head = null
  | head, a :: nodes => head = a ∧ a ≠ null ∧ Linked next null (next a) nodes

namespace Linked

theorem unique {nodes nodes' : List α} (one : Linked next null head nodes)
    (two : Linked next null head nodes') : nodes = nodes' := by
  induction nodes generalizing head nodes' with
  | nil =>
    cases nodes' with
    | nil => rfl
    | cons b rest => exact absurd (two.1.symm.trans one) two.2.1
  | cons a nodes ih =>
    cases nodes' with
    | nil => exact absurd (one.1.symm.trans two) one.2.1
    | cons b rest =>
      obtain ⟨rfl, -, onward⟩ := one
      obtain ⟨rfl, -, onward'⟩ := two
      rw [ih onward onward']

theorem congr {nodes : List α} (same : ∀ a ∈ nodes, next' a = next a)
    (linked : Linked next null head nodes) : Linked next' null head nodes := by
  induction nodes generalizing head with
  | nil => exact linked
  | cons a nodes ih =>
    obtain ⟨rfl, live, onward⟩ := linked
    refine ⟨rfl, live, ?_⟩
    rw [same head (List.mem_cons_self ..)]
    exact ih (fun b member => same b (List.mem_cons_of_mem _ member)) onward

theorem ne_null {nodes : List α} (linked : Linked next null head nodes) {a : α}
    (member : a ∈ nodes) : a ≠ null := by
  induction nodes generalizing head with
  | nil => cases member
  | cons b nodes ih =>
    rcases List.mem_cons.mp member with rfl | later
    · exact linked.2.1
    · exact ih linked.2.2 later

/-- The chain from a node on. -/
theorem drop {front back : List α} {a : α} (linked : Linked next null head (front ++ a :: back)) :
    Linked next null a (a :: back) := by
  induction front generalizing head with
  | nil =>
    obtain ⟨rfl, live, onward⟩ := linked
    exact ⟨rfl, live, onward⟩
  | cons b front ih => exact ih linked.2.2

/-- A chain that ends meets no node twice. -/
theorem nodup {nodes : List α} (linked : Linked next null head nodes) : nodes.Nodup := by
  induction nodes generalizing head with
  | nil => exact List.nodup_nil
  | cons a nodes ih =>
    refine List.nodup_cons.mpr ⟨fun member => ?_, ih linked.2.2⟩
    obtain ⟨front, back, rfl⟩ := List.append_of_mem member
    have again : Linked next null a (a :: back) := drop linked.2.2
    have whole : Linked next null a (a :: (front ++ a :: back)) := ⟨rfl, linked.2.1, linked.2.2⟩
    have lengths := congrArg List.length (unique whole again)
    simp only [List.length_cons, List.length_append] at lengths
    omega

/-- Rewriting the link behind a front part replaces the rest of the chain. -/
theorem replace {front back back' : List α} {last new : α}
    (linked : Linked next null head (front ++ last :: back))
    (same : ∀ a ∈ front, next' a = next a) (link : next' last = new)
    (rest : Linked next' null new back') : Linked next' null head (front ++ last :: back') := by
  induction front generalizing head with
  | nil =>
    obtain ⟨rfl, live, -⟩ := linked
    exact ⟨rfl, live, by rw [link]; exact rest⟩
  | cons b front ih =>
    obtain ⟨rfl, live, onward⟩ := linked
    refine ⟨rfl, live, ?_⟩
    rw [same head (List.mem_cons_self ..)]
    exact ih onward (fun a member => same a (List.mem_cons_of_mem _ member))

end Linked

end Q9OS

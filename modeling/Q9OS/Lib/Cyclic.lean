import Mathlib.Tactic

/-!
# Circular doubly linked lists

The nodes of a list stand between a sentinel and itself. Removal and insertion
rewrite two links each, and every other link stays.
-/

namespace Q9OS

variable {α : Type} {next prev next' prev' : α → α} {a b b' s node : α} {nodes front back : List α}

/-- From `a` through `nodes` to `b`, each node linked to the one behind it and back. -/
def Strung (next prev : α → α) : α → List α → α → Prop
  | a, [], b => next a = b ∧ prev b = a
  | a, c :: nodes, b => next a = c ∧ prev c = a ∧ Strung next prev c nodes b

namespace Strung

theorem append_iff : Strung next prev a (front ++ node :: back) b ↔
    Strung next prev a front node ∧ Strung next prev node back b := by
  induction front generalizing a with
  | nil => simp only [List.nil_append, Strung, and_assoc]
  | cons c front ih => simp only [List.cons_append, Strung, ih, and_assoc]

theorem congr (strung : Strung next prev a nodes b) (nexts : ∀ c ∈ a :: nodes, next' c = next c)
    (prevs : ∀ c ∈ nodes ++ [b], prev' c = prev c) : Strung next' prev' a nodes b := by
  induction nodes generalizing a with
  | nil =>
    refine ⟨?_, ?_⟩
    · rw [nexts a List.mem_cons_self, strung.1]
    · rw [prevs b List.mem_cons_self, strung.2]
  | cons c nodes ih =>
    obtain ⟨forth, back, rest⟩ := strung
    refine ⟨?_, ?_, ih rest (fun d member => nexts d (List.mem_cons_of_mem _ member))
      (fun d member => prevs d (List.mem_cons_of_mem _ member))⟩
    · rw [nexts a List.mem_cons_self, forth]
    · rw [prevs c List.mem_cons_self, back]

theorem prev_mem (strung : Strung next prev a nodes b) : prev b ∈ a :: nodes := by
  induction nodes generalizing a with
  | nil =>
    rw [strung.2]
    exact List.mem_cons_self
  | cons c nodes ih => exact List.mem_cons_of_mem _ (ih strung.2.2)

theorem next_mem (strung : Strung next prev a nodes b) : next a ∈ nodes ++ [b] := by
  cases nodes with
  | nil =>
    rw [strung.1]
    exact List.mem_cons_self
  | cons c nodes =>
    rw [strung.1]
    exact List.mem_cons_self

/-- The link of the last node leads to another end. -/
theorem redirect (strung : Strung next prev a nodes b) (nodup : (a :: nodes).Nodup)
    (nexts : ∀ c ∈ a :: nodes, c ≠ prev b → next' c = next c) (link : next' (prev b) = b')
    (prevs : ∀ c ∈ nodes, prev' c = prev c) (back : prev' b' = prev b) : Strung next' prev' a nodes b' := by
  induction nodes generalizing a with
  | nil =>
    rw [strung.2] at link back
    exact ⟨link, back⟩
  | cons c nodes ih =>
    obtain ⟨forth, behind, rest⟩ := strung
    obtain ⟨fresh, others⟩ := List.nodup_cons.mp nodup
    have last := rest.prev_mem
    refine ⟨?_, ?_, ih rest others (fun d member => nexts d (List.mem_cons_of_mem _ member))
      (fun d member => prevs d (List.mem_cons_of_mem _ member))⟩
    · rw [nexts a List.mem_cons_self (fun same => fresh (same ▸ last)), forth]
    · rw [prevs c List.mem_cons_self, behind]

theorem unique {nodes' : List α} (one : Strung next prev a nodes b) (two : Strung next prev a nodes' b) (out : b ∉ nodes)
    (out' : b ∉ nodes') : nodes = nodes' := by
  induction nodes generalizing a nodes' with
  | nil =>
    cases nodes' with
    | nil => rfl
    | cons c rest => exact absurd (List.mem_cons.mpr (.inl (one.1.symm.trans two.1))) out'
  | cons c nodes ih =>
    cases nodes' with
    | nil => exact absurd (List.mem_cons.mpr (.inl (two.1.symm.trans one.1))) out
    | cons c' rest =>
      obtain ⟨forth, -, onward⟩ := one
      obtain ⟨forth', -, onward'⟩ := two
      obtain rfl : c = c' := forth.symm.trans forth'
      rw [ih onward onward' (fun member => out (List.mem_cons_of_mem _ member))
        (fun member => out' (List.mem_cons_of_mem _ member))]

end Strung

/-- The nodes around a sentinel. -/
structure Cyclic (next prev : α → α) (s : α) (nodes : List α) : Prop where
  strung : Strung next prev s nodes s
  nodup : (s :: nodes).Nodup

namespace Cyclic

theorem congr (ring : Cyclic next prev s nodes) (nexts : ∀ c ∈ s :: nodes, next' c = next c)
    (prevs : ∀ c ∈ s :: nodes, prev' c = prev c) : Cyclic next' prev' s nodes := by
  refine ⟨ring.strung.congr nexts (fun c member => prevs c ?_), ring.nodup⟩
  rcases List.mem_append.mp member with inside | last
  · exact List.mem_cons_of_mem _ inside
  · rw [List.mem_singleton.mp last]
    exact List.mem_cons_self

/-- The neighbours of a node belong to the list. -/
theorem neighbours (ring : Cyclic next prev s nodes) (member : node ∈ nodes) :
    prev node ∈ s :: nodes ∧ next node ∈ s :: nodes := by
  obtain ⟨front, back, rfl⟩ := List.append_of_mem member
  obtain ⟨before, after⟩ := Strung.append_iff.mp ring.strung
  refine ⟨?_, ?_⟩
  · rcases List.mem_cons.mp before.prev_mem with same | inside
    · rw [same]
      exact List.mem_cons_self
    · exact List.mem_cons_of_mem _ (List.mem_append_left _ inside)
  · rcases List.mem_append.mp after.next_mem with inside | last
    · exact List.mem_cons_of_mem _ (List.mem_append_right _ (List.mem_cons_of_mem _ inside))
    · rw [List.mem_singleton.mp last]
      exact List.mem_cons_self

/-- A ring is what its links say. -/
theorem unique {nodes' : List α} (one : Cyclic next prev s nodes) (two : Cyclic next prev s nodes') : nodes = nodes' :=
  one.strung.unique two.strung (List.nodup_cons.mp one.nodup).1 (List.nodup_cons.mp two.nodup).1

theorem last_mem (ring : Cyclic next prev s nodes) : prev s ∈ s :: nodes := ring.strung.prev_mem

/-- A node goes: its neighbours are linked to each other. -/
theorem unlink (ring : Cyclic next prev s (front ++ node :: back)) (forth : next' (prev node) = next node)
    (behind : prev' (next node) = prev node) (nexts : ∀ c, c ≠ prev node → next' c = next c)
    (prevs : ∀ c, c ≠ next node → prev' c = prev c) : Cyclic next' prev' s (front ++ back) := by
  obtain ⟨strung, nodup⟩ := ring
  obtain ⟨before, after⟩ := Strung.append_iff.mp strung
  have kept : (s :: (front ++ back)).Nodup := by
    refine nodup.sublist (List.Sublist.cons_cons _ ?_)
    exact List.Sublist.append_left (List.sublist_cons_self _ _) front
  have frontNodup : (s :: front).Nodup := kept.sublist (List.Sublist.cons_cons _ (List.sublist_append_left _ _))
  refine ⟨?_, kept⟩
  cases back with
  | nil =>
    rw [List.append_nil]
    have ends : next node = s := after.1
    have inside (c : α) (member : c ∈ front) : c ≠ next node := by
      rintro rfl
      rw [ends] at member
      exact (List.nodup_cons.mp frontNodup).1 member
    refine before.redirect frontNodup (fun c _ => nexts c) ?_ (fun c member => prevs c (inside c member)) ?_
    · rw [forth, ends]
    · rw [← ends, behind]
  | cons q rest =>
    obtain ⟨follows, -, onward⟩ := after
    rw [follows] at forth behind prevs
    rw [List.nodup_cons, List.nodup_append] at kept
    obtain ⟨absent, -, restNodup, apart⟩ := kept
    have inFront (c : α) (member : c ∈ front) : c ≠ q := apart c member q List.mem_cons_self
    have inBack (c : α) (member : c ∈ q :: rest) : c ≠ prev node := by
      rintro rfl
      rcases List.mem_cons.mp before.prev_mem with same | inside
      · rw [same] at member
        exact absent (List.mem_append_right _ member)
      · exact apart _ inside _ member rfl
    refine Strung.append_iff.mpr ⟨?_, ?_⟩
    · exact before.redirect frontNodup (fun c _ => nexts c) forth (fun c member => prevs c (inFront c member)) behind
    · refine onward.congr (fun c member => nexts c (inBack c member)) (fun c member => prevs c ?_)
      rintro rfl
      rcases List.mem_append.mp member with inside | last
      · exact (List.nodup_cons.mp restNodup).1 inside
      · rw [List.mem_singleton.mp last] at absent
        exact absent (List.mem_append_right _ List.mem_cons_self)

/-- A node comes in before the sentinel. -/
theorem append (ring : Cyclic next prev s nodes) (fresh : node ∉ s :: nodes) (first : next' node = s)
    (tail : prev' node = prev s) (link : next' (prev s) = node) (last : prev' s = node)
    (nexts : ∀ c, c ≠ node → c ≠ prev s → next' c = next c) (prevs : ∀ c, c ≠ node → c ≠ s → prev' c = prev c) :
    Cyclic next' prev' s (nodes ++ [node]) := by
  obtain ⟨strung, nodup⟩ := ring
  have other (c : α) (member : c ∈ s :: nodes) : c ≠ node := fun same => fresh (same ▸ member)
  refine ⟨Strung.append_iff.mpr ⟨?_, first, last⟩, ?_⟩
  · refine strung.redirect nodup (fun c member => nexts c (other c member)) link (fun c member => ?_) tail
    refine prevs c (other c (List.mem_cons_of_mem _ member)) ?_
    rintro rfl
    exact (List.nodup_cons.mp nodup).1 member
  · rw [← List.cons_append]
    refine List.nodup_append.mpr ⟨nodup, List.nodup_singleton _, fun c member d single => ?_⟩
    rw [List.mem_singleton.mp single]
    exact other c member

end Cyclic

end Q9OS

import Mathlib.Tactic
import Q9OS.Lib.Cyclic
import Q9OS.Process.Frame

/-!
# Queues as lists

The queue operations of `q9kernel_sched.c` on well-formed queues. Nodes outside
a queue keep their links.
-/

namespace Q9OS

open Heap

def nextOf (h : Heap) (a : Nat) : Nat := h.get32 a Desc.next

def prevOf (h : Heap) (a : Nat) : Nat := h.get32 a Desc.prev

/-- The queue with sentinel `s` holds `nodes`. -/
def Queue (h : Heap) (s : Nat) (nodes : List Nat) : Prop := Cyclic (nextOf h) (prevOf h) s nodes

theorem nextOf_lt (h : Heap) (a : Nat) : nextOf h a < 4294967296 := h.get32_lt a _

/-! ### Single links -/

theorem nextOf_setNext (h : Heap) (a v c : Nat) (small : v < 4294967296) :
    nextOf (h.set32 a Desc.next v) c = if c = a then v else nextOf h c := by
  unfold nextOf
  split
  · next same => rw [same, get32_set32_of_lt _ _ _ small]
  · next other => exact get32_set32_block _ _ _ _ other

theorem prevOf_setPrev (h : Heap) (a v c : Nat) (small : v < 4294967296) :
    prevOf (h.set32 a Desc.prev v) c = if c = a then v else prevOf h c := by
  unfold prevOf
  split
  · next same => rw [same, get32_set32_of_lt _ _ _ small]
  · next other => exact get32_set32_block _ _ _ _ other

@[simp] theorem nextOf_setPrev (h : Heap) (a v c : Nat) : nextOf (h.set32 a Desc.prev v) c = nextOf h c :=
  get32_set32_off _ _ _ _ (by decide)

@[simp] theorem prevOf_setNext (h : Heap) (a v c : Nat) : prevOf (h.set32 a Desc.next v) c = prevOf h c :=
  get32_set32_off _ _ _ _ (by decide)

/-- Writes outside the links leave every queue as it is. -/
theorem Queue.agree {h h' : Heap} {s : Nat} {nodes : List Nat} (queue : Queue h s nodes)
    (nexts : ∀ c, nextOf h' c = nextOf h c) (prevs : ∀ c, prevOf h' c = prevOf h c) : Queue h' s nodes :=
  queue.congr (fun c _ => nexts c) (fun c _ => prevs c)

/-! ### Removal and insertion -/

theorem nextOf_listUnlink (h : Heap) (node c : Nat) :
    nextOf (listUnlink h node) c = if c = prevOf h node then nextOf h node else nextOf h c := by
  unfold listUnlink
  rw [nextOf_setPrev, nextOf_setNext _ _ _ _ (h.get32_lt _ _)]
  rfl

theorem prevOf_listUnlink (h : Heap) (node c : Nat) :
    prevOf (listUnlink h node) c = if c = nextOf h node then prevOf h node else prevOf h c := by
  unfold listUnlink
  rw [prevOf_setPrev _ _ _ _ (h.get32_lt _ _), prevOf_setNext]
  rfl

theorem Queue.unlink {h : Heap} {s node : Nat} {front back : List Nat} (queue : Queue h s (front ++ node :: back)) :
    Queue (listUnlink h node) s (front ++ back) := by
  refine Cyclic.unlink queue ?_ ?_ (fun c other => ?_) (fun c other => ?_)
  · rw [nextOf_listUnlink, if_pos rfl]
  · rw [prevOf_listUnlink, if_pos rfl]
  · rw [nextOf_listUnlink, if_neg other]
  · rw [prevOf_listUnlink, if_neg other]

theorem Queue.unlink_outside {h : Heap} {s node c : Nat} {nodes : List Nat} (queue : Queue h s nodes)
    (member : node ∈ nodes) (out : c ∉ s :: nodes) : nextOf (listUnlink h node) c = nextOf h c := by
  rw [nextOf_listUnlink, if_neg]
  rintro rfl
  exact out (queue.neighbours member).1

theorem nextOf_listAppend (h : Heap) (s node c : Nat) (small : s < 4294967296) (fits : node < 4294967296) :
    nextOf (listAppend h s node) c =
      if c = prevOf h s then node else if c = node then s else nextOf h c := by
  unfold listAppend
  dsimp only
  rw [nextOf_setPrev, nextOf_setNext _ _ _ _ fits, nextOf_setPrev, nextOf_setNext _ _ _ _ small]
  rfl

theorem prevOf_listAppend (h : Heap) (s node c : Nat) (fits : node < 4294967296) :
    prevOf (listAppend h s node) c = if c = s then node else if c = node then prevOf h s else prevOf h c := by
  unfold listAppend
  dsimp only
  rw [prevOf_setPrev _ _ _ _ fits, prevOf_setNext, prevOf_setPrev _ _ _ _ (h.get32_lt _ _), prevOf_setNext]
  rfl

theorem Queue.append {h : Heap} {s node : Nat} {nodes : List Nat} (queue : Queue h s nodes)
    (small : s < 4294967296) (fits : node < 4294967296) (fresh : node ∉ s :: nodes) :
    Queue (listAppend h s node) s (nodes ++ [node]) := by
  have notTail : node ≠ prevOf h s := fun same => fresh (same ▸ queue.last_mem)
  have notSentinel : node ≠ s := fun same => fresh (same ▸ List.mem_cons_self)
  refine Cyclic.append queue fresh ?_ ?_ ?_ ?_ (fun c other off => ?_) (fun c other off => ?_)
  · rw [nextOf_listAppend _ _ _ _ small fits, if_neg notTail, if_pos rfl]
  · rw [prevOf_listAppend _ _ _ _ fits, if_neg notSentinel, if_pos rfl]
  · rw [nextOf_listAppend _ _ _ _ small fits, if_pos rfl]
  · rw [prevOf_listAppend _ _ _ _ fits, if_pos rfl]
  · rw [nextOf_listAppend _ _ _ _ small fits, if_neg off, if_neg other]
  · rw [prevOf_listAppend _ _ _ _ fits, if_neg off, if_neg other]

theorem Queue.append_outside {h : Heap} {s node c : Nat} {nodes : List Nat} (queue : Queue h s nodes)
    (small : s < 4294967296) (fits : node < 4294967296) (out : c ∉ s :: nodes) (other : c ≠ node) :
    nextOf (listAppend h s node) c = nextOf h c := by
  have notTail : c ≠ prevOf h s := by
    rintro rfl
    exact out queue.last_mem
  rw [nextOf_listAppend _ _ _ _ small fits, if_neg notTail, if_neg other]

/-! ### The ready queue -/

theorem nextOf_setAge (h : Heap) (b v c : Nat) : nextOf (h.set16 b Desc.age v) c = nextOf h c :=
  get32_set16_off _ _ _ _ (by decide)

theorem prevOf_setAge (h : Heap) (b v c : Nat) : prevOf (h.set16 b Desc.age v) c = prevOf h c :=
  get32_set16_off _ _ _ _ (by decide)

theorem Queue.schedInsert {h : Heap} {node : Nat} {nodes : List Nat} (queue : Queue h readyQ nodes)
    (fits : node < 4294967296) (fresh : node ∉ readyQ :: nodes) :
    Queue (schedInsert h node) readyQ (nodes ++ [node]) := by
  refine Queue.append ?_ (by decide) fits fresh
  exact queue.agree (nextOf_setAge _ _ _) (prevOf_setAge _ _ _)

theorem Queue.schedInsert_outside {h : Heap} {node c : Nat} {nodes : List Nat} (queue : Queue h readyQ nodes)
    (fits : node < 4294967296) (out : c ∉ readyQ :: nodes) (other : c ≠ node) :
    nextOf (Q9OS.schedInsert h node) c = nextOf h c := by
  have aged := queue.agree (nextOf_setAge h node (h.get8 node Desc.priority)) (prevOf_setAge _ _ _)
  exact (aged.append_outside (by decide) fits out other).trans (nextOf_setAge _ _ _ _)

theorem pickWalk_mem {h : Heap} {minPty fuel a best bestAge : Nat} {nodes : List Nat}
    (strung : Strung (nextOf h) (prevOf h) a nodes readyQ) :
    pickWalk h minPty fuel (nextOf h a) best bestAge = best ∨
      pickWalk h minPty fuel (nextOf h a) best bestAge ∈ nodes := by
  induction fuel generalizing a best bestAge nodes with
  | zero => exact Or.inl rfl
  | succ fuel ih =>
    rw [pickWalk]
    split
    · exact Or.inl rfl
    · next inside =>
      cases nodes with
      | nil => exact absurd strung.1 inside
      | cons c nodes =>
        obtain ⟨forth, -, rest⟩ := strung
        rw [forth]
        dsimp only
        rw [show h.get32 c Desc.next = nextOf h c from rfl]
        split
        · rcases ih rest with same | member
          · rw [same]
            exact Or.inr List.mem_cons_self
          · exact Or.inr (List.mem_cons_of_mem _ member)
        · rcases ih rest with same | member
          · exact Or.inl same
          · exact Or.inr (List.mem_cons_of_mem _ member)

/-- The process picked from the ready queue leaves it. -/
theorem Queue.pick {h : Heap} {nodes : List Nat} (queue : Queue h readyQ nodes) (minPty : Nat) :
    schedPickHighestAge h minPty = (0, h) ∨
      ∃ node front back, nodes = front ++ node :: back ∧ schedPickHighestAge h minPty = (node, listUnlink h node) := by
  unfold schedPickHighestAge
  have found : pickWalk h minPty queueLimit (nextOf h readyQ) 0 0 = 0 ∨
      pickWalk h minPty queueLimit (nextOf h readyQ) 0 0 ∈ nodes := pickWalk_mem queue.strung
  rw [nextOf] at found
  generalize pickWalk h minPty queueLimit (h.get32 readyQ Desc.next) 0 0 = best at found
  dsimp only
  by_cases none : best = 0
  · rw [none]
    exact Or.inl rfl
  · rcases found with zero | member
    · exact absurd zero none
    · obtain ⟨front, back, is⟩ := List.append_of_mem member
      rw [if_pos none]
      exact Or.inr ⟨best, front, back, is, rfl⟩

end Q9OS

import Q9OS.Module.Ledger
import Q9OS.Process.Queues

/-!
# Queues read from their sentinels

The nodes of a well-formed queue have addresses of 32 bits, so a walk meets all
of them before its limit.
-/

namespace Q9OS

open Heap

/-- Distinct addresses of 32 bits are not more than there are. -/
theorem length_le_of_small {l : List Nat} {n : Nat} (nodup : l.Nodup) (small : ∀ a ∈ l, a < n) : l.length ≤ n := by
  have sub : l.toFinset ⊆ Finset.range n := by
    intro a member
    exact Finset.mem_range.mpr (small a (List.mem_toFinset.mp member))
  have card := Finset.card_le_card sub
  rw [List.toFinset_card_of_nodup nodup, Finset.card_range] at card
  exact card

def ringWalk (h : Heap) (s : Nat) : Nat → Nat → List Nat
  | 0, _ => []
  | fuel + 1, node => if node = s then [] else node :: ringWalk h s fuel (h.get32 node Desc.next)

/-- The nodes of a queue from its first one on. -/
def ringNodes (h : Heap) (s : Nat) : List Nat := ringWalk h s queueLimit (h.get32 s Desc.next)

theorem ringWalk_strung {h : Heap} {s a : Nat} {nodes : List Nat} (strung : Strung (nextOf h) (prevOf h) a nodes s)
    (out : s ∉ nodes) {fuel : Nat} (short : nodes.length < fuel) : ringWalk h s fuel (nextOf h a) = nodes := by
  induction nodes generalizing a fuel with
  | nil =>
    cases fuel with
    | zero => omega
    | succ fuel =>
      obtain ⟨forth, -⟩ := strung
      rw [ringWalk, if_pos forth]
  | cons c nodes ih =>
    cases fuel with
    | zero => omega
    | succ fuel =>
      obtain ⟨forth, -, rest⟩ := strung
      simp only [List.mem_cons, not_or, List.length_cons] at out short
      rw [forth, ringWalk, if_neg (Ne.symm out.1)]
      exact congrArg (c :: ·) (ih rest out.2 (by omega))

theorem Strung.next_of_mem {α : Type} {next prev : α → α} {a b : α} {nodes : List α} (strung : Strung next prev a nodes b) {c : α}
    (member : c ∈ nodes) : ∃ d, next d = c := by
  induction nodes generalizing a with
  | nil => cases member
  | cons e nodes ih =>
    obtain ⟨forth, -, rest⟩ := strung
    rcases List.mem_cons.mp member with rfl | later
    · exact ⟨a, forth⟩
    · exact ih rest later

theorem Queue.small {h : Heap} {s : Nat} {nodes : List Nat} (queue : Queue h s nodes) {a : Nat} (member : a ∈ nodes) :
    a < 4294967296 := by
  obtain ⟨d, rfl⟩ := queue.strung.next_of_mem member
  exact nextOf_lt h d

theorem Queue.short {h : Heap} {s : Nat} {nodes : List Nat} (queue : Queue h s nodes) (low : s < 4294967296) :
    nodes.length < queueLimit := by
  have bound := length_le_of_small queue.nodup (n := 4294967296) (by
    intro a member
    rcases List.mem_cons.mp member with rfl | inside
    · exact low
    · exact queue.small inside)
  rw [ModDir.queueLimit_eq]
  exact bound

theorem Queue.ringNodes {h : Heap} {s : Nat} {nodes : List Nat} (queue : Queue h s nodes) (low : s < 4294967296) :
    ringNodes h s = nodes :=
  ringWalk_strung queue.strung (List.nodup_cons.mp queue.nodup).1 (queue.short low)

/-! ### First nodes and next nodes -/

theorem Strung.first_eq {α : Type} {next prev : α → α} {a b : α} {nodes : List α} (strung : Strung next prev a nodes b) :
    next a = nodes.head?.getD b := by
  cases nodes with
  | nil => exact strung.1
  | cons c nodes => exact strung.1

theorem Queue.next_eq {h : Heap} {s n : Nat} {front back : List Nat} (queue : Queue h s (front ++ n :: back)) :
    nextOf h n = back.head?.getD s := by
  obtain ⟨-, onward⟩ := Strung.append_iff.mp queue.strung
  exact onward.first_eq

/-! ### Another queue -/

theorem Queue.unlink_apart {h : Heap} {s t node : Nat} {nodes others : List Nat} (queue : Queue h s nodes)
    (member : node ∈ nodes) (other : Queue h t others) (apart : ∀ c ∈ t :: others, c ∉ s :: nodes) :
    Queue (listUnlink h node) t others := by
  obtain ⟨before, after⟩ := queue.neighbours member
  refine other.congr (fun c inside => ?_) (fun c inside => ?_)
  · rw [nextOf_listUnlink, if_neg]
    rintro rfl
    exact apart _ inside before
  · rw [prevOf_listUnlink, if_neg]
    rintro rfl
    exact apart _ inside after

theorem Queue.append_apart {h : Heap} {s t node : Nat} {nodes others : List Nat} (queue : Queue h s nodes)
    (small : s < 4294967296) (fits : node < 4294967296) (other : Queue h t others)
    (apart : ∀ c ∈ t :: others, c ∉ s :: nodes ∧ c ≠ node) : Queue (listAppend h s node) t others := by
  refine other.congr (fun c inside => ?_) (fun c inside => ?_)
  · obtain ⟨out, notNode⟩ := apart c inside
    exact queue.append_outside small fits out notNode
  · obtain ⟨out, notNode⟩ := apart c inside
    have notSentinel : c ≠ s := by
      rintro rfl
      exact out List.mem_cons_self
    rw [prevOf_listAppend _ _ _ _ fits, if_neg notSentinel, if_neg notNode]

theorem pick_cases {h : Heap} {nodes : List Nat} (queue : Queue h readyQ nodes) (minPty : Nat) :
    schedPickHighestAge h minPty = (0, h) ∨ ∃ node front back, node ≠ 0 ∧ nodes = front ++ node :: back ∧
      schedPickHighestAge h minPty = (node, listUnlink h node) := by
  rcases queue.pick minPty with none | ⟨node, front, back, is, found⟩
  · exact .inl none
  · by_cases live : node = 0
    · left
      have zero := congrArg Prod.fst found
      unfold schedPickHighestAge at zero ⊢
      simp only [live] at zero
      simp [zero]
    · exact .inr ⟨node, front, back, live, is, found⟩

end Q9OS

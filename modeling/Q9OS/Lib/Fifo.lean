import Mathlib.Tactic
import Q9OS.Lib.Chain

/-!
# First in, first out

A singly linked chain with a pointer to its head and one to its tail. Nodes
enter behind the tail and leave at the head.
-/

namespace Q9OS

variable {α : Type} {next next' : α → α} {null head head' tail node : α} {nodes rest : List α}

/-- The chain from `head` holds `nodes`, and `tail` is the last of them. -/
structure Fifo (next : α → α) (null head tail : α) (nodes : List α) : Prop where
  chain : Linked next null head nodes
  last : tail = nodes.getLast?.getD null

namespace Fifo

theorem head_iff (fifo : Fifo next null head tail nodes) : head = null ↔ nodes = [] := by
  obtain ⟨chain, -⟩ := fifo
  cases nodes with
  | nil => exact iff_of_true chain rfl
  | cons a nodes =>
    obtain ⟨rfl, live, -⟩ := chain
    simp [live]

theorem tail_iff (fifo : Fifo next null head tail nodes) : tail = null ↔ nodes = [] := by
  obtain ⟨chain, last⟩ := fifo
  rcases List.eq_nil_or_concat nodes with rfl | ⟨front, p, rfl⟩
  · exact iff_of_true last rfl
  · have live : p ≠ null := chain.ne_null (by simp)
    simp [last, live]

theorem tail_mem (fifo : Fifo next null head tail nodes) (some_tail : tail ≠ null) : tail ∈ nodes := by
  obtain ⟨-, last⟩ := fifo
  rcases List.eq_nil_or_concat nodes with rfl | ⟨front, p, rfl⟩
  · exact absurd last some_tail
  · simp [last]

theorem congr (fifo : Fifo next null head tail nodes) (same : ∀ a ∈ nodes, next' a = next a) :
    Fifo next' null head tail nodes :=
  ⟨fifo.chain.congr same, fifo.last⟩

/-- A node enters: the link of the old tail, or the head where there is none, leads to it. -/
theorem push (fifo : Fifo next null head tail nodes) (live : node ≠ null) (fresh : node ∉ nodes) (ends : next' node = null)
    (first : tail = null → head' = node) (later : tail ≠ null → head' = head ∧ next' tail = node)
    (others : ∀ a ∈ nodes, a ≠ tail → next' a = next a) : Fifo next' null head' node (nodes ++ [node]) := by
  obtain ⟨chain, last⟩ := fifo
  refine ⟨?_, by simp⟩
  rcases List.eq_nil_or_concat nodes with rfl | ⟨front, p, rfl⟩
  · rw [first last]
    exact ⟨rfl, live, ends⟩
  · rw [List.concat_eq_append] at *
    obtain rfl : tail = p := by simpa using last
    have some_tail : tail ≠ null := chain.ne_null (by simp)
    have nodup := (List.nodup_append.mp chain.nodup).2.2
    obtain ⟨rfl, link⟩ := later some_tail
    rw [List.append_assoc]
    refine chain.replace (fun a member => others a (List.mem_append_left _ member) ?_) link ⟨rfl, live, ends⟩
    exact nodup a member tail List.mem_cons_self

theorem head_eq (fifo : Fifo next null head tail (node :: rest)) : head = node ∧ node ≠ null :=
  ⟨fifo.chain.1, fifo.chain.2.1⟩

/-- The head leaves. -/
theorem pop [DecidableEq α] (fifo : Fifo next null node tail (node :: rest)) :
    Fifo next null (next node) (if next node = null then null else tail) rest := by
  obtain ⟨⟨-, live, onward⟩, last⟩ := fifo
  refine ⟨onward, ?_⟩
  cases rest with
  | nil => exact if_pos onward
  | cons a rest =>
    obtain ⟨is, live', -⟩ := onward
    rw [if_neg (is ▸ live'), last, List.getLast?_cons_cons]

end Fifo

end Q9OS

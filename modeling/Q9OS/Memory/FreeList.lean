import Mathlib.Tactic
import Q9OS.Lib.Blocks
import Q9OS.Lib.Chain
import Q9OS.Memory.Arena

/-!
# The free list in memory

What the arena's walks find on a well-formed free list and what its link
updates do to one.
-/

namespace Q9OS.Arena

/-- From `head` the list visits exactly the blocks `free`. -/
def IsFreeList (m : Mem) (head : Nat) (free : List Block) : Prop :=
  Linked m.getU32 0 head (free.map Block.addr) ∧ ∀ b ∈ free, m.getU32 (b.addr + 4) = b.size

/-- Address of the last block, `prev` for an empty list. -/
def lastAddr (prev : Nat) (blocks : List Block) : Nat := (blocks.map Block.addr).getLastD prev

/-- Blocks whose headers neither touch each other nor the two list cells. -/
structure Spaced (blocks : List Block) : Prop where
  apart : blocks.Pairwise Block.Apart
  header : ∀ b ∈ blocks, 8 ≤ b.size
  clear : ∀ b ∈ blocks, b.addr + b.size ≤ arenaHead ∨ arenaTail + 4 ≤ b.addr
  fits : ∀ b ∈ blocks, b.addr + b.size ≤ 4294967296

theorem lastAddr_nil (prev : Nat) : lastAddr prev [] = prev := rfl

theorem lastAddr_cons (prev : Nat) (b : Block) (blocks : List Block) :
    lastAddr prev (b :: blocks) = lastAddr b.addr blocks := by
  unfold lastAddr
  rw [List.map_cons, List.getLastD_cons]

theorem lastAddr_append (prev : Nat) (front back : List Block) :
    lastAddr prev (front ++ back) = lastAddr (lastAddr prev front) back := by
  induction front generalizing prev with
  | nil => rfl
  | cons b front ih => rw [List.cons_append, lastAddr_cons, lastAddr_cons, ih]

theorem lastAddr_cons_irrelevant (prev prev' : Nat) {blocks : List Block} (nonempty : blocks ≠ []) :
    lastAddr prev blocks = lastAddr prev' blocks := by
  cases blocks with
  | nil => exact absurd rfl nonempty
  | cons b blocks => rw [lastAddr_cons, lastAddr_cons]

namespace IsFreeList

variable {m m' : Mem} {head : Nat} {b : Block} {free front back : List Block}

theorem nil_iff : IsFreeList m head [] ↔ head = 0 := by
  simp [IsFreeList, Linked]

theorem cons_iff : IsFreeList m head (b :: free) ↔
    head = b.addr ∧ b.addr ≠ 0 ∧ m.getU32 (b.addr + 4) = b.size ∧ IsFreeList m (m.getU32 b.addr) free := by
  simp only [IsFreeList, List.map_cons, Linked, List.forall_mem_cons]
  tauto

theorem head_eq_zero (list : IsFreeList m head free) : head = 0 ↔ free = [] := by
  cases free with
  | nil => simp [nil_iff.mp list]
  | cons b free =>
    obtain ⟨rfl, live, -, -⟩ := cons_iff.mp list
    simp [live]

theorem drop (list : IsFreeList m head (front ++ b :: back)) : IsFreeList m b.addr (b :: back) := by
  refine ⟨?_, fun c member => list.2 c (List.mem_append_right _ member)⟩
  have linked := list.1
  rw [List.map_append, List.map_cons] at linked
  exact linked.drop

/-- The last node in front of `b` links to `b`. -/
theorem link (list : IsFreeList m head (front ++ b :: back)) (nonempty : front ≠ []) :
    m.getU32 (lastAddr 0 front) = b.addr := by
  induction front generalizing head with
  | nil => exact absurd rfl nonempty
  | cons c front ih =>
    obtain ⟨rfl, -, -, onward⟩ := cons_iff.mp list
    rw [lastAddr_cons]
    cases front with
    | nil => exact (cons_iff.mp onward).1
    | cons d front =>
      rw [lastAddr_cons_irrelevant c.addr 0 (List.cons_ne_nil d front)]
      exact ih onward (List.cons_ne_nil d front)

theorem nodup (list : IsFreeList m head free) : (free.map Block.addr).Nodup := list.1.nodup

theorem congr (list : IsFreeList m head free)
    (same : ∀ b ∈ free, m'.getU32 b.addr = m.getU32 b.addr ∧ m'.getU32 (b.addr + 4) = m.getU32 (b.addr + 4)) :
    IsFreeList m' head free := by
  refine ⟨list.1.congr ?_, fun b member => (same b member).2.trans (list.2 b member)⟩
  intro a member
  obtain ⟨b, inside, rfl⟩ := List.mem_map.mp member
  exact (same b inside).1

/-- A free list whose addresses fit into 32 bits is shorter than the walk limit. -/
theorem length_lt (list : IsFreeList m head free) (fits : ∀ b ∈ free, b.addr < 4294967296) :
    free.length < walkLimit := by
  have inside : (free.map Block.addr).toFinset ⊆ Finset.Icc 1 4294967295 := by
    intro a member
    obtain ⟨b, inFree, rfl⟩ := List.mem_map.mp (List.mem_toFinset.mp member)
    have live := list.1.ne_null (List.mem_map_of_mem (f := Block.addr) inFree)
    have bound := fits b inFree
    exact Finset.mem_Icc.mpr ⟨by omega, by omega⟩
  have card := Finset.card_le_card inside
  rw [List.toFinset_card_of_nodup list.nodup, List.length_map, Nat.card_Icc] at card
  unfold walkLimit
  omega

end IsFreeList

/-! ### Walks -/

/-- First fit: either no block is large enough, or the first one that is gets taken. -/
theorem allocWalk_spec {m : Mem} {needed fuel prev cur : Nat} {free : List Block}
    (list : IsFreeList m cur free) (enough : free.length < fuel) :
    allocWalk m needed fuel prev cur = (0, m) ∧ (∀ b ∈ free, b.size < needed) ∨
      ∃ front b back, free = front ++ b :: back ∧ needed ≤ b.size ∧
        allocWalk m needed fuel prev cur = (b.addr, takeBlock m needed (lastAddr prev front) b.addr) := by
  induction free generalizing fuel prev cur with
  | nil =>
    cases fuel with
    | zero => exact absurd enough (Nat.not_lt_zero _)
    | succ fuel =>
      refine Or.inl ⟨?_, fun b member => absurd member List.not_mem_nil⟩
      rw [allocWalk, if_pos (IsFreeList.nil_iff.mp list)]
  | cons b free ih =>
    cases fuel with
    | zero => exact absurd enough (Nat.not_lt_zero _)
    | succ fuel =>
      obtain ⟨rfl, live, size, onward⟩ := IsFreeList.cons_iff.mp list
      rw [allocWalk, if_neg live, size]
      by_cases large : b.size ≥ needed
      · rw [if_pos large]
        exact Or.inr ⟨[], b, free, rfl, large, rfl⟩
      · rw [if_neg large]
        have later := @ih fuel b.addr _ onward (Nat.lt_of_succ_lt_succ enough)
        rcases later with ⟨missing, small⟩ | ⟨front, c, back, rfl, fits, taken⟩
        · refine Or.inl ⟨missing, fun c member => ?_⟩
          rcases List.mem_cons.mp member with rfl | inRest
          · exact Nat.lt_of_not_le large
          · exact small c inRest
        · refine Or.inr ⟨b :: front, c, back, rfl, fits, ?_⟩
          rw [lastAddr_cons]
          exact taken

/-- The running choice of `largestWalk`: nothing yet, or a block of the list with its neighbours. -/
def IsBest (prev : Nat) (free : List Block) (m : Mem) (best : Best) : Prop :=
  best = {} ∨ ∃ front b back, free = front ++ b :: back ∧
    best = ⟨b.addr, b.size, lastAddr prev front, m.getU32 b.addr⟩

theorem largestWalk_spec {m : Mem} {fuel prev cur start : Nat} {seen free : List Block} {best : Best}
    (list : IsFreeList m cur free) (enough : free.length < fuel) (behind : prev = lastAddr start seen)
    (sofar : IsBest start seen m best) :
    IsBest start (seen ++ free) m (largestWalk m fuel prev cur best) := by
  induction free generalizing fuel prev cur seen best with
  | nil =>
    cases fuel with
    | zero => exact absurd enough (Nat.not_lt_zero _)
    | succ fuel =>
      rw [largestWalk, if_pos (IsFreeList.nil_iff.mp list), List.append_nil]
      exact sofar
  | cons b free ih =>
    cases fuel with
    | zero => exact absurd enough (Nat.not_lt_zero _)
    | succ fuel =>
      obtain ⟨rfl, live, size, onward⟩ := IsFreeList.cons_iff.mp list
      have shift : seen ++ b :: free = (seen ++ [b]) ++ free := by simp
      have last : b.addr = lastAddr start (seen ++ [b]) := by
        rw [lastAddr_append, lastAddr_cons, lastAddr_nil]
      rw [largestWalk, if_neg live, shift]
      refine ih onward (Nat.lt_of_succ_lt_succ enough) last ?_
      simp only [size]
      by_cases larger : b.size > best.size
      · rw [if_pos larger, behind]
        exact Or.inr ⟨seen, b, [], rfl, rfl⟩
      · rw [if_neg larger]
        rcases sofar with missing | ⟨front, c, back, rfl, found⟩
        · exact Or.inl missing
        · exact Or.inr ⟨front, c, back ++ [b], by simp, found⟩

/-! ### Link updates -/

namespace Spaced

variable {blocks blocks' front back : List Block}

theorem perm (spaced : Spaced blocks) (same : blocks.Perm blocks') : Spaced blocks' where
  apart := same.pairwise spaced.apart (fun apart => apart.symm)
  header b member := spaced.header b (same.mem_iff.mpr member)
  clear b member := spaced.clear b (same.mem_iff.mpr member)
  fits b member := spaced.fits b (same.mem_iff.mpr member)

theorem sublist (spaced : Spaced blocks) (sub : blocks'.Sublist blocks) : Spaced blocks' where
  apart := spaced.apart.sublist sub
  header b member := spaced.header b (sub.subset member)
  clear b member := spaced.clear b (sub.subset member)
  fits b member := spaced.fits b (sub.subset member)

end Spaced

theorem IsFreeList.setU32_outside {m : Mem} {head w v : Nat} {free : List Block}
    (list : IsFreeList m head free) (apart : ∀ b ∈ free, w + 4 ≤ b.addr ∨ b.addr + 8 ≤ w) :
    IsFreeList (m.setU32 w v) head free := by
  refine list.congr (fun b member => ?_)
  have outside := apart b member
  exact ⟨Mem.getU32_setU32_apart _ _ (by omega), Mem.getU32_setU32_apart _ _ (by omega)⟩

theorem clear_of_cell {b : Block} {cell : Nat} (cells : cell = arenaHead ∨ cell = arenaTail)
    (header : 8 ≤ b.size) (clear : b.addr + b.size ≤ arenaHead ∨ arenaTail + 4 ≤ b.addr) :
    cell + 4 ≤ b.addr ∨ b.addr + 8 ≤ cell := by
  unfold arenaHead arenaTail at *
  omega

theorem IsFreeList.setCell {m : Mem} {head cell v : Nat} {free : List Block}
    (list : IsFreeList m head free) (spaced : Spaced free)
    (cells : cell = arenaHead ∨ cell = arenaTail) : IsFreeList (m.setU32 cell v) head free :=
  list.setU32_outside (fun b member => clear_of_cell cells (spaced.header b member) (spaced.clear b member))

theorem setU32_head_tail (m : Mem) (v : Nat) : (m.setU32 arenaTail v).getU32 arenaHead = m.getU32 arenaHead :=
  Mem.getU32_setU32_apart _ _ (Or.inl (by decide))

/-- Setting the link behind `front` hangs the list from `new` after it. -/
theorem IsFreeList.setLink {m : Mem} {new : Nat} {front old rest : List Block}
    (list : IsFreeList m (m.getU32 arenaHead) (front ++ old)) (onward : IsFreeList m new rest)
    (spaced : Spaced (front ++ rest)) (fits : new < 4294967296) :
    IsFreeList (Arena.setLink m (lastAddr 0 front) new)
      ((Arena.setLink m (lastAddr 0 front) new).getU32 arenaHead) (front ++ rest) := by
  rcases List.eq_nil_or_concat front with rfl | ⟨front, p, rfl⟩
  · rw [Arena.setLink, lastAddr_nil, if_pos rfl, Mem.getU32_setU32_of_lt _ _ fits]
    exact onward.setCell (spaced.sublist (List.sublist_append_right _ _)) (Or.inl rfl)
  · rw [List.concat_eq_append] at *
    have last : lastAddr 0 (front ++ [p]) = p.addr := by
      rw [lastAddr_append, lastAddr_cons, lastAddr_nil]
    have live : p.addr ≠ 0 := list.1.ne_null (by simp)
    rw [Arena.setLink, last, if_neg live]
    have headApart : (m.setU32 p.addr new).getU32 arenaHead = m.getU32 arenaHead := by
      have cells := clear_of_cell (Or.inl rfl) (spaced.header p (by simp)) (spaced.clear p (by simp))
      exact Mem.getU32_setU32_apart _ _ (by omega)
    have pairs := spaced.apart
    rw [List.append_assoc, List.pairwise_append] at pairs
    obtain ⟨-, behind, ahead⟩ := pairs
    have frontApart : ∀ b ∈ front, p.addr + 8 ≤ b.addr ∨ b.addr + 8 ≤ p.addr := by
      intro b member
      have apart := ahead b member p (by simp)
      have sizes := spaced.header b (by simp [member])
      have size := spaced.header p (by simp)
      unfold Block.Apart at apart
      omega
    have restApart : ∀ b ∈ rest, p.addr + 4 ≤ b.addr ∨ b.addr + 8 ≤ p.addr := by
      intro b member
      have apart := (List.pairwise_cons.mp behind).1 b member
      have sizes := spaced.header b (by simp [member])
      have size := spaced.header p (by simp)
      unfold Block.Apart at apart
      omega
    have onward' := onward.setU32_outside (v := new) restApart
    rw [headApart]
    constructor
    · have linked := list.1
      simp only [List.map_append, List.map_cons, List.append_assoc, List.cons_append,
        List.nil_append] at linked ⊢
      refine linked.replace ?_ (Mem.getU32_setU32_of_lt _ _ fits) onward'.1
      intro a member
      obtain ⟨b, inFront, rfl⟩ := List.mem_map.mp member
      have apart := frontApart b inFront
      exact Mem.getU32_setU32_apart _ _ (by omega)
    · intro b member
      rw [List.append_assoc] at member
      rcases List.mem_append.mp member with inFront | later
      · have apart := frontApart b inFront
        rw [Mem.getU32_setU32_apart _ _ (by omega)]
        exact list.2 b (by simp [inFront])
      · rcases List.mem_cons.mp later with rfl | inRest
        · rw [Mem.getU32_setU32_apart _ _ (by omega)]
          exact list.2 _ (by simp)
        · exact onward'.2 b inRest

end Q9OS.Arena

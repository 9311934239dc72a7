import Mathlib.Tactic
import Q9OS.Lib.Word
import Q9OS.Pipe.Open
import Q9OS.Pipe.Queue

/-!
# The block copy

`Pipe_CopyMem` of `pipe_sub.a` with its registers and every access it makes:
bytes, words or longs, as the alignment of the two pointers allows.
-/

namespace Q9OS.Pipe

inductive Width
  | byte
  | word
  | long
  deriving DecidableEq, Repr

namespace Width

def bytes : Width → Nat
  | .byte => 1
  | .word => 2
  | .long => 4

/-- `move (a0)+,(a2)+` on the memory. -/
def copy (w : Width) (m : Mem) (a0 a2 : Nat) : Mem :=
  match w with
  | .byte => m.setU8 a2 (m.getU8 a0)
  | .word => m.setU16 a2 (m.getU16 a0)
  | .long => m.setU32 a2 (m.getU32 a0)

end Width

/-- One access: what is read and what is written. -/
structure Move where
  width : Width
  src : Nat
  dst : Nat

namespace Move

/-- The 68000 takes words and longs at even addresses only. -/
def Aligned (move : Move) : Prop := move.width ≠ .byte → move.src % 2 = 0 ∧ move.dst % 2 = 0

def sources (move : Move) : List Nat := List.range' move.src move.width.bytes

def targets (move : Move) : List Nat := List.range' move.dst move.width.bytes

end Move

/-- Memory, pointers and the accesses so far. -/
structure Copying where
  mem : Mem
  a0 : Nat
  a2 : Nat
  moves : List Move

namespace Copying

def move (k : Copying) (w : Width) : Copying :=
  { mem := w.copy k.mem k.a0 k.a2
    a0 := add32 k.a0 w.bytes
    a2 := add32 k.a2 w.bytes
    moves := k.moves ++ [⟨w, k.a0, k.a2⟩] }

def loop (k : Copying) (w : Width) : Nat → Copying
  | 0 => k
  | n + 1 => (k.move w).loop w n

/-- `Pipe_CopyWords`, with fewer than four bytes left. -/
def copyWords (k : Copying) (d1 : Nat) : Copying :=
  if d1 < 2 then k.loop .byte d1 else (k.move .word).loop .byte (d1 - 2)

/-- `Pipe_CopyChkDst`. -/
def copyChkDst (k : Copying) (d1 : Nat) : Copying :=
  if k.a2 % 2 = 1 then k.loop .byte d1 else (k.loop .long (d1 / 4)).copyWords (d1 % 4)

/-- `Pipe_CopyMem`. The first test takes the count with its sign. -/
def copyMem (k : Copying) (d1 : Nat) : Copying :=
  if d1 = 0 ∨ 0x80000000 ≤ d1 then k
  else if d1 < 12 then k.loop .byte d1
  else if k.a0 % 2 = 1 then (k.move .byte).copyChkDst (d1 - 1)
  else k.copyChkDst d1

end Copying

/-! ### Copies of bytes that stay as they are -/

theorem blit_congr (m : Mem) (b : Nat) {src src' : Mem} {a n : Nat} (same : ∀ x, a ≤ x → x < a + n → src x = src' x) :
    m.blit b src a n = m.blit b src' a n := by
  funext x
  unfold Mem.blit
  by_cases inside : b ≤ x ∧ x < b + n
  · rw [if_pos inside, if_pos inside]
    exact same _ (by omega) (by omega)
  · rw [if_neg inside, if_neg inside]

theorem moveBytes_blit (m : Mem) {a0 a2 n : Nat} (apart : a0 + n ≤ a2 ∨ a2 + n ≤ a0) :
    (moveBytes m a0 a2 n).1 = m.blit a2 m a0 n := by
  induction n generalizing m a0 a2 with
  | zero => exact (Mem.blit_zero m a2 m a0).symm
  | succ n ih =>
    have kept : ∀ x, a0 + 1 ≤ x → x < a0 + 1 + n → m.setU8 a2 (m.getU8 a0) x = m x :=
      fun x low high => Mem.setU8_of_ne _ _ (by omega)
    rw [moveBytes, ih _ (by omega), blit_congr _ _ kept, Mem.setU8_getU8_blit, Mem.blit_blit, Nat.add_comm 1]

/-- An access whose source still holds what it held at first. -/
theorem Width.copy_blit (w : Width) {m now : Mem} {a0 : Nat} (a2 : Nat)
    (same : ∀ x, a0 ≤ x → x < a0 + w.bytes → now x = m x) : w.copy now a0 a2 = now.blit a2 m a0 w.bytes := by
  cases w with
  | byte =>
    have read : now.getU8 a0 = m.getU8 a0 := Mem.getU8_congr (same a0 (le_refl a0) (by simp [Width.bytes]))
    exact (congrArg (now.setU8 a2) read).trans (Mem.setU8_getU8_blit now a2 m a0)
  | word =>
    have read : now.getU16 a0 = m.getU16 a0 := Mem.getU16_congr same
    exact (congrArg (now.setU16 a2) read).trans (Mem.setU16_getU16_blit now a2 m a0)
  | long =>
    have read : now.getU32 a0 = m.getU32 a0 := Mem.getU32_congr same
    exact (congrArg (now.setU32 a2) read).trans (Mem.setU32_getU32_blit now a2 m a0)

/-! ### The copy as it goes -/

section Progress
variable {m : Mem} {a0 a2 d1 : Nat}

/-- The first `n` bytes are copied, each read and written once and in order. -/
structure Progress (m : Mem) (a0 a2 n : Nat) (k : Copying) : Prop where
  mem : k.mem = m.blit a2 m a0 n
  source : k.a0 = add32 a0 n
  target : k.a2 = add32 a2 n
  sources : k.moves.flatMap Move.sources = List.range' a0 n
  targets : k.moves.flatMap Move.targets = List.range' a2 n
  aligned : ∀ move ∈ k.moves, move.Aligned

/-- The two ranges do not wrap and do not overlap. -/
structure Placed (a0 a2 d1 : Nat) : Prop where
  source : a0 + d1 ≤ 4294967296
  target : a2 + d1 ≤ 4294967296
  apart : a0 + d1 ≤ a2 ∨ a2 + d1 ≤ a0

theorem add32_add32 (a n k : Nat) : add32 (add32 a n) k = add32 a (n + k) := by
  unfold add32
  omega

theorem add32_before {a n : Nat} (bound : a + d1 ≤ 4294967296) (before : n < d1) : add32 a n = a + n :=
  add32_of_lt (by omega)

theorem Progress.move (placed : Placed a0 a2 d1) {k : Copying} {n : Nat} (here : Progress m a0 a2 n k) (w : Width)
    (room : n + w.bytes ≤ d1) (even : w ≠ .byte → (a0 + n) % 2 = 0 ∧ (a2 + n) % 2 = 0) :
    Progress m a0 a2 (n + w.bytes) (k.move w) := by
  have positive : 0 < w.bytes := by cases w <;> decide
  have source : k.a0 = a0 + n := here.source.trans (add32_before placed.source (by omega))
  have target : k.a2 = a2 + n := here.target.trans (add32_before placed.target (by omega))
  obtain ⟨mem, pointer, pointer', sources, targets, aligned⟩ := here
  have apart := placed.apart
  refine ⟨?_, ?_, ?_, ?_, ?_, ?_⟩
  · have kept : ∀ x, a0 + n ≤ x → x < a0 + n + w.bytes → k.mem x = m x := by
      intro x low high
      rw [mem]
      exact Mem.blit_outside m m a0 (by omega)
    have copied := w.copy_blit (a2 + n) kept
    unfold Copying.move
    dsimp only
    rw [source, target, copied, mem, Mem.blit_blit]
  · exact (congrArg (add32 · w.bytes) pointer).trans (add32_add32 a0 n w.bytes)
  · exact (congrArg (add32 · w.bytes) pointer').trans (add32_add32 a2 n w.bytes)
  · unfold Copying.move
    rw [List.flatMap_append, sources, List.flatMap_singleton, source]
    exact List.range'_append_1
  · unfold Copying.move
    rw [List.flatMap_append, targets, List.flatMap_singleton, target]
    exact List.range'_append_1
  · intro move member
    rcases List.mem_append.mp member with old | new
    · exact aligned move old
    · rw [List.mem_singleton.mp new]
      intro wide
      rw [source, target]
      exact even wide

theorem Progress.loop (placed : Placed a0 a2 d1) (w : Width) {k : Copying} {n j : Nat} (here : Progress m a0 a2 n k)
    (room : n + j * w.bytes ≤ d1) (even : w ≠ .byte → (a0 + n) % 2 = 0 ∧ (a2 + n) % 2 = 0) :
    Progress m a0 a2 (n + j * w.bytes) (k.loop w j) := by
  induction j generalizing k n with
  | zero =>
    rw [Nat.zero_mul]
    exact here
  | succ j ih =>
    rw [Nat.add_mul, Nat.one_mul, Nat.add_comm (j * w.bytes), ← Nat.add_assoc] at room ⊢
    have next := here.move placed w (by omega) even
    refine ih next room (fun wide => ?_)
    obtain ⟨source, target⟩ := even wide
    have two : w.bytes % 2 = 0 := by
      cases w with
      | byte => exact absurd rfl wide
      | word => rfl
      | long => rfl
    omega

theorem Progress.bytes (placed : Placed a0 a2 d1) {k : Copying} {n : Nat} (here : Progress m a0 a2 n k)
    (inside : n ≤ d1) : Progress m a0 a2 d1 (k.loop .byte (d1 - n)) := by
  have total : n + (d1 - n) * Width.byte.bytes = d1 := by
    simp only [Width.bytes]
    omega
  have done := here.loop placed .byte (j := d1 - n) (by omega) (fun wide => absurd rfl wide)
  rwa [total] at done

theorem Progress.words (placed : Placed a0 a2 d1) {k : Copying} {n : Nat} (here : Progress m a0 a2 n k)
    (inside : n ≤ d1) (source : (a0 + n) % 2 = 0) (target : (a2 + n) % 2 = 0) :
    Progress m a0 a2 d1 (k.copyWords (d1 - n)) := by
  unfold Copying.copyWords
  split
  · exact here.bytes placed inside
  · have word := here.move placed .word (by simp only [Width.bytes]; omega) (fun _ => ⟨source, target⟩)
    have rest := word.bytes placed (by simp only [Width.bytes]; omega)
    have left : d1 - (n + Width.word.bytes) = d1 - n - 2 := Nat.sub_add_eq d1 n 2
    rwa [left] at rest

theorem Progress.chkDst (placed : Placed a0 a2 d1) {k : Copying} {n : Nat} (here : Progress m a0 a2 n k)
    (before : n < d1) (source : (a0 + n) % 2 = 0) : Progress m a0 a2 d1 (k.copyChkDst (d1 - n)) := by
  have pointer : k.a2 = a2 + n := here.target.trans (add32_before placed.target before)
  unfold Copying.copyChkDst
  split
  · exact here.bytes placed (by omega)
  · next even =>
    rw [pointer] at even
    have size : (d1 - n) / 4 * Width.long.bytes = (d1 - n) / 4 * 4 := rfl
    have longs := here.loop placed .long (j := (d1 - n) / 4) (by omega) (fun _ => ⟨source, by omega⟩)
    rw [size] at longs
    have rest := longs.words placed (by omega) (by omega) (by omega)
    have left : d1 - (n + (d1 - n) / 4 * 4) = (d1 - n) % 4 := by omega
    rwa [left] at rest

theorem Progress.start (m : Mem) (a0 a2 : Nat) (source : a0 < 4294967296) (target : a2 < 4294967296) :
    Progress m a0 a2 0 ⟨m, a0, a2, []⟩ :=
  ⟨(Mem.blit_zero m a2 m a0).symm, (Nat.mod_eq_of_lt source).symm, (Nat.mod_eq_of_lt target).symm, rfl, rfl, nofun⟩

theorem Progress.copyMem (placed : Placed a0 a2 d1) (small : d1 < 0x80000000) {k : Copying} (here : Progress m a0 a2 0 k) :
    Progress m a0 a2 d1 (k.copyMem d1) := by
  unfold Copying.copyMem
  split
  · have none : d1 = 0 := by omega
    rwa [none]
  · next some_bytes =>
    have pointer : k.a0 = a0 := here.source.trans (add32_before placed.source (by omega))
    split
    · exact here.bytes placed (by omega)
    · split
      · next odd =>
        have first := here.move placed .byte (by simp only [Width.bytes]; omega) (fun wide => absurd rfl wide)
        exact first.chkDst placed (by simp only [Width.bytes]; omega) (by simp only [Width.bytes]; omega)
      · next even => exact here.chkDst placed (by omega) (by omega)

end Progress

/-- Without overlap the copy is the byte by byte one: `d1` bytes in order and nothing else, words and longs at
even addresses, both pointers behind the last byte. -/
theorem copyMem_copies (m : Mem) (a0 a2 d1 : Nat) (source : a0 < 4294967296) (target : a2 < 4294967296)
    (small : d1 < 0x80000000) (placed : Placed a0 a2 d1) :
    let k := (Copying.mk m a0 a2 []).copyMem d1
    k.mem = (moveBytes m a0 a2 d1).1 ∧
      (∀ x, k.mem x = if a2 ≤ x ∧ x < a2 + d1 then m (a0 + (x - a2)) else m x) ∧
      k.moves.flatMap Move.sources = List.range' a0 d1 ∧ k.moves.flatMap Move.targets = List.range' a2 d1 ∧
      (∀ move ∈ k.moves, move.Aligned) ∧ k.a0 = add32 a0 d1 ∧ k.a2 = add32 a2 d1 := by
  intro k
  obtain ⟨mem, pointer, pointer', sources, targets, aligned⟩ := (Progress.start m a0 a2 source target).copyMem placed small
  refine ⟨mem.trans (moveBytes_blit m placed.apart).symm, ?_, sources, targets, aligned, pointer, pointer'⟩
  intro x
  have cell : k.mem x = m.blit a2 m a0 d1 x := congrFun mem x
  rw [cell]
  unfold Mem.blit
  rw [Nat.add_comm a0]

/-- Twenty-three bytes between odd addresses: one byte, five longs and a word. -/
theorem copyMem_copies_odd :
    let k := (Copying.mk (fun x => x.toUInt8) 0x1001 0x2001 []).copyMem 23
    k.moves.map Move.width = [.byte, .long, .long, .long, .long, .long, .word] ∧
      k.mem 0x2017 = 0x17 ∧ (∀ move ∈ k.moves, move.Aligned) ∧ k.a2 = 0x2018 := by
  obtain ⟨-, copied, -, -, aligned, -, pointer⟩ := copyMem_copies (fun x => x.toUInt8) 0x1001 0x2001 23 (by decide)
    (by decide) (by decide) ⟨by decide, by decide, .inl (by decide)⟩
  exact ⟨by decide, copied 0x2017, aligned, pointer⟩

/-! ### The copy without its record -/

section Forms
variable {a0 a2 d1 : Nat}

namespace Copying

/-- Memory and pointers. -/
def registers (k : Copying) : Mem × Nat × Nat := (k.mem, k.a0, k.a2)

theorem move_registers {k : Copying} (w : Width) (source : k.a0 + w.bytes < 4294967296)
    (target : k.a2 + w.bytes < 4294967296) :
    (k.move w).registers = (w.copy k.mem k.a0 k.a2, k.a0 + w.bytes, k.a2 + w.bytes) := by
  unfold move registers
  rw [add32_of_lt source, add32_of_lt target]

/-- A loop that copies `j` times a width is the loop on the registers alone. -/
theorem loop_registers (w : Width) {f : Mem → Nat → Nat → Nat → Mem × Nat × Nat}
    (zero : ∀ m a0 a2, f m a0 a2 0 = (m, a0, a2))
    (succ : ∀ m a0 a2 n, f m a0 a2 (n + 1) = f (w.copy m a0 a2) (a0 + w.bytes) (a2 + w.bytes) n)
    {k : Copying} {n : Nat} (source : k.a0 + n * w.bytes < 4294967296) (target : k.a2 + n * w.bytes < 4294967296) :
    (k.loop w n).registers = f k.mem k.a0 k.a2 n ∧ (k.loop w n).a0 = k.a0 + n * w.bytes ∧
      (k.loop w n).a2 = k.a2 + n * w.bytes := by
  induction n generalizing k with
  | zero => exact ⟨(zero ..).symm, by simp [loop], by simp [loop]⟩
  | succ n ih =>
    rw [Nat.add_mul, Nat.one_mul] at source target
    have moved := move_registers (k := k) w (by omega) (by omega)
    obtain ⟨mem, pointers⟩ := Prod.mk.inj moved
    obtain ⟨a0, a2⟩ := Prod.mk.inj pointers
    obtain ⟨done, source', target'⟩ := ih (k := k.move w) (by omega) (by omega)
    rw [loop, succ, done, mem, a0, a2, source', target', a0, a2, Nat.add_mul, Nat.one_mul]
    exact ⟨rfl, by omega, by omega⟩

theorem bytes_registers {k : Copying} {n : Nat} (source : k.a0 + n < 4294967296) (target : k.a2 + n < 4294967296) :
    (k.loop .byte n).registers = moveBytes k.mem k.a0 k.a2 n :=
  (loop_registers .byte (fun _ _ _ => rfl) (fun _ _ _ _ => rfl) (by simpa [Width.bytes] using source)
    (by simpa [Width.bytes] using target)).1

theorem words_registers {k : Copying} {n : Nat} (source : k.a0 + n < 4294967296) (target : k.a2 + n < 4294967296) :
    (k.copyWords n).registers = moveWords k.mem k.a0 k.a2 n := by
  unfold copyWords moveWords
  split
  · exact bytes_registers source target
  · have two : Width.word.bytes = 2 := rfl
    have moved := move_registers (k := k) .word (by omega) (by omega)
    obtain ⟨mem, pointers⟩ := Prod.mk.inj moved
    obtain ⟨a0, a2⟩ := Prod.mk.inj pointers
    rw [bytes_registers (by omega) (by omega), mem, a0, a2]
    rfl

theorem chkDst_registers {k : Copying} {n : Nat} (source : k.a0 + n < 4294967296) (target : k.a2 + n < 4294967296) :
    (k.copyChkDst n).registers = moveAligned k.mem k.a0 k.a2 n := by
  unfold copyChkDst moveAligned
  split
  · exact bytes_registers source target
  · have size : n / 4 * Width.long.bytes = n / 4 * 4 := rfl
    obtain ⟨moved, a0, a2⟩ := loop_registers .long (f := moveLongs) (fun _ _ _ => rfl) (fun _ _ _ _ => rfl) (k := k)
      (n := n / 4) (by omega) (by omega)
    rw [words_registers (by omega) (by omega), ← moved]
    rfl

end Copying

/-- `Pipe_CopyMem` as `Pipe_Create` uses it, also where source and target overlap. -/
theorem moveMem_registers (m : Mem) (source : a0 + d1 < 4294967296) (target : a2 + d1 < 4294967296) :
    ((Copying.mk m a0 a2 []).copyMem d1).registers = moveMem m a0 a2 d1 := by
  unfold Copying.copyMem moveMem
  split
  · rfl
  · split
    · exact Copying.bytes_registers source target
    · split
      · have one : Width.byte.bytes = 1 := rfl
        have moved := Copying.move_registers (k := Copying.mk m a0 a2 []) .byte (by dsimp only; omega) (by dsimp only; omega)
        obtain ⟨mem, pointers⟩ := Prod.mk.inj moved
        obtain ⟨first, second⟩ := Prod.mk.inj pointers
        dsimp only at first second
        rw [Copying.chkDst_registers (by omega) (by omega), mem, first, second]
        rfl
      · exact Copying.chkDst_registers source target

/-- `Pipe_CopyMem` as the transfers use it, between a buffer and a process. -/
theorem copyMem_registers (m : Mem) (source : a0 + d1 < 4294967296) (target : a2 + d1 < 4294967296)
    (small : d1 < 0x80000000) (apart : a0 + d1 ≤ a2 ∨ a2 + d1 ≤ a0) :
    let k := copyMem m a0 m a2 d1
    ((Copying.mk m a0 a2 []).copyMem d1).registers = (k.mem, k.a0, k.a2) := by
  obtain ⟨mem, first, second, -⟩ := (Progress.start m a0 a2 (by omega) (by omega)).copyMem ⟨by omega, by omega, apart⟩ small
  rw [add32_of_lt source] at first
  rw [add32_of_lt target] at second
  rcases Nat.eq_zero_or_pos d1 with rfl | some
  · rfl
  · rw [copyMem_eq m a0 m a2 some small, Copying.registers, mem, first, second]

end Forms

end Q9OS.Pipe

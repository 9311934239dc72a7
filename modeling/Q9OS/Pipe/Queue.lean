import Q9OS.Lib.Ring
import Q9OS.Lib.Run
import Q9OS.Pipe.Io

/-!
# A pipe is a byte queue

The ring of a pipe under reads and writes of any number of processes that
interleave at their sleeps: what readers get is what writers gave, in order.
-/

namespace Q9OS.Pipe

/-! ### Copies -/

theorem copyByteLoop_eq (src : Mem) (k : Copied) (n : Nat) :
    copyByteLoop src k n = { mem := k.mem.blit k.a2 src k.a0 n, a0 := k.a0 + n, a2 := k.a2 + n } := by
  induction n generalizing k with
  | zero => simp [copyByteLoop]
  | succ n ih =>
    rw [copyByteLoop, ih, Mem.setU8_getU8_blit, Mem.blit_blit]
    simp only [Nat.add_assoc, Nat.add_comm 1 n]

theorem copyLongs_eq (src : Mem) (k : Copied) (n : Nat) :
    copyLongs src k n = { mem := k.mem.blit k.a2 src k.a0 (4 * n), a0 := k.a0 + 4 * n, a2 := k.a2 + 4 * n } := by
  induction n generalizing k with
  | zero => simp [copyLongs]
  | succ n ih =>
    have length : 4 + 4 * n = 4 * (n + 1) := by omega
    rw [copyLongs, ih, Mem.setU32_getU32_blit, Mem.blit_blit]
    simp only [Nat.add_assoc, length]

theorem copyWords_eq (src : Mem) (k : Copied) (n : Nat) :
    copyWords src k n = { mem := k.mem.blit k.a2 src k.a0 n, a0 := k.a0 + n, a2 := k.a2 + n } := by
  unfold copyWords
  split
  · exact copyByteLoop_eq src k n
  · have length : 2 + (n - 2) = n := by omega
    rw [copyByteLoop_eq, Mem.setU16_getU16_blit, Mem.blit_blit]
    simp only [Nat.add_assoc, length]

theorem copyOdd_eq (src : Mem) (k : Copied) {n : Nat} (pos : 0 < n) :
    ∃ j ≤ n, copyOdd src k n = ({ mem := k.mem.blit k.a2 src k.a0 j, a0 := k.a0 + j, a2 := k.a2 + j }, n - j) := by
  unfold copyOdd
  split
  · exact ⟨1, pos, by rw [Mem.setU8_getU8_blit]⟩
  · exact ⟨0, Nat.zero_le n, by simp⟩

/-- Whatever the alignment, a copy of less than 2³¹ bytes is a plain copy. -/
theorem copyMem_eq (src : Mem) (a0 : Nat) (dst : Mem) (a2 : Nat) {n : Nat} (pos : 0 < n) (small : n < 0x80000000) :
    copyMem src a0 dst a2 n = { mem := dst.blit a2 src a0 n, a0 := a0 + n, a2 := a2 + n } := by
  unfold copyMem
  dsimp only
  rw [if_neg (by omega)]
  split
  · rw [copyByteLoop_eq]
  · obtain ⟨j, le, odd⟩ := copyOdd_eq src { mem := dst, a0 := a0, a2 := a2 } pos
    have length : j + (n - j) = n := by omega
    rw [odd]
    dsimp only
    split
    · rw [copyByteLoop_eq, Mem.blit_blit]
      simp only [Nat.add_assoc, length]
    · have parts : j + (4 * ((n - j) / 4) + (n - j) % 4) = n := by omega
      rw [copyLongs_eq, copyWords_eq, Mem.blit_blit, Nat.add_assoc a0, Nat.add_assoc a2]
      dsimp only
      rw [Nat.add_assoc a0, Nat.add_assoc a2, Mem.blit_blit]
      simp only [Nat.add_assoc, parts]

/-! ### Lines -/

/-- How many bytes a line transfer of at most `d1 + 1` bytes moves. -/
def lineLen (src : Mem) (a : Nat) : Nat → Nat
  | 0 => 1
  | d1 + 1 => if src.getU8 a = cr then 1 else lineLen src (a + 1) d1 + 1

theorem lineLen_pos (src : Mem) (a d1 : Nat) : 0 < lineLen src a d1 := by
  cases d1 with
  | zero => exact Nat.one_pos
  | succ d1 =>
    unfold lineLen
    split <;> omega

theorem lineLen_le (src : Mem) (a d1 : Nat) : lineLen src a d1 ≤ d1 + 1 := by
  induction d1 generalizing a with
  | zero => exact Nat.le_refl 1
  | succ d1 ih =>
    unfold lineLen
    split
    · omega
    · have := ih (a + 1)
      omega

theorem lineLen_before {src : Mem} {a d1 i : Nat} (before : i + 1 < lineLen src a d1) : src.getU8 (a + i) ≠ cr := by
  induction d1 generalizing a i with
  | zero =>
    unfold lineLen at before
    omega
  | succ d1 ih =>
    unfold lineLen at before
    split at before
    · omega
    · next first =>
      cases i with
      | zero => exact first
      | succ i =>
        have := @ih (a + 1) i (by omega)
        rwa [Nat.add_assoc, Nat.add_comm 1] at this

theorem rdLnLoop_eq (r : Ring) (p : Pass) (d1 : Nat) :
    rdLnLoop r p d1 =
      let n := lineLen r.mem p.ptr d1
      { mem := p.mem.blit p.a4 r.mem p.ptr n, ptr := p.ptr + n, dst := p.a4 + n, a4 := p.a4 + n, d0 := p.d0 + n,
        d3 := r.mem.getU8 (p.ptr + (n - 1)) } := by
  induction d1 generalizing p with
  | zero => simp [rdLnLoop, rdLnByte, lineLen, Mem.setU8_getU8_blit]
  | succ d1 ih =>
    unfold rdLnLoop lineLen
    by_cases ends : r.mem.getU8 p.ptr = cr
    · rw [if_pos (show (rdLnByte r p).d3 = cr from ends), if_pos ends]
      simp [rdLnByte, Mem.setU8_getU8_blit]
    · rw [if_neg (show ¬ (rdLnByte r p).d3 = cr from ends), if_neg ends, ih]
      have pos := lineLen_pos r.mem (p.ptr + 1) d1
      simp only [rdLnByte, Mem.setU8_getU8_blit, Mem.blit_blit, Nat.add_assoc, Nat.add_comm 1, Nat.add_sub_cancel]
      rw [Nat.sub_add_cancel pos]

theorem wrLnLoop_eq (user : Mem) (p : Pass) (d1 : Nat) :
    wrLnLoop user p d1 =
      let n := lineLen user p.dst d1
      { mem := p.mem.blit p.a4 user p.dst n, ptr := p.a4 + n, dst := p.dst + n, a4 := p.a4 + n, d0 := p.d0 + n,
        d3 := user.getU8 (p.dst + (n - 1)) } := by
  induction d1 generalizing p with
  | zero => simp [wrLnLoop, wrLnByte, lineLen, Mem.setU8_getU8_blit]
  | succ d1 ih =>
    unfold wrLnLoop lineLen
    by_cases ends : user.getU8 p.dst = cr
    · rw [if_pos (show (wrLnByte user p).d3 = cr from ends), if_pos ends]
      simp [wrLnByte, Mem.setU8_getU8_blit]
    · rw [if_neg (show ¬ (wrLnByte user p).d3 = cr from ends), if_neg ends, ih]
      have pos := lineLen_pos user (p.dst + 1) d1
      simp only [wrLnByte, Mem.setU8_getU8_blit, Mem.blit_blit, Nat.add_assoc, Nat.add_comm 1, Nat.add_sub_cancel]
      rw [Nat.sub_add_cancel pos]

/-- The bytes a transfer of `n` from `a` on moves, as far as lines matter: no CR but at the end. -/
structure LineOk (src : Mem) (a n d3 : Nat) : Prop where
  before : ∀ i, i + 1 < n → src.getU8 (a + i) ≠ cr
  last : d3 = src.getU8 (a + (n - 1))

/-! ### One pass -/

theorem rdPass_eq {r : Ring} (user : Mem) (line : Bool) (dst : Nat) {d1 : Nat} (pos : 0 < d1)
    (small : d1 < 0x80000000) (fits : r.rdPtr + d1 < 4294967296) :
    ∃ n, 0 < n ∧ n ≤ d1 ∧ (rdPass r user line dst d1).mem = user.blit dst r.mem r.rdPtr n ∧
      (rdPass r user line dst d1).ptr = r.rdPtr + n ∧ (rdPass r user line dst d1).dst = dst + n ∧
      (rdPass r user line dst d1).d0 = n ∧
      (line = true → LineOk r.mem r.rdPtr n (rdPass r user line dst d1).d3) := by
  cases line with
  | false =>
    refine ⟨d1, pos, Nat.le_refl d1, ?_⟩
    simp only [rdPass, rdBlock, Bool.false_eq_true, if_false, copyMem_eq _ _ _ _ pos small]
    refine ⟨trivial, trivial, trivial, ?_, by simp⟩
    rw [sub32_of_le fits (Nat.le_add_right _ _)]
    omega
  | true =>
    have pred : sub32 d1 1 + 1 = d1 := by
      unfold sub32
      omega
    have le := lineLen_le r.mem r.rdPtr (sub32 d1 1)
    refine ⟨lineLen r.mem r.rdPtr (sub32 d1 1), lineLen_pos _ _ _, by omega, ?_⟩
    simp only [rdPass, if_true, rdLnLoop_eq]
    exact ⟨trivial, trivial, trivial, Nat.zero_add _, fun _ => ⟨fun i before => lineLen_before before, rfl⟩⟩

theorem wrPass_eq {r : Ring} (user : Mem) (line : Bool) (src : Nat) {d1 : Nat} (pos : 0 < d1)
    (small : d1 < 0x80000000) (fits : r.wrPtr + d1 < 4294967296) :
    ∃ n, 0 < n ∧ n ≤ d1 ∧ (wrPass r user line src d1).mem = r.mem.blit r.wrPtr user src n ∧
      (wrPass r user line src d1).ptr = r.wrPtr + n ∧ (wrPass r user line src d1).d0 = n ∧
      (line = true → LineOk user src n (wrPass r user line src d1).d3) := by
  cases line with
  | false =>
    refine ⟨d1, pos, Nat.le_refl d1, ?_⟩
    simp only [wrPass, wrBlock, Bool.false_eq_true, if_false, copyMem_eq _ _ _ _ pos small]
    refine ⟨trivial, trivial, ?_, by simp⟩
    rw [sub32_of_le fits (Nat.le_add_right _ _)]
    omega
  | true =>
    have pred : sub32 d1 1 + 1 = d1 := by
      unfold sub32
      omega
    have le := lineLen_le user src (sub32 d1 1)
    refine ⟨lineLen user src (sub32 d1 1), lineLen_pos _ _ _, by omega, ?_⟩
    simp only [wrPass, if_true, wrLnLoop_eq]
    exact ⟨trivial, trivial, Nat.zero_add _, fun _ => ⟨fun i before => lineLen_before before, rfl⟩⟩

/-! ### The ring -/

/-- Fill counts add up to the size, both pointers are in the buffer, and the write pointer is as
far in front of the read pointer as there are bytes to read. -/
structure Ring.Ok (r : Ring) : Prop where
  size : 0 < r.bufSz
  small : r.bufSz < 0x80000000
  finish : r.bufEnd = r.buf + r.bufSz
  inMemory : r.bufEnd < 4294967296
  total : r.rdByt + r.wrSpc = r.bufSz
  rdLow : r.buf ≤ r.rdPtr
  rdHigh : r.rdPtr < r.bufEnd
  wrLow : r.buf ≤ r.wrPtr
  wrHigh : r.wrPtr < r.bufEnd
  distance : r.wrPtr - r.buf = (r.rdPtr - r.buf + r.rdByt) % r.bufSz

/-- The bytes between the read and the write pointer, the oldest first. -/
def Ring.queued (r : Ring) : List UInt8 :=
  Ring.span (fun i => r.mem (r.buf + i)) r.bufSz (r.rdPtr - r.buf) r.rdByt

theorem Ring.create_ok {buf size : Nat} (mem : Mem) (pos : 0 < size) (small : size < 0x80000000)
    (inMemory : buf + size < 4294967296) : (Ring.create buf size mem).Ok := by
  refine ⟨pos, small, rfl, inMemory, Nat.zero_add _, Nat.le_refl _, ?_, Nat.le_refl _, ?_, ?_⟩
  · exact Nat.lt_add_of_pos_right pos
  · exact Nat.lt_add_of_pos_right pos
  · simp [Ring.create]

theorem chunk_spec {r : Ring} {d6 d2 ptr : Nat} (ok : r.Ok) (want : 0 < d6) (have_ : 0 < d2) (room : d2 ≤ r.bufSz)
    (high : ptr < r.bufEnd) :
    0 < chunk r d6 d2 ptr ∧ chunk r d6 d2 ptr ≤ d6 ∧ chunk r d6 d2 ptr ≤ d2 ∧ ptr + chunk r d6 d2 ptr ≤ r.bufEnd ∧
      chunk r d6 d2 ptr < 0x80000000 := by
  have inMemory := ok.inMemory
  have small := ok.small
  unfold chunk
  rw [sub32_of_le inMemory (Nat.le_of_lt high)]
  dsimp only
  split <;> split <;> omega

/-- The offset of a pointer that went forward without crossing the end. -/
theorem wrapPtr_spec {r : Ring} {ptr n : Nat} (ok : r.Ok) (low : r.buf ≤ ptr) (fits : ptr + n ≤ r.bufEnd) :
    r.buf ≤ wrapPtr r (ptr + n) ∧ wrapPtr r (ptr + n) < r.bufEnd ∧
      wrapPtr r (ptr + n) - r.buf = (ptr - r.buf + n) % r.bufSz := by
  have size := ok.size
  have finish := ok.finish
  unfold wrapPtr
  split
  · refine ⟨by omega, by omega, ?_⟩
    rw [Nat.mod_eq_of_lt (by omega)]
    omega
  · refine ⟨Nat.le_refl _, by omega, ?_⟩
    have whole : ptr - r.buf + n = r.bufSz := by omega
    rw [whole, Nat.mod_self]
    omega

theorem span_flat {d : Nat → UInt8} {size off n : Nat} (fits : off + n ≤ size) :
    Ring.span d size off n = (List.range n).map fun i => d (off + i) := by
  apply List.map_congr_left
  intro i inside
  have := List.mem_range.mp inside
  rw [Nat.mod_eq_of_lt (by omega)]

/-- Bytes taken off the front. -/
theorem Ring.took_ok {r : Ring} {p : Pass} {n : Nat} (ok : r.Ok) (le : n ≤ r.rdByt)
    (fits : r.rdPtr + n ≤ r.bufEnd) (ptr : p.ptr = r.rdPtr + n) (count : p.d0 = n) :
    (r.took p).Ok ∧ r.queued = r.mem.bytes r.rdPtr n ++ (r.took p).queued := by
  have small := ok.small
  have total := ok.total
  have finish := ok.finish
  have low := ok.rdLow
  obtain ⟨newLow, newHigh, newOff⟩ := wrapPtr_spec ok ok.rdLow fits
  have left : sub32 r.rdByt n = r.rdByt - n := sub32_of_le (by omega) le
  have room : add32 r.wrSpc n = r.wrSpc + n := add32_of_lt (by omega)
  constructor
  · refine ⟨ok.size, ok.small, ok.finish, ok.inMemory, ?_, ?_, ?_, ok.wrLow, ok.wrHigh, ?_⟩
    · simp only [Ring.took, count, left, room]
      omega
    · simpa only [Ring.took, ptr] using newLow
    · simpa only [Ring.took, ptr] using newHigh
    · simp only [Ring.took, ptr, count, left, newOff, Nat.mod_add_mod]
      rw [ok.distance]
      congr 1
      omega
  · have parts : r.rdByt = n + (r.rdByt - n) := by omega
    have front : Ring.span (fun i => r.mem (r.buf + i)) r.bufSz (r.rdPtr - r.buf) n = r.mem.bytes r.rdPtr n := by
      rw [span_flat (by omega)]
      apply List.map_congr_left
      intro i _
      congr 1
      omega
    have back : (r.took p).queued =
        Ring.span (fun i => r.mem (r.buf + i)) r.bufSz (r.rdPtr - r.buf + n) (r.rdByt - n) := by
      unfold Ring.queued
      simp only [Ring.took, ptr, count, left, newOff, Ring.span_mod]
    rw [back, ← front, ← Ring.span_add, ← parts]
    rfl

/-- Bytes put at the back. -/
theorem Ring.gave_ok {r : Ring} {p : Pass} {n : Nat} {user : Mem} {src : Nat} (ok : r.Ok) (le : n ≤ r.wrSpc)
    (fits : r.wrPtr + n ≤ r.bufEnd) (ptr : p.ptr = r.wrPtr + n) (count : p.d0 = n)
    (mem : p.mem = r.mem.blit r.wrPtr user src n) :
    (r.gave p).Ok ∧ (r.gave p).queued = r.queued ++ user.bytes src n := by
  have small := ok.small
  have total := ok.total
  have finish := ok.finish
  have low := ok.wrLow
  have rdLow := ok.rdLow
  have rdHigh := ok.rdHigh
  obtain ⟨newLow, newHigh, newOff⟩ := wrapPtr_spec ok ok.wrLow fits
  have more : add32 r.rdByt n = r.rdByt + n := add32_of_lt (by omega)
  have room : sub32 r.wrSpc n = r.wrSpc - n := sub32_of_le (by omega) le
  constructor
  · refine ⟨ok.size, ok.small, ok.finish, ok.inMemory, ?_, ok.rdLow, ok.rdHigh, ?_, ?_, ?_⟩
    · simp only [Ring.gave, count, more, room]
      omega
    · simpa only [Ring.gave, ptr] using newLow
    · simpa only [Ring.gave, ptr] using newHigh
    · simp only [Ring.gave, ptr, count, more, newOff]
      rw [ok.distance, Nat.mod_add_mod, Nat.add_assoc]
  · have whole : (r.gave p).queued =
        Ring.span (fun i => p.mem (r.buf + i)) r.bufSz (r.rdPtr - r.buf) (r.rdByt + n) := by
      unfold Ring.queued
      simp only [Ring.gave, count, more]
    have offset : r.wrPtr = r.buf + (r.rdPtr - r.buf + r.rdByt) % r.bufSz := by
      rw [← ok.distance]
      omega
    have front : Ring.span (fun i => p.mem (r.buf + i)) r.bufSz (r.rdPtr - r.buf) r.rdByt = r.queued := by
      apply Ring.span_congr
      intro i inside
      rw [mem]
      apply Mem.blit_outside
      -- the new bytes start where the old ones end, and there is room for all of them
      by_contra inNew
      obtain ⟨j, within, cell⟩ : ∃ j < n, r.buf + (r.rdPtr - r.buf + i) % r.bufSz = r.wrPtr + j :=
        ⟨r.buf + (r.rdPtr - r.buf + i) % r.bufSz - r.wrPtr, by omega, by omega⟩
      have target : (r.rdPtr - r.buf + (r.rdByt + j)) % r.bufSz = r.wrPtr - r.buf + j := by
        rw [← Nat.add_assoc, ← Nat.mod_add_mod, ← ok.distance, Nat.mod_eq_of_lt (by omega)]
      have same : (r.rdPtr - r.buf + i) % r.bufSz = (r.rdPtr - r.buf + (r.rdByt + j)) % r.bufSz := by
        rw [target]
        omega
      exact Ring.apart (by omega) (by omega) (by omega) same
    have back : Ring.span (fun i => p.mem (r.buf + i)) r.bufSz (r.rdPtr - r.buf + r.rdByt) n = user.bytes src n := by
      rw [← Ring.span_mod, ← ok.distance, span_flat (by omega), ← Mem.bytes_blit r.mem r.wrPtr user src n, ← mem]
      apply List.map_congr_left
      intro i _
      congr 1
      omega
    rw [whole, Ring.span_add, front, back]

theorem Ring.setStatSize_ok {r : Ring} (ok : r.Ok) :
    r.setStatSize.1.Ok ∧ r.setStatSize.1.queued = r.queued := by
  unfold Ring.setStatSize
  split
  · exact ⟨ok, rfl⟩
  · next empty =>
    have none : r.rdByt = 0 := by omega
    have finish := ok.finish
    have size := ok.size
    constructor
    · refine ⟨ok.size, ok.small, ok.finish, ok.inMemory, ?_, ?_, ?_, ?_, ?_, ?_⟩
      · simp [none]
      · exact Nat.le_refl _
      · show r.buf < r.bufEnd
        omega
      · exact Nat.le_refl _
      · show r.buf < r.bufEnd
        omega
      · simp [none]
    · simp [Ring.queued, Ring.span, none]

/-! ### Calls -/

/-- A call in progress has counted what it moved, and a line call has not met a CR yet. -/
structure Call.Ok (c : Call) : Prop where
  count : c.d5 = c.moved.length
  total : c.d5 + c.d6 = c.want
  small : c.want < 4294967296
  line : c.line = true → 13 ∉ c.moved

/-- A call that returns reports what it moved; a line call moved a CR at the very end or none. -/
structure Call.Ended (c : Call) : Prop where
  count : c.d5 = c.moved.length
  le : c.moved.length ≤ c.want
  line : c.line = true → 13 ∉ c.moved.dropLast

theorem Call.Ok.ended {c : Call} (ok : c.Ok) : c.Ended := by
  have total := ok.total
  have count := ok.count
  exact ⟨ok.count, by omega, fun line there => ok.line line (List.dropLast_subset _ there)⟩

/-- `new` is what the call moved until it slept or returned. -/
def Outcome.Good (before : Call) (new : List UInt8) : Outcome → Prop
  | .asleep c _ => c.Ok ∧ (c.dir = before.dir ∧ c.pid = before.pid ∧ c.line = before.line ∧ c.want = before.want) ∧
    c.moved = before.moved ++ new ∧ (new = [] → c = before)
  | .back c _ => c.Ended ∧ c.dir = before.dir ∧ c.moved = before.moved ++ new
  | .stuck => False

theorem getU8_ne_cr {src : Mem} {a : Nat} : src.getU8 a ≠ cr ↔ src a ≠ 13 := by
  unfold Mem.getU8 cr
  rw [Ne, Ne, ← UInt8.toNat_inj]
  rfl

theorem LineOk.dropLast {src : Mem} {a n d3 : Nat} (ok : LineOk src a n d3) (pos : 0 < n) :
    13 ∉ (src.bytes a n).dropLast := by
  obtain ⟨m, rfl⟩ : ∃ m, n = m + 1 := ⟨n - 1, by omega⟩
  rw [Mem.bytes_add]
  have single : src.bytes (a + m) 1 = [src (a + m)] := rfl
  rw [single, List.dropLast_concat]
  intro there
  obtain ⟨i, inside, cell⟩ := List.mem_map.mp there
  exact getU8_ne_cr.mp (ok.before i (by have := List.mem_range.mp inside; omega)) cell

theorem LineOk.no_cr {src : Mem} {a n d3 : Nat} (ok : LineOk src a n d3) (pos : 0 < n) (other : d3 ≠ cr) :
    13 ∉ src.bytes a n := by
  intro there
  obtain ⟨i, inside, cell⟩ := List.mem_map.mp there
  have bound := List.mem_range.mp inside
  by_cases last : i + 1 < n
  · exact getU8_ne_cr.mp (ok.before i last) cell
  · have place : i = n - 1 := by omega
    rw [ok.last, ← place] at other
    exact getU8_ne_cr.mp other cell

/-- One pass of a call that goes on. -/
theorem Call.passed_ok {c : Call} {p : Pass} {src : Mem} {a n : Nat} (a4 : Base) (ok : c.Ok) (pos : 0 < n)
    (le : n ≤ c.d6) (count : p.d0 = n) (line : c.line = true → LineOk src a n p.d3)
    (goes : ¬ (c.line = true ∧ p.d3 = cr)) : (c.passed p a4 (src.bytes a n)).Ok ∧ c.d6 = n + (c.passed p a4 (src.bytes a n)).d6 := by
  have total := ok.total
  have small := ok.small
  have moved : add32 c.d5 n = c.d5 + n := add32_of_lt (by omega)
  have left : sub32 c.d6 n = c.d6 - n := sub32_of_le (by omega) le
  refine ⟨⟨?_, ?_, ok.small, ?_⟩, ?_⟩
  · simp only [Call.passed, count, moved, List.length_append, Mem.length_bytes]
    rw [ok.count]
  · simp only [Call.passed, count, moved, left]
    omega
  · intro isLine there
    obtain old | new := List.mem_append.mp there
    · exact ok.line isLine old
    · exact (line isLine).no_cr pos (fun is => goes ⟨isLine, is⟩) new
  · simp only [Call.passed, count, left]
    omega

/-- One pass of a line call that ends with a CR. -/
theorem Call.passed_ended {c : Call} {p : Pass} {src : Mem} {a n : Nat} (a4 : Base) (ok : c.Ok) (pos : 0 < n)
    (le : n ≤ c.d6) (count : p.d0 = n) (line : c.line = true → LineOk src a n p.d3) :
    (c.passed p a4 (src.bytes a n)).Ended := by
  have total := ok.total
  have counted := ok.count
  have small := ok.small
  have moved : add32 c.d5 n = c.d5 + n := add32_of_lt (by omega)
  have bytes : src.bytes a n ≠ [] := Mem.bytes_ne_nil src a pos
  refine ⟨?_, ?_, ?_⟩
  · simp only [Call.passed, count, moved, List.length_append, Mem.length_bytes]
    rw [ok.count]
  · simp only [Call.passed, List.length_append, Mem.length_bytes]
    omega
  · intro isLine
    show 13 ∉ (c.moved ++ src.bytes a n).dropLast
    rw [List.dropLast_append_of_ne_nil bytes]
    intro there
    obtain old | new := List.mem_append.mp there
    · exact ok.line isLine old
    · exact (line isLine).dropLast pos new

theorem Outcome.Good.more {c : Call} {p : Pass} {a4 : Base} {bytes new : List UInt8} {out : Outcome}
    (some : bytes ≠ []) (good : out.Good (c.passed p a4 bytes) new) : out.Good c (bytes ++ new) := by
  have grown : (c.passed p a4 bytes).moved ++ new = c.moved ++ (bytes ++ new) := List.append_assoc _ _ _
  cases out with
  | asleep c' place =>
    obtain ⟨ok, same, moved, -⟩ := good
    refine ⟨ok, same, moved.trans grown, fun none => ?_⟩
    exact absurd (List.append_eq_nil_iff.mp none).1 some
  | back c' err =>
    obtain ⟨ended, dir, moved⟩ := good
    exact ⟨ended, dir, moved.trans grown⟩
  | stuck => exact good

/-! ### The two sides -/

def Dir.flip : Dir → Dir
  | .read => .write
  | .write => .read

/-- The word a sleeper of this direction leaves its PID in. -/
def World.waiter (w : World) : Dir → Nat
  | .read => w.rdWat
  | .write => w.wrWat

/-- The open ends of the other side, as the descriptor counts them. -/
def World.partners (w : World) : Dir → Nat
  | .read => w.wrOpn
  | .write => w.rdOpn

/-- What a call of this direction finds in the ring: bytes or space. -/
def Ring.avail (r : Ring) : Dir → Nat
  | .read => r.rdByt
  | .write => r.wrSpc

/-- What ends a call early: a signal, or no writers and nothing left to read, or no readers. -/
def Cut (dir : Dir) (r : Ring) (w : World) (c : Call) : Prop :=
  signalAt r w c ≠ 0 ∨
    match dir with
    | .read => r.rdByt = 0 ∧ w.wrOpn = 0
    | .write => w.rdOpn = 0

/-- Why a call returns: its request is served, its line has ended, or it is cut short, which is an
error when nothing was moved by then. -/
def Why (dir : Dir) (r : Ring) (w : World) (c : Call) : Option Nat → Prop
  | none => c.moved.length = c.want ∨ (c.line = true ∧ c.moved.getLast? = some 13) ∨ (c.moved ≠ [] ∧ Cut dir r w c)
  | some _ => c.moved = [] ∧ Cut dir r w c

theorem Why.served {dir : Dir} {r : Ring} {w : World} {c : Call} (ok : c.Ok) (noMore : c.d6 = 0) : Why dir r w c none := by
  have count := ok.count
  have total := ok.total
  exact Or.inl (by omega)

/-- A pass that stops at a CR ends the line. -/
theorem Why.line_ended {dir : Dir} {r : Ring} {w : World} {c : Call} {p : Pass} {src : Mem} {a n : Nat} (a4 : Base)
    (pos : 0 < n) (line : c.line = true → LineOk src a n p.d3) (goes : c.line = true ∧ p.d3 = cr) :
    Why dir r w (c.passed p a4 (src.bytes a n)) none := by
  obtain ⟨isLine, ends⟩ := goes
  obtain ⟨m, rfl⟩ : ∃ m, n = m + 1 := ⟨n - 1, by omega⟩
  have last : src (a + m) = 13 := by
    by_contra other
    exact getU8_ne_cr.mpr other ((line isLine).last.symm.trans ends)
  have single : src.bytes (a + m) 1 = [src (a + m)] := rfl
  refine Or.inr (Or.inl ⟨isLine, ?_⟩)
  show (c.moved ++ src.bytes a (m + 1)).getLast? = some 13
  rw [Mem.bytes_add, single, last, ← List.append_assoc]
  exact List.getLast?_concat ..

theorem Why.cut_some {dir : Dir} {r : Ring} {w : World} {c : Call} (ok : c.Ok) (some : c.d5 ≠ 0) (cut : Cut dir r w c) :
    Why dir r w c none := by
  refine Or.inr (Or.inr ⟨fun none => some ?_, cut⟩)
  rw [ok.count, none, List.length_nil]

theorem Why.cut_none {dir : Dir} {r : Ring} {w : World} {c : Call} (ok : c.Ok) (none : ¬ c.d5 ≠ 0) (cut : Cut dir r w c)
    (err : Nat) : Why dir r w c (some err) := by
  have count := ok.count
  exact ⟨List.length_eq_zero_iff.mp (by omega), cut⟩

/-- What a run of a call does to the world: a transfer wakes the waiter of the other side, a sleep
for data or space enters the caller in its own waiter word, and the other word stays without a
transfer. -/
structure Effect (dir : Dir) (w w' : World) (r' : Ring) (new : List UInt8) (out : Outcome) : Prop where
  rdOpn : w'.rdOpn = w.rdOpn
  wrOpn : w'.wrOpn = w.wrOpn
  sends : ∃ extra, w'.sent = w.sent ++ extra ∧
    (new ≠ [] → w.waiter dir.flip ≠ 0 → (w.waiter dir.flip, 1) ∈ extra)
  other : new = [] → w'.waiter dir.flip = w.waiter dir.flip
  waits : ∀ c, out = .asleep c .wait →
    w'.waiter dir = pidAt r' w' c ∧ r'.avail dir = 0 ∧ w.partners dir ≠ 0 ∧ c.d6 ≠ 0
  goes : (∀ c, out ≠ .asleep c .wait) → w'.waiter dir = w.waiter dir
  why : ∀ c err, out = .back c err → Why dir r' w' c err

/-- A run in which nothing is moved and nothing is waited for. -/
theorem Effect.idle {dir : Dir} {w w' : World} {r : Ring} {out : Outcome} (rdOpn : w'.rdOpn = w.rdOpn)
    (wrOpn : w'.wrOpn = w.wrOpn) (rdWat : w'.rdWat = w.rdWat) (wrWat : w'.wrWat = w.wrWat) (sent : w'.sent = w.sent)
    (awake : ∀ c, out ≠ .asleep c .wait) (why : ∀ c err, out = .back c err → Why dir r w' c err) :
    Effect dir w w' r [] out := by
  refine ⟨rdOpn, wrOpn, ⟨[], by rw [sent, List.append_nil], by simp⟩, ?_, fun c is => absurd is (awake c), ?_, why⟩
  · intro _
    cases dir
    · exact wrWat
    · exact rdWat
  · intro _
    cases dir
    · exact rdWat
    · exact wrWat

theorem Effect.back {dir : Dir} {w w' : World} {r : Ring} {c : Call} {err : Option Nat} (rdOpn : w'.rdOpn = w.rdOpn)
    (wrOpn : w'.wrOpn = w.wrOpn) (rdWat : w'.rdWat = w.rdWat) (wrWat : w'.wrWat = w.wrWat) (sent : w'.sent = w.sent)
    (why : Why dir r w' c err) : Effect dir w w' r [] (.back c err) := by
  refine Effect.idle rdOpn wrOpn rdWat wrWat sent (by simp) (fun c' err' is => ?_)
  cases is
  exact why

/-- A pass of the loop in front of the rest. -/
theorem Effect.after {dir : Dir} {w mid w' : World} {r' : Ring} {bytes new : List UInt8} {out : Outcome}
    (rest : Effect dir mid w' r' new out) (some : bytes ≠ []) (rdOpn : mid.rdOpn = w.rdOpn) (wrOpn : mid.wrOpn = w.wrOpn)
    (mine : mid.waiter dir = w.waiter dir)
    (sends : ∃ extra, mid.sent = w.sent ++ extra ∧ (w.waiter dir.flip ≠ 0 → (w.waiter dir.flip, 1) ∈ extra)) :
    Effect dir w w' r' (bytes ++ new) out := by
  obtain ⟨first, firstSent, woken⟩ := sends
  obtain ⟨later, laterSent, -⟩ := rest.sends
  have partners : mid.partners dir = w.partners dir := by
    cases dir
    · exact wrOpn
    · exact rdOpn
  refine ⟨rest.rdOpn.trans rdOpn, rest.wrOpn.trans wrOpn, ⟨first ++ later, ?_, ?_⟩, ?_, ?_, ?_, rest.why⟩
  · rw [laterSent, firstSent, List.append_assoc]
  · intro _ waits
    exact List.mem_append_left _ (woken waits)
  · intro none
    exact absurd (List.append_eq_nil_iff.mp none).1 some
  · intro c is
    rw [← partners]
    exact rest.waits c is
  · intro awake
    exact (rest.goes awake).trans mine

theorem wakeWriter_spec (w : World) :
    w.wakeWriter.rdOpn = w.rdOpn ∧ w.wakeWriter.wrOpn = w.wrOpn ∧ w.wakeWriter.rdWat = w.rdWat ∧
      w.wakeWriter.user = w.user ∧
      ∃ extra, w.wakeWriter.sent = w.sent ++ extra ∧ (w.wrWat ≠ 0 → (w.wrWat, 1) ∈ extra) := by
  unfold World.wakeWriter World.send
  split
  · next none => exact ⟨rfl, rfl, rfl, rfl, [], (List.append_nil _).symm, fun some => absurd none some⟩
  · exact ⟨rfl, rfl, rfl, rfl, [(w.wrWat, 1)], rfl, by simp⟩

theorem wakeReader_spec (w : World) :
    w.wakeReader.dataSignal.rdOpn = w.rdOpn ∧ w.wakeReader.dataSignal.wrOpn = w.wrOpn ∧
      w.wakeReader.dataSignal.wrWat = w.wrWat ∧ w.wakeReader.dataSignal.user = w.user ∧
      ∃ extra, w.wakeReader.dataSignal.sent = w.sent ++ extra ∧ (w.rdWat ≠ 0 → (w.rdWat, 1) ∈ extra) := by
  have woken : w.wakeReader.rdOpn = w.rdOpn ∧ w.wakeReader.wrOpn = w.wrOpn ∧ w.wakeReader.wrWat = w.wrWat ∧
      w.wakeReader.user = w.user ∧
      ∃ extra, w.wakeReader.sent = w.sent ++ extra ∧ (w.rdWat ≠ 0 → (w.rdWat, 1) ∈ extra) := by
    unfold World.wakeReader World.send
    split
    · next none => exact ⟨rfl, rfl, rfl, rfl, [], (List.append_nil _).symm, fun some => absurd none some⟩
    · exact ⟨rfl, rfl, rfl, rfl, [(w.rdWat, 1)], rfl, by simp⟩
  obtain ⟨rd, wr, wat, user, extra, sent, reader⟩ := woken
  generalize w.wakeReader = v at *
  unfold World.dataSignal World.send
  split
  · exact ⟨rd, wr, wat, user, extra, sent, reader⟩
  · refine ⟨rd, wr, wat, user, extra ++ [(v.sigPid, v.sigCode)], ?_, ?_⟩
    · rw [← List.append_assoc, ← sent]
    · intro waits
      exact List.mem_append_left _ (reader waits)

/-- What the queue is after a call of either direction has moved `new`. -/
structure Moved (dir : Dir) (r r' : Ring) (new : List UInt8) : Prop where
  size : r'.bufSz = r.bufSz
  queue : match dir with
    | .read => r.queued = new ++ r'.queued
    | .write => r'.queued = r.queued ++ new

theorem Ring.length_queued (r : Ring) : r.queued.length = r.rdByt := Ring.span_length

theorem Moved.none (dir : Dir) (r : Ring) : Moved dir r r [] := by
  cases dir
  · exact ⟨rfl, rfl⟩
  · exact ⟨rfl, (List.append_nil _).symm⟩

theorem Moved.trans {dir : Dir} {r mid r' : Ring} {bytes new : List UInt8} (first : Moved dir r mid bytes)
    (rest : Moved dir mid r' new) : Moved dir r r' (bytes ++ new) := by
  cases dir
  · exact ⟨rest.size.trans first.size, first.queue.trans (by rw [rest.queue, List.append_assoc])⟩
  · exact ⟨rest.size.trans first.size, rest.queue.trans (by rw [first.queue, List.append_assoc])⟩

theorem Moved.avail {dir : Dir} {r r' : Ring} {new : List UInt8} (moved : Moved dir r r' new) (ok : r.Ok) (ok' : r'.Ok) :
    r.avail dir = new.length + r'.avail dir := by
  have total := ok.total
  have total' := ok'.total
  have size := moved.size
  cases dir with
  | read =>
    have length := congrArg List.length moved.queue
    rw [List.length_append, Ring.length_queued, Ring.length_queued] at length
    exact length
  | write =>
    have length := congrArg List.length moved.queue
    rw [List.length_append, Ring.length_queued, Ring.length_queued] at length
    show r.wrSpc = new.length + r'.wrSpc
    omega

/-! ### The loops -/

/-- A read takes bytes off the front of the queue and hands them to its caller. -/
theorem rdLoop_good (fuel : Nat) {r : Ring} {w : World} {c : Call} (ok : r.Ok) (call : c.Ok) (enough : c.d6 < fuel) :
    ∃ new, (rdLoop fuel r w c).1.Ok ∧ Moved .read r (rdLoop fuel r w c).1 new ∧
      (rdLoop fuel r w c).2.2.Good c new ∧
      Effect .read w (rdLoop fuel r w c).2.1 (rdLoop fuel r w c).1 new (rdLoop fuel r w c).2.2 := by
  induction fuel generalizing r w c with
  | zero => omega
  | succ fuel ih =>
    unfold rdLoop
    by_cases noMore : c.d6 = 0
    · rw [if_pos noMore]
      exact ⟨[], ok, Moved.none _ _, ⟨call.ended, rfl, (List.append_nil _).symm⟩,
        Effect.back rfl rfl rfl rfl rfl (Why.served call noMore)⟩
    · rw [if_neg noMore]
      by_cases empty : r.rdByt = 0
      · rw [if_pos empty]
        refine ⟨[], ?_⟩
        split
        · next partners =>
          have cut : Cut .read r w c := Or.inr ⟨empty, partners⟩
          split
          · next some =>
            exact ⟨ok, Moved.none _ _, ⟨call.ended, rfl, (List.append_nil _).symm⟩,
              Effect.back rfl rfl rfl rfl rfl (Why.cut_some call some cut)⟩
          · next none =>
            exact ⟨ok, Moved.none _ _, ⟨call.ended, rfl, (List.append_nil _).symm⟩,
              Effect.back rfl rfl rfl rfl rfl (Why.cut_none call none cut _)⟩
        · next partners =>
          refine ⟨ok, Moved.none _ _, ⟨call, ⟨rfl, rfl, rfl, rfl⟩, (List.append_nil _).symm, fun _ => rfl⟩, rfl, rfl, ?_,
            fun _ => rfl, ?_, ?_, by simp⟩
          · exact ⟨[], (List.append_nil _).symm, by simp⟩
          · intro c' is
            cases is
            exact ⟨rfl, empty, partners, noMore⟩
          · intro awake
            exact absurd rfl (awake c)
      · rw [if_neg empty]
        have total := ok.total
        have inMemory := ok.inMemory
        obtain ⟨pos, leWant, leHave, fits, small⟩ :=
          chunk_spec ok (Nat.pos_of_ne_zero noMore) (Nat.pos_of_ne_zero empty) (by omega) ok.rdHigh
        obtain ⟨n, nPos, nLe, mem, ptr, dst, count, line⟩ :=
          rdPass_eq (r := r) w.user c.line (c.a3 + c.d5) pos small (by omega)
        obtain ⟨took, queue⟩ := Ring.took_ok ok (by omega) (by omega) ptr count
        have moved : Moved .read r (r.took _) _ := ⟨rfl, queue⟩
        dsimp only
        generalize rdPass r w.user c.line (c.a3 + c.d5) (chunk r c.d6 r.rdByt r.rdPtr) = p at *
        -- what arrived in the caller's buffer is what left the ring
        have arrived : p.mem.bytes (c.a3 + c.d5) (p.dst - (c.a3 + c.d5)) = r.mem.bytes r.rdPtr n := by
          rw [dst, Nat.add_sub_cancel_left, mem, Mem.bytes_blit]
        rw [arrived]
        have some : r.mem.bytes r.rdPtr n ≠ [] := Mem.bytes_ne_nil _ _ nPos
        obtain ⟨rd, wr, mine, -, sends⟩ := wakeWriter_spec { w with user := p.mem }
        generalize World.wakeWriter { w with user := p.mem } = mid at *
        split
        · next goes =>
          have why := @Why.line_ended .read (r.took p) mid _ p _ _ _ (.user p.a4) nPos line goes
          refine ⟨_ ++ [], took, moved.trans (Moved.none _ _), ?_,
            (Effect.back rfl rfl rfl rfl rfl why).after some rd wr mine sends⟩
          rw [List.append_nil]
          exact ⟨Call.passed_ended _ call nPos (by omega) count line, rfl, rfl⟩
        · next goes =>
          obtain ⟨later, less⟩ := Call.passed_ok (.user p.a4) call nPos (by omega) count line goes
          obtain ⟨new, newOk, newQueue, good, effect⟩ := @ih (r.took p) mid _ took later (by omega)
          exact ⟨r.mem.bytes r.rdPtr n ++ new, newOk, moved.trans newQueue, good.more some,
            effect.after some rd wr mine sends⟩

/-- A write puts bytes of its caller's buffer at the back of the queue. -/
theorem wrLoop_good (fuel : Nat) {r : Ring} {w : World} {c : Call} (ok : r.Ok) (call : c.Ok) (enough : c.d6 < fuel) :
    ∃ new, (wrLoop fuel r w c).1.Ok ∧ Moved .write r (wrLoop fuel r w c).1 new ∧
      (wrLoop fuel r w c).2.2.Good c new ∧ new = w.user.bytes (c.a3 + c.d5) new.length ∧
      Effect .write w (wrLoop fuel r w c).2.1 (wrLoop fuel r w c).1 new (wrLoop fuel r w c).2.2 := by
  induction fuel generalizing r w c with
  | zero => omega
  | succ fuel ih =>
    unfold wrLoop
    by_cases noMore : c.d6 = 0
    · rw [if_pos noMore]
      exact ⟨[], ok, Moved.none _ _, ⟨call.ended, rfl, (List.append_nil _).symm⟩, rfl,
        Effect.back rfl rfl rfl rfl rfl (Why.served call noMore)⟩
    · rw [if_neg noMore]
      by_cases broken : w.rdOpn = 0
      · rw [if_pos broken]
        refine ⟨[], ?_⟩
        have cut : Cut .write r w c := Or.inr broken
        split
        · next some =>
          exact ⟨ok, Moved.none _ _, ⟨call.ended, rfl, (List.append_nil _).symm⟩, rfl,
            Effect.back rfl rfl rfl rfl rfl (Why.cut_some call some cut)⟩
        · next none =>
          exact ⟨ok, Moved.none _ _, ⟨call.ended, rfl, (List.append_nil _).symm⟩, rfl,
            Effect.back rfl rfl rfl rfl rfl (Why.cut_none call none cut _)⟩
      · rw [if_neg broken]
        by_cases full : r.wrSpc = 0
        · rw [if_pos full]
          refine ⟨[], ok, Moved.none _ _, ⟨call, ⟨rfl, rfl, rfl, rfl⟩, (List.append_nil _).symm, fun _ => rfl⟩, rfl,
            rfl, rfl, ?_, fun _ => rfl, ?_, ?_, by simp⟩
          · exact ⟨[], (List.append_nil _).symm, by simp⟩
          · intro c' is
            cases is
            exact ⟨rfl, full, broken, noMore⟩
          · intro awake
            exact absurd rfl (awake c)
        · rw [if_neg full]
          have total := ok.total
          have inMemory := ok.inMemory
          obtain ⟨pos, leWant, leHave, fits, small⟩ :=
            chunk_spec ok (Nat.pos_of_ne_zero noMore) (Nat.pos_of_ne_zero full) (by omega) ok.wrHigh
          obtain ⟨n, nPos, nLe, mem, ptr, count, line⟩ :=
            wrPass_eq (r := r) w.user c.line (c.a3 + c.d5) pos small (by omega)
          obtain ⟨gave, queue⟩ := Ring.gave_ok ok (by omega) (by omega) ptr count mem
          have moved : Moved .write r (r.gave _) _ := ⟨rfl, queue⟩
          dsimp only
          generalize wrPass r w.user c.line (c.a3 + c.d5) (chunk r c.d6 r.wrSpc r.wrPtr) = p at *
          have length : p.ptr - r.wrPtr = n := by omega
          rw [length]
          have some : w.user.bytes (c.a3 + c.d5) n ≠ [] := Mem.bytes_ne_nil _ _ nPos
          obtain ⟨rd, wr, mine, user, sends⟩ := wakeReader_spec w
          generalize w.wakeReader.dataSignal = mid at *
          split
          · next goes =>
            have why := @Why.line_ended .write (r.gave p) mid _ p _ _ _ (.ring p.a4) nPos line goes
            refine ⟨_ ++ [], gave, moved.trans (Moved.none _ _), ?_, ?_,
              (Effect.back rfl rfl rfl rfl rfl why).after some rd wr mine sends⟩
            · rw [List.append_nil]
              exact ⟨Call.passed_ended _ call nPos (by omega) count line, rfl, rfl⟩
            · rw [List.append_nil, Mem.length_bytes]
          · next goes =>
            obtain ⟨later, less⟩ := Call.passed_ok (.ring p.a4) call nPos (by omega) count line goes
            obtain ⟨new, newOk, newQueue, good, source, effect⟩ := @ih (r.gave p) mid _ gave later (by omega)
            refine ⟨w.user.bytes (c.a3 + c.d5) n ++ new, newOk, moved.trans newQueue, good.more some, ?_,
              effect.after some rd wr mine sends⟩
            -- the next pass starts where this one ended
            have next : (c.passed p (.ring p.a4) (w.user.bytes (c.a3 + c.d5) n)).d5 = c.d5 + n := by
              have length := later.count
              rw [call.count]
              simpa [Call.passed] using length
            rw [next, user] at source
            rw [List.length_append, Mem.length_bytes, Mem.bytes_add, Nat.add_assoc]
            exact congrArg _ source

theorem rdReAcquire_good {r : Ring} {w : World} {c : Call} (ok : r.Ok) (call : c.Ok) :
    ∃ new, (rdReAcquire r w c).1.Ok ∧ Moved .read r (rdReAcquire r w c).1 new ∧
      (rdReAcquire r w c).2.2.Good c new ∧
      Effect .read w (rdReAcquire r w c).2.1 (rdReAcquire r w c).1 new (rdReAcquire r w c).2.2 := by
  unfold rdReAcquire
  split
  · exact ⟨[], ok, Moved.none _ _, ⟨call, ⟨rfl, rfl, rfl, rfl⟩, (List.append_nil _).symm, fun _ => rfl⟩,
      Effect.idle rfl rfl rfl rfl rfl (by simp) (by simp)⟩
  · dsimp only
    split
    · obtain ⟨new, newOk, queue, good, effect⟩ := rdLoop_good (w := w.setCpr c.path (pidAt r w c)) (c.d6 + 1) ok call
        (Nat.lt_succ_self _)
      exact ⟨new, newOk, queue, good, effect.rdOpn, effect.wrOpn, effect.sends, effect.other, effect.waits, effect.goes,
        effect.why⟩
    · next signal =>
      have cut : Cut .read r (w.setCpr c.path (pidAt r w c)) c := Or.inl signal
      refine ⟨[], ?_⟩
      split
      · next some =>
        exact ⟨ok, Moved.none _ _, ⟨call.ended, rfl, (List.append_nil _).symm⟩,
          Effect.back rfl rfl rfl rfl rfl (Why.cut_some call some cut)⟩
      · next none =>
        exact ⟨ok, Moved.none _ _, ⟨call.ended, rfl, (List.append_nil _).symm⟩,
          Effect.back rfl rfl rfl rfl rfl (Why.cut_none call none cut _)⟩

theorem wrReAcquire_good {r : Ring} {w : World} {c : Call} (ok : r.Ok) (call : c.Ok) :
    ∃ new, (wrReAcquire r w c).1.Ok ∧ Moved .write r (wrReAcquire r w c).1 new ∧
      (wrReAcquire r w c).2.2.Good c new ∧ new = w.user.bytes (c.a3 + c.d5) new.length ∧
      Effect .write w (wrReAcquire r w c).2.1 (wrReAcquire r w c).1 new (wrReAcquire r w c).2.2 := by
  unfold wrReAcquire
  split
  · exact ⟨[], ok, Moved.none _ _, ⟨call, ⟨rfl, rfl, rfl, rfl⟩, (List.append_nil _).symm, fun _ => rfl⟩, rfl,
      Effect.idle rfl rfl rfl rfl rfl (by simp) (by simp)⟩
  · dsimp only
    split
    · obtain ⟨new, newOk, queue, good, source, effect⟩ := wrLoop_good (w := w.setCpr c.path (pidAt r w c)) (c.d6 + 1) ok call
        (Nat.lt_succ_self _)
      exact ⟨new, newOk, queue, good, source, effect.rdOpn, effect.wrOpn, effect.sends, effect.other, effect.waits,
        effect.goes, effect.why⟩
    · next signal =>
      have cut : Cut .write r (w.setCpr c.path (pidAt r w c)) c := Or.inl signal
      refine ⟨[], ?_⟩
      split
      · next some =>
        exact ⟨ok, Moved.none _ _, ⟨call.ended, rfl, (List.append_nil _).symm⟩, rfl,
          Effect.back rfl rfl rfl rfl rfl (Why.cut_some call some cut)⟩
      · next none =>
        exact ⟨ok, Moved.none _ _, ⟨call.ended, rfl, (List.append_nil _).symm⟩, rfl,
          Effect.back rfl rfl rfl rfl rfl (Why.cut_none call none cut _)⟩

/-! ### The system -/

/-- A call that returned: what it reported in `REG_D1`, its error, and the pipe and the rest as it
left them. -/
structure Returned where
  call : Call
  d1 : Nat
  err : Option Nat
  ring : Ring
  world : World

/-- A pipe with the calls that sleep in it, by process, and its history: the bytes writers got rid
of, the bytes readers got, and the calls that returned. -/
structure Sys where
  ring : Ring
  world : World
  calls : Nat → Option (Call × Place)
  accepted : List UInt8
  delivered : List UInt8
  returned : List Returned
  stuck : Bool

/-- What the run of a call leaves: it sleeps again, or returns its count. -/
def Sys.settle (s : Sys) (before : Call) (out : Ring × World × Outcome) : Sys :=
  let history (c : Call) (s : Sys) : Sys :=
    match before.dir with
    | .read => { s with delivered := s.delivered ++ c.moved.drop before.moved.length }
    | .write => { s with accepted := s.accepted ++ c.moved.drop before.moved.length }
  let s := { s with ring := out.1, world := out.2.1 }
  match out.2.2 with
  | .asleep c place => history c { s with calls := Function.update s.calls before.pid (some (c, place)) }
  | .back c err =>
    history c { s with
      calls := Function.update s.calls before.pid none, returned := s.returned ++ [⟨c, c.d5, err, out.1, out.2.1⟩] }
  | .stuck => { s with stuck := true }

/-- A call begins, a sleep ends, `SS_Size`, or anything outside the ring changes: user memory,
other paths opened and closed, signals, locks. -/
inductive Event
  | call (dir : Dir) (line : Bool) (pid path a0 d1 : Nat)
  | wake (pid : Nat)
  | setSize
  | world (w : World)

def Sys.step (s : Sys) : Event → Option Sys
  | .call dir line pid path a0 d1 =>
    match s.calls pid with
    | some _ => none
    | none =>
      let c := Call.enter dir line pid path a0 (d1 % 4294967296)
      some (s.settle c (c.begin s.ring s.world))
  | .wake pid =>
    match s.calls pid with
    | none => none
    | some (c, place) => some (s.settle c (c.resume s.ring s.world place))
  | .setSize => some { s with ring := s.ring.setStatSize.1 }
  | .world w => some { s with world := w }

/-- The state after `Pipe_Create`. -/
def Sys.create (buf size : Nat) (mem : Mem) (w : World) : Sys :=
  { ring := Ring.create buf size mem, world := w, calls := fun _ => none, accepted := [], delivered := [],
    returned := [], stuck := false }

/-- The queue between the two histories, and calls that count what they move. -/
structure Sys.Ok (s : Sys) : Prop where
  ring : s.ring.Ok
  order : s.accepted = s.delivered ++ s.ring.queued
  asleep : ∀ pid c place, s.calls pid = some (c, place) → c.Ok ∧ c.pid = pid
  reports : ∀ done ∈ s.returned, done.call.Ended ∧ done.d1 = done.call.d5 ∧
    Why done.call.dir done.ring done.world done.call done.err
  ends : s.stuck = false

theorem Call.begin_good {r : Ring} {w : World} {c : Call} (ok : r.Ok) (call : c.Ok) :
    ∃ new, (c.begin r w).1.Ok ∧ Moved c.dir r (c.begin r w).1 new ∧ (c.begin r w).2.2.Good c new ∧
      (c.dir = .write → new = w.user.bytes (c.a3 + c.d5) new.length) ∧
      Effect c.dir w (c.begin r w).2.1 (c.begin r w).1 new (c.begin r w).2.2 := by
  unfold Call.begin
  cases c.dir with
  | read =>
    obtain ⟨new, newOk, moved, good, effect⟩ := rdLoop_good (w := w) (c.d6 + 1) ok call (Nat.lt_succ_self _)
    exact ⟨new, newOk, moved, good, by simp, effect⟩
  | write =>
    obtain ⟨new, newOk, moved, good, source, effect⟩ := wrLoop_good (w := w) (c.d6 + 1) ok call (Nat.lt_succ_self _)
    exact ⟨new, newOk, moved, good, fun _ => source, effect⟩

/-- What the end of a sleep does first. -/
def World.awake (w : World) (dir : Dir) : Place → World
  | .wait =>
    match dir with
    | .read => { w with rdWat := 0 }
    | .write => { w with wrWat := 0 }
  | .acquire => w

theorem Call.resume_good {r : Ring} {w : World} {c : Call} (place : Place) (ok : r.Ok) (call : c.Ok) :
    ∃ new, (c.resume r w place).1.Ok ∧ Moved c.dir r (c.resume r w place).1 new ∧
      (c.resume r w place).2.2.Good c new ∧
      (c.dir = .write → new = w.user.bytes (c.a3 + c.d5) new.length) ∧
      Effect c.dir (w.awake c.dir place) (c.resume r w place).2.1 (c.resume r w place).1 new (c.resume r w place).2.2 := by
  have read : ∀ v : World, v.user = w.user → ∃ new, (rdReAcquire r v c).1.Ok ∧ Moved .read r (rdReAcquire r v c).1 new ∧
      (rdReAcquire r v c).2.2.Good c new ∧ (Dir.read = .write → new = w.user.bytes (c.a3 + c.d5) new.length) ∧
      Effect .read v (rdReAcquire r v c).2.1 (rdReAcquire r v c).1 new (rdReAcquire r v c).2.2 := by
    intro v _
    obtain ⟨new, newOk, moved, good, effect⟩ := rdReAcquire_good (w := v) ok call
    exact ⟨new, newOk, moved, good, by simp, effect⟩
  have write : ∀ v : World, v.user = w.user → ∃ new, (wrReAcquire r v c).1.Ok ∧ Moved .write r (wrReAcquire r v c).1 new ∧
      (wrReAcquire r v c).2.2.Good c new ∧ (Dir.write = .write → new = w.user.bytes (c.a3 + c.d5) new.length) ∧
      Effect .write v (wrReAcquire r v c).2.1 (wrReAcquire r v c).1 new (wrReAcquire r v c).2.2 := by
    intro v user
    obtain ⟨new, newOk, moved, good, source, effect⟩ := wrReAcquire_good (w := v) ok call
    exact ⟨new, newOk, moved, good, fun _ => user ▸ source, effect⟩
  unfold Call.resume World.awake
  cases place with
  | wait =>
    cases c.dir with
    | read => exact read _ rfl
    | write => exact write _ rfl
  | acquire =>
    cases c.dir with
    | read => exact read _ rfl
    | write => exact write _ rfl

theorem Sys.settle_ok {s : Sys} {before : Call} {out : Ring × World × Outcome} {new : List UInt8} (ok : s.Ok)
    (ring : out.1.Ok) (moved : Moved before.dir s.ring out.1 new) (good : out.2.2.Good before new)
    (why : ∀ c err, out.2.2 = .back c err → Why before.dir out.1 out.2.1 c err) : (s.settle before out).Ok := by
  obtain ⟨r, w, res⟩ := out
  have order := ok.order
  -- the histories grow by what the call moved
  have histories : ∀ c : Call, c.moved = before.moved ++ new → c.moved.drop before.moved.length = new := by
    intro c grown
    rw [grown, List.drop_left]
  have others : ∀ slot : Option (Call × Place), (∀ c place, slot = some (c, place) → c.Ok ∧ c.pid = before.pid) →
      ∀ pid c place, Function.update s.calls before.pid slot pid = some (c, place) → c.Ok ∧ c.pid = pid := by
    intro slot mine pid c place there
    by_cases here : pid = before.pid
    · subst here
      rw [Function.update_self] at there
      exact mine c place there
    · rw [Function.update_of_ne here] at there
      exact ok.asleep pid c place there
  cases res with
  | asleep c place =>
    obtain ⟨call, ⟨-, pid, -⟩, grown, -⟩ := good
    have calls := others (some (c, place)) (fun c' place' is => by cases is; exact ⟨call, pid⟩)
    unfold Sys.settle
    cases dir : before.dir with
    | read =>
      rw [dir] at moved
      simp only [histories c grown]
      exact ⟨ring, by rw [order, moved.queue, List.append_assoc], calls, ok.reports, ok.ends⟩
    | write =>
      rw [dir] at moved
      simp only [histories c grown]
      exact ⟨ring, by rw [order, moved.queue, List.append_assoc], calls, ok.reports, ok.ends⟩
  | back c err =>
    obtain ⟨ended, same, grown⟩ := good
    have calls := others none (fun c' place' is => by cases is)
    have reports : ∀ done ∈ s.returned ++ [(⟨c, c.d5, err, r, w⟩ : Returned)], done.call.Ended ∧ done.d1 = done.call.d5 ∧
        Why done.call.dir done.ring done.world done.call done.err := by
      intro done there
      obtain old | new := List.mem_append.mp there
      · exact ok.reports done old
      · cases List.mem_singleton.mp new
        exact ⟨ended, rfl, same ▸ why c err rfl⟩
    unfold Sys.settle
    cases dir : before.dir with
    | read =>
      rw [dir] at moved
      simp only [histories c grown]
      exact ⟨ring, by rw [order, moved.queue, List.append_assoc], calls, reports, ok.ends⟩
    | write =>
      rw [dir] at moved
      simp only [histories c grown]
      exact ⟨ring, by rw [order, moved.queue, List.append_assoc], calls, reports, ok.ends⟩
  | stuck => exact good.elim

theorem Call.enter_ok (dir : Dir) (line : Bool) (pid path a0 : Nat) {d1 : Nat} (small : d1 < 4294967296) :
    (Call.enter dir line pid path a0 d1).Ok :=
  ⟨rfl, Nat.zero_add _, small, by simp [Call.enter]⟩

theorem Sys.step_ok {s s' : Sys} {event : Event} (ok : s.Ok) (stepped : s.step event = some s') : s'.Ok := by
  cases event with
  | call dir line pid path a0 d1 =>
    simp only [Sys.step] at stepped
    split at stepped
    · cases stepped
    · cases stepped
      have call := Call.enter_ok dir line pid path a0 (Nat.mod_lt d1 (show 0 < 4294967296 by decide))
      obtain ⟨new, ring, moved, good, -, effect⟩ := Call.begin_good (w := s.world) ok.ring call
      exact Sys.settle_ok ok ring moved good effect.why
  | wake pid =>
    simp only [Sys.step] at stepped
    split at stepped
    · cases stepped
    · next c place sleeps =>
      cases stepped
      obtain ⟨new, ring, moved, good, -, effect⟩ :=
        Call.resume_good (w := s.world) place ok.ring (ok.asleep pid c place sleeps).1
      exact Sys.settle_ok ok ring moved good effect.why
  | setSize =>
    cases stepped
    obtain ⟨ring, queue⟩ := Ring.setStatSize_ok ok.ring
    exact ⟨ring, by rw [ok.order]; exact congrArg _ queue.symm, ok.asleep, ok.reports, ok.ends⟩
  | world w =>
    cases stepped
    exact ⟨ok.ring, ok.order, ok.asleep, ok.reports, ok.ends⟩

theorem Sys.create_ok {buf size : Nat} (mem : Mem) (w : World) (pos : 0 < size) (small : size < 0x80000000)
    (inMemory : buf + size < 4294967296) : (Sys.create buf size mem w).Ok := by
  refine ⟨Ring.create_ok mem pos small inMemory, ?_, ?_, ?_, rfl⟩
  · simp [Sys.create, Ring.create, Ring.queued, Ring.span]
  · simp [Sys.create]
  · simp [Sys.create]

/-- In every interleaving of reads, writes and `SS_Size` on a pipe, at every point where calls may
change over: the fill counts and pointers of the ring agree, what readers got is a prefix of what
writers gave with the rest in the ring, no call loops forever, and every call that returned
reports what it moved, a line call with a CR at most as its last byte, and returned as soon as its
request was served or its line ended unless it was cut short, while a line call that still sleeps
has not met a CR. -/
theorem pipe_is_queue {buf size : Nat} (least : 90 ≤ size) (most : size < 2 ^ 31) (inMemory : buf + size < 2 ^ 32)
    (mem : Mem) (w : World) {events : List Event} {s : Sys} (ran : run Sys.step (Sys.create buf size mem w) events = some s) :
    s.ring.rdByt + s.ring.wrSpc = s.ring.bufSz ∧
      (s.ring.buf ≤ s.ring.rdPtr ∧ s.ring.rdPtr < s.ring.bufEnd) ∧
      (s.ring.buf ≤ s.ring.wrPtr ∧ s.ring.wrPtr < s.ring.bufEnd) ∧
      s.ring.wrPtr - s.ring.buf = (s.ring.rdPtr - s.ring.buf + s.ring.rdByt) % s.ring.bufSz ∧
      s.delivered ++ s.ring.queued = s.accepted ∧
      s.stuck = false ∧
      (∀ done ∈ s.returned,
        done.d1 = done.call.moved.length ∧ done.d1 ≤ done.call.want ∧
          (done.call.line = true → 13 ∉ done.call.moved.dropLast) ∧
          Why done.call.dir done.ring done.world done.call done.err) ∧
      (∀ pid c place, s.calls pid = some (c, place) → c.line = true → 13 ∉ c.moved) := by
  have start : (Sys.create buf size mem w).Ok := Sys.create_ok mem w (by omega) most inMemory
  have meets : RunMeets Sys.step (fun _ _ => True) (Sys.create buf size mem w) events :=
    runMeets_of_forall (fun _ _ => trivial) _ _
  have ok : s.Ok := run_invariant (fun _ _ _ inv _ stepped => Sys.step_ok inv stepped) start meets ran
  refine ⟨ok.ring.total, ⟨ok.ring.rdLow, ok.ring.rdHigh⟩, ⟨ok.ring.wrLow, ok.ring.wrHigh⟩, ok.ring.distance,
    ok.order.symm, ok.ends, ?_, ?_⟩
  · intro done there
    obtain ⟨ended, report, why⟩ := ok.reports done there
    exact ⟨report.trans ended.count, by rw [report, ended.count]; exact ended.le, ended.line, why⟩
  · intro pid c place sleeps line
    exact (ok.asleep pid c place sleeps).1.line line

def idleWorld : World :=
  { user := fun a => a.toUInt8, cpr := fun _ => 0, signal := fun _ => 0, rdWat := 0, wrWat := 0, rdOpn := 1,
    wrOpn := 1, sigPid := 0, sigCode := 0, sent := [] }

/-- A reader sleeps in an empty pipe of 90 bytes until 88 bytes are written and takes three of them;
another reader leaves two. A line of which four bytes count runs over the end of the buffer, and a
read of a line gets it behind the two. -/
theorem pipe_is_queue_ninety :
    let events : List Event := [.call .read false 2 7 6000 3, .call .write false 3 8 40 88, .wake 2,
      .call .read false 4 9 7000 83, .call .write true 3 8 10 20, .call .read true 2 7 5000 40]
    ∃ s, run Sys.step (Sys.create 1000 90 (fun _ => 0) idleWorld) events = some s ∧
      s.delivered ++ s.ring.queued = s.accepted ∧ s.ring.wrPtr = 1002 ∧
      s.world.user.bytes 5000 6 = [126, 127, 10, 11, 12, 13] ∧
      s.returned.map (fun done => (done.call.pid, done.d1, done.err)) =
        [(3, 88, none), (2, 3, none), (4, 83, none), (3, 4, none), (2, 6, none)] := by
  intro events
  obtain ⟨s, ran⟩ : ∃ s, run Sys.step (Sys.create 1000 90 (fun _ => 0) idleWorld) events = some s := ⟨_, rfl⟩
  obtain ⟨-, -, -, -, order, -⟩ := pipe_is_queue (by decide) (by decide) (by decide) _ _ ran
  have shown : (run Sys.step (Sys.create 1000 90 (fun _ => 0) idleWorld) events).map
      (fun s => (s.ring.wrPtr, s.world.user.bytes 5000 6)) = some (1002, [126, 127, 10, 11, 12, 13]) := by decide
  have reports : (run Sys.step (Sys.create 1000 90 (fun _ => 0) idleWorld) events).map
      (fun s => s.returned.map (fun done => (done.call.pid, done.d1, done.err))) =
      some [(3, 88, none), (2, 3, none), (4, 83, none), (3, 4, none), (2, 6, none)] := by decide
  rw [ran, Option.map_some] at shown reports
  obtain ⟨pointer, buffer⟩ := Prod.mk.inj (Option.some.inj shown)
  exact ⟨s, ran, order, pointer, buffer, Option.some.inj reports⟩

end Q9OS.Pipe

import Mathlib.Tactic

/-!
# Byte memory

Big-endian byte, word and long accesses of a flat memory. An address is a
number; what a store takes is cut to the width of the cell.
-/

namespace Q9OS

abbrev Mem := Nat → UInt8

namespace Mem

def getU8 (m : Mem) (a : Nat) : Nat := (m a).toNat

def getU16 (m : Mem) (a : Nat) : Nat := m.getU8 a * 256 + m.getU8 (a + 1)

def getU32 (m : Mem) (a : Nat) : Nat := m.getU16 a * 65536 + m.getU16 (a + 2)

def setU8 (m : Mem) (a v : Nat) : Mem := fun x => if x = a then v.toUInt8 else m x

def setU16 (m : Mem) (a v : Nat) : Mem := (m.setU8 a (v / 256)).setU8 (a + 1) v

def setU32 (m : Mem) (a v : Nat) : Mem := (m.setU16 a (v / 65536)).setU16 (a + 2) v

/-! ### Widths -/

theorem getU8_lt (m : Mem) (a : Nat) : m.getU8 a < 256 := (m a).toNat_lt

theorem getU16_lt (m : Mem) (a : Nat) : m.getU16 a < 65536 := by
  have high := m.getU8_lt a
  have low := m.getU8_lt (a + 1)
  unfold getU16
  omega

theorem getU32_lt (m : Mem) (a : Nat) : m.getU32 a < 4294967296 := by
  have high := m.getU16_lt a
  have low := m.getU16_lt (a + 2)
  unfold getU32
  omega

/-! ### Reads that see the same bytes -/

theorem getU8_congr {m m' : Mem} {a : Nat} (same : m a = m' a) : m.getU8 a = m'.getU8 a := by
  unfold getU8
  rw [same]

theorem getU16_congr {m m' : Mem} {a : Nat} (same : ∀ x, a ≤ x → x < a + 2 → m x = m' x) :
    m.getU16 a = m'.getU16 a := by
  unfold getU16
  rw [getU8_congr (same a (by omega) (by omega)), getU8_congr (same (a + 1) (by omega) (by omega))]

theorem getU32_congr {m m' : Mem} {a : Nat} (same : ∀ x, a ≤ x → x < a + 4 → m x = m' x) :
    m.getU32 a = m'.getU32 a := by
  unfold getU32
  rw [getU16_congr (fun x low high => same x (by omega) (by omega)),
    getU16_congr (fun x low high => same x (by omega) (by omega))]

/-! ### Bytes a store leaves alone -/

theorem setU8_of_ne (m : Mem) (v : Nat) {a x : Nat} (apart : x ≠ a) : m.setU8 a v x = m x :=
  if_neg apart

theorem setU16_outside (m : Mem) (v : Nat) {a x : Nat} (apart : x < a ∨ a + 2 ≤ x) :
    m.setU16 a v x = m x := by
  unfold setU16
  rw [setU8_of_ne _ _ (by omega), setU8_of_ne _ _ (by omega)]

theorem setU32_outside (m : Mem) (v : Nat) {a x : Nat} (apart : x < a ∨ a + 4 ≤ x) :
    m.setU32 a v x = m x := by
  unfold setU32
  rw [setU16_outside _ _ (by omega), setU16_outside _ _ (by omega)]

/-! ### Reads after stores -/

@[simp] theorem getU8_setU8 (m : Mem) (a v : Nat) : (m.setU8 a v).getU8 a = v % 256 := by
  unfold getU8 setU8
  rw [if_pos rfl, Nat.toUInt8_eq, UInt8.toNat_ofNat']

@[simp] theorem getU16_setU16 (m : Mem) (a v : Nat) : (m.setU16 a v).getU16 a = v % 65536 := by
  have high : ((m.setU8 a (v / 256)).setU8 (a + 1) v).getU8 a = v / 256 % 256 := by
    rw [getU8_congr (setU8_of_ne _ _ (by omega)), getU8_setU8]
  unfold getU16 setU16
  rw [high, getU8_setU8]
  omega

@[simp] theorem getU32_setU32 (m : Mem) (a v : Nat) : (m.setU32 a v).getU32 a = v % 4294967296 := by
  have high : ((m.setU16 a (v / 65536)).setU16 (a + 2) v).getU16 a = v / 65536 % 65536 := by
    rw [getU16_congr (fun x low high => setU16_outside _ _ (by omega)), getU16_setU16]
  unfold getU32 setU32
  rw [high, getU16_setU16]
  omega

theorem getU32_setU32_of_lt (m : Mem) (a : Nat) {v : Nat} (fits : v < 4294967296) :
    (m.setU32 a v).getU32 a = v := by
  rw [getU32_setU32, Nat.mod_eq_of_lt fits]

theorem setU8_getU8 (m : Mem) (a : Nat) : m.setU8 a (m.getU8 a) = m := by
  funext x
  unfold setU8 getU8
  split
  · next here => rw [here, Nat.toUInt8_eq, UInt8.ofNat_toNat]
  · rfl

theorem setU8_congr (m : Mem) (a : Nat) {v v' : Nat} (same : v % 256 = v' % 256) :
    m.setU8 a v = m.setU8 a v' := by
  have bytes : v.toUInt8 = v'.toUInt8 := by
    rw [← UInt8.toNat_inj, Nat.toUInt8_eq, Nat.toUInt8_eq, UInt8.toNat_ofNat', UInt8.toNat_ofNat']
    exact same
  unfold setU8
  rw [bytes]

theorem setU16_getU16 (m : Mem) (a : Nat) {v : Nat} (same : v % 65536 = m.getU16 a) : m.setU16 a v = m := by
  have high := m.getU8_lt a
  have low := m.getU8_lt (a + 1)
  unfold getU16 at same
  unfold setU16
  rw [setU8_congr m a (show _ = m.getU8 a % 256 by omega), setU8_getU8,
    setU8_congr m _ (show _ = m.getU8 (a + 1) % 256 by omega), setU8_getU8]

/-- Storing what is there already changes nothing. -/
theorem setU32_getU32 (m : Mem) (a : Nat) {v : Nat} (same : v = m.getU32 a) : m.setU32 a v = m := by
  have high := m.getU16_lt a
  have low := m.getU16_lt (a + 2)
  unfold getU32 at same
  unfold setU32
  rw [setU16_getU16 m a (by omega), setU16_getU16 m _ (by omega)]

theorem setU8_byte_congr {m m' : Mem} {x : Nat} (a v : Nat) (same : m x = m' x) :
    m.setU8 a v x = m'.setU8 a v x := by
  simp only [setU8, same]

theorem setU16_byte_congr {m m' : Mem} {x : Nat} (a v : Nat) (same : m x = m' x) :
    m.setU16 a v x = m'.setU16 a v x := by
  simp only [setU16, setU8, same]

theorem setU32_byte_congr {m m' : Mem} {x : Nat} (a v : Nat) (same : m x = m' x) :
    m.setU32 a v x = m'.setU32 a v x := by
  simp only [setU32, setU16, setU8, same]

theorem getU16_bytes {m m' : Mem} {a x : Nat} (same : m.getU16 a = m'.getU16 a) (low : a ≤ x) (high : x < a + 2) :
    m x = m' x := by
  have first := m.getU8_lt (a + 1)
  have second := m'.getU8_lt (a + 1)
  unfold getU16 getU8 at *
  obtain rfl | rfl : x = a ∨ x = a + 1 := by omega
  all_goals
    apply UInt8.toNat_inj.mp
    omega

/-- Equal longs are equal byte by byte. -/
theorem getU32_bytes {m m' : Mem} {a x : Nat} (same : m.getU32 a = m'.getU32 a) (low : a ≤ x) (high : x < a + 4) :
    m x = m' x := by
  have first := m.getU16_lt (a + 2)
  have second := m'.getU16_lt (a + 2)
  unfold getU32 at same
  by_cases upper : x < a + 2
  · exact getU16_bytes (by omega) low upper
  · exact getU16_bytes (a := a + 2) (by omega) (by omega) (by omega)

theorem setU8_byte_new (m m' : Mem) {a : Nat} (v : Nat) : m.setU8 a v a = m'.setU8 a v a := by
  simp [setU8]

theorem setU16_byte_new (m m' : Mem) {a x : Nat} (v : Nat) (inside : a ≤ x ∧ x < a + 2) :
    m.setU16 a v x = m'.setU16 a v x := by
  obtain rfl | rfl : x = a ∨ x = a + 1 := by omega
  all_goals simp [setU16, setU8]

theorem setU32_byte_new (m m' : Mem) {a x : Nat} (v : Nat) (inside : a ≤ x ∧ x < a + 4) :
    m.setU32 a v x = m'.setU32 a v x := by
  by_cases high : a + 2 ≤ x
  · exact setU16_byte_new _ _ v ⟨high, by omega⟩
  · exact setU16_byte_congr _ v (setU16_byte_new _ _ _ ⟨inside.1, by omega⟩)

/-! ### Reads beside a store -/

section Apart
variable (m : Mem) (v : Nat) {a b : Nat}

theorem getU8_setU8_apart (apart : a + 1 ≤ b ∨ b + 1 ≤ a) : (m.setU8 b v).getU8 a = m.getU8 a :=
  getU8_congr (setU8_of_ne _ _ (by omega))

theorem getU8_setU16_apart (apart : a + 1 ≤ b ∨ b + 2 ≤ a) : (m.setU16 b v).getU8 a = m.getU8 a :=
  getU8_congr (setU16_outside _ _ (by omega))

theorem getU8_setU32_apart (apart : a + 1 ≤ b ∨ b + 4 ≤ a) : (m.setU32 b v).getU8 a = m.getU8 a :=
  getU8_congr (setU32_outside _ _ (by omega))

theorem getU16_setU8_apart (apart : a + 2 ≤ b ∨ b + 1 ≤ a) : (m.setU8 b v).getU16 a = m.getU16 a :=
  getU16_congr (fun x low high => setU8_of_ne _ _ (by omega))

theorem getU16_setU16_apart (apart : a + 2 ≤ b ∨ b + 2 ≤ a) : (m.setU16 b v).getU16 a = m.getU16 a :=
  getU16_congr (fun x low high => setU16_outside _ _ (by omega))

theorem getU16_setU32_apart (apart : a + 2 ≤ b ∨ b + 4 ≤ a) : (m.setU32 b v).getU16 a = m.getU16 a :=
  getU16_congr (fun x low high => setU32_outside _ _ (by omega))

theorem getU32_setU8_apart (apart : a + 4 ≤ b ∨ b + 1 ≤ a) : (m.setU8 b v).getU32 a = m.getU32 a :=
  getU32_congr (fun x low high => setU8_of_ne _ _ (by omega))

theorem getU32_setU16_apart (apart : a + 4 ≤ b ∨ b + 2 ≤ a) : (m.setU16 b v).getU32 a = m.getU32 a :=
  getU32_congr (fun x low high => setU16_outside _ _ (by omega))

theorem getU32_setU32_apart (apart : a + 4 ≤ b ∨ b + 4 ≤ a) : (m.setU32 b v).getU32 a = m.getU32 a :=
  getU32_congr (fun x low high => setU32_outside _ _ (by omega))

end Apart

/-! ### Copies from another memory -/

/-- `n` bytes of `src` from `a` on, laid over the cells from `b` on. -/
def blit (m : Mem) (b : Nat) (src : Mem) (a n : Nat) : Mem :=
  fun x => if b ≤ x ∧ x < b + n then src (x - b + a) else m x

/-- The `n` bytes from `a` on. -/
def bytes (m : Mem) (a n : Nat) : List UInt8 := (List.range n).map fun i => m (a + i)

@[simp] theorem length_bytes (m : Mem) (a n : Nat) : (m.bytes a n).length = n := by simp [bytes]

theorem bytes_ne_nil (m : Mem) (a : Nat) {n : Nat} (pos : 0 < n) : m.bytes a n ≠ [] := by
  intro empty
  have length := congrArg List.length empty
  rw [length_bytes, List.length_nil] at length
  omega

theorem bytes_eq {m m' : Mem} {a b n : Nat} (same : ∀ i < n, m (a + i) = m' (b + i)) : m.bytes a n = m'.bytes b n := by
  apply List.map_congr_left
  intro i inside
  exact same i (List.mem_range.mp inside)

theorem bytes_congr {m m' : Mem} {a n : Nat} (same : ∀ x, a ≤ x → x < a + n → m x = m' x) :
    m.bytes a n = m'.bytes a n :=
  bytes_eq (fun i inside => same (a + i) (by omega) (by omega))

theorem bytes_add (m : Mem) (a n k : Nat) : m.bytes a (n + k) = m.bytes a n ++ m.bytes (a + n) k := by
  unfold bytes
  rw [List.range_add, List.map_append, List.map_map]
  simp [Function.comp_def, Nat.add_assoc]

theorem bytes_blit (m : Mem) (b : Nat) (src : Mem) (a n : Nat) : (m.blit b src a n).bytes b n = src.bytes a n := by
  apply bytes_eq
  intro i inside
  unfold blit
  rw [if_pos ⟨by omega, by omega⟩, Nat.add_sub_cancel_left, Nat.add_comm]

theorem blit_outside (m : Mem) (src : Mem) (a : Nat) {b n x : Nat} (apart : x < b ∨ b + n ≤ x) :
    m.blit b src a n x = m x :=
  if_neg (by omega)

@[simp] theorem blit_zero (m : Mem) (b : Nat) (src : Mem) (a : Nat) : m.blit b src a 0 = m := by
  funext x
  exact blit_outside m src a (by omega)

theorem blit_blit (m : Mem) (b : Nat) (src : Mem) (a n k : Nat) :
    (m.blit b src a n).blit (b + n) src (a + n) k = m.blit b src a (n + k) := by
  funext x
  unfold blit
  by_cases second : b + n ≤ x ∧ x < b + n + k
  · rw [if_pos second, if_pos ⟨by omega, by omega⟩]
    congr 1
    omega
  · rw [if_neg second]
    by_cases first : b ≤ x ∧ x < b + n
    · rw [if_pos first, if_pos ⟨by omega, by omega⟩]
    · rw [if_neg first, if_neg (by omega)]

theorem setU8_getU8_blit (m : Mem) (b : Nat) (src : Mem) (a : Nat) : m.setU8 b (src.getU8 a) = m.blit b src a 1 := by
  funext x
  unfold setU8 blit getU8
  by_cases here : x = b
  · rw [if_pos here, if_pos ⟨by omega, by omega⟩, Nat.toUInt8_eq, UInt8.ofNat_toNat, here]
    congr 1
    omega
  · rw [if_neg here, if_neg (by omega)]

theorem setU16_getU16_blit (m : Mem) (b : Nat) (src : Mem) (a : Nat) :
    m.setU16 b (src.getU16 a) = m.blit b src a 2 := by
  have high := src.getU8_lt a
  have low := src.getU8_lt (a + 1)
  unfold setU16 getU16
  rw [setU8_congr m b (show _ = src.getU8 a % 256 by omega),
    setU8_congr _ (b + 1) (show _ = src.getU8 (a + 1) % 256 by omega), setU8_getU8_blit, setU8_getU8_blit, blit_blit]

theorem setU32_getU32_blit (m : Mem) (b : Nat) (src : Mem) (a : Nat) :
    m.setU32 b (src.getU32 a) = m.blit b src a 4 := by
  have high := src.getU16_lt a
  have low := src.getU16_lt (a + 2)
  have upper : src.getU32 a / 65536 = src.getU16 a := by
    unfold getU32
    omega
  have lower : ∀ m' : Mem, m'.setU16 (b + 2) (src.getU32 a) = m'.setU16 (b + 2) (src.getU16 (a + 2)) := by
    intro m'
    unfold setU16 getU32
    rw [setU8_congr m' _ (show _ = src.getU16 (a + 2) / 256 % 256 by omega),
      setU8_congr _ _ (show _ = src.getU16 (a + 2) % 256 by omega)]
  unfold setU32
  rw [upper, lower, setU16_getU16_blit, setU16_getU16_blit, blit_blit]

end Mem

end Q9OS

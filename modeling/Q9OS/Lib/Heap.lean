import Mathlib.Tactic
import Q9OS.Lib.Mem

/-!
# Memory made of blocks

Objects that are only ever addressed by their start and an offset. Fields of
one object may share bytes, different objects do not.
-/

namespace Q9OS

abbrev Heap := Nat → Mem

/-- Longer walks than there are addresses are cycles. -/
@[irreducible] def queueLimit : Nat := 4294967296

namespace Heap

def get8 (h : Heap) (b o : Nat) : Nat := (h b).getU8 o

def get16 (h : Heap) (b o : Nat) : Nat := (h b).getU16 o

def get32 (h : Heap) (b o : Nat) : Nat := (h b).getU32 o

def set8 (h : Heap) (b o v : Nat) : Heap := fun x => if x = b then (h b).setU8 o v else h x

def set16 (h : Heap) (b o v : Nat) : Heap := fun x => if x = b then (h b).setU16 o v else h x

def set32 (h : Heap) (b o v : Nat) : Heap := fun x => if x = b then (h b).setU32 o v else h x

theorem get32_lt (h : Heap) (b o : Nat) : h.get32 b o < 4294967296 := Mem.getU32_lt _ _

theorem get16_lt (h : Heap) (b o : Nat) : h.get16 b o < 65536 := Mem.getU16_lt _ _

theorem get8_lt (h : Heap) (b o : Nat) : h.get8 b o < 256 := Mem.getU8_lt _ _

/-! ### Bytes a store leaves alone -/

theorem set8_block (h : Heap) (o v : Nat) {b c : Nat} (other : c ≠ b) : h.set8 b o v c = h c := if_neg other

theorem set16_block (h : Heap) (o v : Nat) {b c : Nat} (other : c ≠ b) : h.set16 b o v c = h c := if_neg other

theorem set32_block (h : Heap) (o v : Nat) {b c : Nat} (other : c ≠ b) : h.set32 b o v c = h c := if_neg other

theorem set8_off (h : Heap) (b v c : Nat) {o x : Nat} (apart : x ≠ o) : h.set8 b o v c x = h c x := by
  unfold set8
  split
  · next here => rw [here, Mem.setU8_of_ne _ _ apart]
  · rfl

theorem set16_off (h : Heap) (b v c : Nat) {o x : Nat} (apart : x < o ∨ o + 2 ≤ x) :
    h.set16 b o v c x = h c x := by
  unfold set16
  split
  · next here => rw [here, Mem.setU16_outside _ _ apart]
  · rfl

theorem set32_off (h : Heap) (b v c : Nat) {o x : Nat} (apart : x < o ∨ o + 4 ≤ x) :
    h.set32 b o v c x = h c x := by
  unfold set32
  split
  · next here => rw [here, Mem.setU32_outside _ _ apart]
  · rfl

/-! ### Reads after stores to the same field -/

@[simp] theorem get8_set8 (h : Heap) (b o v : Nat) : (h.set8 b o v).get8 b o = v % 256 := by
  simp [get8, set8]

@[simp] theorem get16_set16 (h : Heap) (b o v : Nat) : (h.set16 b o v).get16 b o = v % 65536 := by
  simp [get16, set16]

@[simp] theorem get32_set32 (h : Heap) (b o v : Nat) : (h.set32 b o v).get32 b o = v % 4294967296 := by
  simp [get32, set32]

theorem get32_set32_of_lt (h : Heap) (b o : Nat) {v : Nat} (fits : v < 4294967296) :
    (h.set32 b o v).get32 b o = v := by
  rw [get32_set32, Nat.mod_eq_of_lt fits]

/-! ### Reads of another object -/

section
variable (h : Heap) {b c : Nat} (o p v : Nat) (other : c ≠ b)
include other

theorem get8_set8_block : (h.set8 b o v).get8 c p = h.get8 c p := by
  unfold get8; rw [set8_block h o v other]

theorem get32_set32_block : (h.set32 b o v).get32 c p = h.get32 c p := by
  unfold get32; rw [set32_block h o v other]

end

/-! ### Reads of another field, of whatever object -/

section
variable (h : Heap) (b c v : Nat) {o p : Nat}

theorem get8_set8_off (apart : p ≠ o) : (h.set8 b o v).get8 c p = h.get8 c p :=
  Mem.getU8_congr (set8_off h b v c apart)

theorem get8_set16_off (apart : p < o ∨ o + 2 ≤ p) : (h.set16 b o v).get8 c p = h.get8 c p :=
  Mem.getU8_congr (set16_off h b v c apart)

theorem get8_set32_off (apart : p < o ∨ o + 4 ≤ p) : (h.set32 b o v).get8 c p = h.get8 c p :=
  Mem.getU8_congr (set32_off h b v c apart)

theorem get16_set8_off (apart : o < p ∨ p + 2 ≤ o) : (h.set8 b o v).get16 c p = h.get16 c p :=
  Mem.getU16_congr (fun _ low high => set8_off h b v c (by omega))

theorem get16_set16_off (apart : o + 2 ≤ p ∨ p + 2 ≤ o) : (h.set16 b o v).get16 c p = h.get16 c p :=
  Mem.getU16_congr (fun _ low high => set16_off h b v c (by omega))

theorem get16_set32_off (apart : o + 4 ≤ p ∨ p + 2 ≤ o) : (h.set32 b o v).get16 c p = h.get16 c p :=
  Mem.getU16_congr (fun _ low high => set32_off h b v c (by omega))

theorem get32_set8_off (apart : o < p ∨ p + 4 ≤ o) : (h.set8 b o v).get32 c p = h.get32 c p :=
  Mem.getU32_congr (fun _ low high => set8_off h b v c (by omega))

theorem get32_set16_off (apart : o + 2 ≤ p ∨ p + 4 ≤ o) : (h.set16 b o v).get32 c p = h.get32 c p :=
  Mem.getU32_congr (fun _ low high => set16_off h b v c (by omega))

theorem get32_set32_off (apart : o + 4 ≤ p ∨ p + 4 ≤ o) : (h.set32 b o v).get32 c p = h.get32 c p :=
  Mem.getU32_congr (fun _ low high => set32_off h b v c (by omega))

end

/-! ### Heaps that agree on some offsets of every object -/

/-- Both heaps hold the same bytes at every offset in `on`. -/
def Agree (on : Nat → Prop) (h h' : Heap) : Prop := ∀ b o, on o → h' b o = h b o

namespace Agree

variable {on : Nat → Prop} {h h' h'' : Heap}

theorem rfl : Agree on h h := fun _ _ _ => Eq.refl _

theorem trans (first : Agree on h h') (second : Agree on h' h'') : Agree on h h'' :=
  fun b o here => (second b o here).trans (first b o here)

theorem weaken {less : Nat → Prop} (agree : Agree on h h') (fewer : ∀ o, less o → on o) : Agree less h h' :=
  fun b o here => agree b o (fewer o here)

theorem set8 (agree : Agree on h h') (b v : Nat) {o : Nat} (apart : ∀ x, on x → x ≠ o) :
    Agree on h (h'.set8 b o v) :=
  fun c x here => (set8_off h' b v c (apart x here)).trans (agree c x here)

theorem set16 (agree : Agree on h h') (b v : Nat) {o : Nat} (apart : ∀ x, on x → x < o ∨ o + 2 ≤ x) :
    Agree on h (h'.set16 b o v) :=
  fun c x here => (set16_off h' b v c (apart x here)).trans (agree c x here)

theorem set32 (agree : Agree on h h') (b v : Nat) {o : Nat} (apart : ∀ x, on x → x < o ∨ o + 4 ≤ x) :
    Agree on h (h'.set32 b o v) :=
  fun c x here => (set32_off h' b v c (apart x here)).trans (agree c x here)

/-- The same store into both heaps. -/
theorem both32 (agree : Agree on h h') (b o v : Nat) : Agree on (h.set32 b o v) (h'.set32 b o v) := by
  intro c x here
  unfold Heap.set32
  split
  · exact Mem.setU32_byte_congr o v (agree b x here)
  · exact agree c x here

theorem both8 (agree : Agree on h h') (b o v : Nat) : Agree on (h.set8 b o v) (h'.set8 b o v) := by
  intro c x here
  unfold Heap.set8
  split
  · exact Mem.setU8_byte_congr o v (agree b x here)
  · exact agree c x here

theorem get8 (agree : Agree on h h') (b : Nat) {o : Nat} (here : on o) : h'.get8 b o = h.get8 b o :=
  Mem.getU8_congr (agree b o here)

theorem get16 (agree : Agree on h h') (b : Nat) {o : Nat} (here : ∀ x, o ≤ x → x < o + 2 → on x) :
    h'.get16 b o = h.get16 b o :=
  Mem.getU16_congr (fun x low high => agree b x (here x low high))

theorem get32 (agree : Agree on h h') (b : Nat) {o : Nat} (here : ∀ x, o ≤ x → x < o + 4 → on x) :
    h'.get32 b o = h.get32 b o :=
  Mem.getU32_congr (fun x low high => agree b x (here x low high))

end Agree

/-! ### Heaps that differ inside one object only -/

/-- All objects but `d` are the same, and `d` is the same at the offsets in `on`. -/
structure SameBut (d : Nat) (on : Nat → Prop) (h h' : Heap) : Prop where
  others : ∀ b, b ≠ d → h' b = h b
  inside : ∀ o, on o → h' d o = h d o

namespace SameBut

variable {d : Nat} {on on' : Nat → Prop} {h h' : Heap}

theorem weaken (same : SameBut d on h h') (fewer : ∀ o, on' o → on o) : SameBut d on' h h' :=
  ⟨same.others, fun o here => same.inside o (fewer o here)⟩

/-- The same bytes put into both copies of an object. -/
theorem update (same : SameBut d on h h') (b : Nat) {m m' : Mem} (bytes : ∀ o, b ≠ d → m' o = m o)
    (kept : ∀ o, b = d → on' o → m' o = m o) (fewer : ∀ o, b ≠ d → on' o → on o) :
    SameBut d on' (fun x => if x = b then m else h x) (fun x => if x = b then m' else h' x) where
  others c other := by
    split
    · next here => exact funext (fun o => bytes o (here ▸ other))
    · exact same.others c other
  inside o here := by
    split
    · next own => exact kept o own.symm here
    · next own => exact same.inside o (fewer o (Ne.symm own) here)

theorem set8 (same : SameBut d on h h') (b o v : Nat) : SameBut d on (h.set8 b o v) (h'.set8 b o v) := by
  refine same.update b ?_ ?_ (fun _ _ here => here)
  · intro x other
    rw [same.others b other]
  · rintro x rfl here
    exact Mem.setU8_byte_congr o v (same.inside x here)

theorem set16 (same : SameBut d on h h') (b o v : Nat) : SameBut d on (h.set16 b o v) (h'.set16 b o v) := by
  refine same.update b ?_ ?_ (fun _ _ here => here)
  · intro x other
    rw [same.others b other]
  · rintro x rfl here
    exact Mem.setU16_byte_congr o v (same.inside x here)

theorem set32 (same : SameBut d on h h') (b o v : Nat) : SameBut d on (h.set32 b o v) (h'.set32 b o v) := by
  refine same.update b ?_ ?_ (fun _ _ here => here)
  · intro x other
    rw [same.others b other]
  · rintro x rfl here
    exact Mem.setU32_byte_congr o v (same.inside x here)

/-! A store into `d` itself makes the bytes it covers the same. -/

theorem gain8 (same : SameBut d on h h') (o v : Nat) (more : ∀ x, on' x → on x ∨ x = o) :
    SameBut d on' (h.set8 d o v) (h'.set8 d o v) := by
  refine same.update d (fun _ other => absurd rfl other) ?_ (fun _ other => absurd rfl other)
  intro x _ here
  rcases more x here with old | rfl
  · exact Mem.setU8_byte_congr o v (same.inside x old)
  · exact Mem.setU8_byte_new _ _ v

theorem gain16 (same : SameBut d on h h') (o v : Nat) (more : ∀ x, on' x → on x ∨ (o ≤ x ∧ x < o + 2)) :
    SameBut d on' (h.set16 d o v) (h'.set16 d o v) := by
  refine same.update d (fun _ other => absurd rfl other) ?_ (fun _ other => absurd rfl other)
  intro x _ here
  rcases more x here with old | new
  · exact Mem.setU16_byte_congr o v (same.inside x old)
  · exact Mem.setU16_byte_new _ _ v new

theorem gain32 (same : SameBut d on h h') (o v : Nat) (more : ∀ x, on' x → on x ∨ (o ≤ x ∧ x < o + 4)) :
    SameBut d on' (h.set32 d o v) (h'.set32 d o v) := by
  refine same.update d (fun _ other => absurd rfl other) ?_ (fun _ other => absurd rfl other)
  intro x _ here
  rcases more x here with old | new
  · exact Mem.setU32_byte_congr o v (same.inside x old)
  · exact Mem.setU32_byte_new _ _ v new

theorem get32_other (same : SameBut d on h h') {b : Nat} (o : Nat) (other : b ≠ d) :
    h'.get32 b o = h.get32 b o := by
  unfold Heap.get32
  rw [same.others b other]

theorem get16_other (same : SameBut d on h h') {b : Nat} (o : Nat) (other : b ≠ d) :
    h'.get16 b o = h.get16 b o := by
  unfold Heap.get16
  rw [same.others b other]

theorem get8_other (same : SameBut d on h h') {b : Nat} (o : Nat) (other : b ≠ d) :
    h'.get8 b o = h.get8 b o := by
  unfold Heap.get8
  rw [same.others b other]

theorem get32 (same : SameBut d on h h') (b : Nat) {o : Nat} (here : ∀ x, o ≤ x → x < o + 4 → on x) :
    h'.get32 b o = h.get32 b o := by
  by_cases own : b = d
  · rw [own]
    exact Mem.getU32_congr (fun x low high => same.inside x (here x low high))
  · exact same.get32_other o own

theorem get16 (same : SameBut d on h h') (b : Nat) {o : Nat} (here : ∀ x, o ≤ x → x < o + 2 → on x) :
    h'.get16 b o = h.get16 b o := by
  by_cases own : b = d
  · rw [own]
    exact Mem.getU16_congr (fun x low high => same.inside x (here x low high))
  · exact same.get16_other o own

theorem get8 (same : SameBut d on h h') (b : Nat) {o : Nat} (here : on o) : h'.get8 b o = h.get8 b o := by
  by_cases own : b = d
  · rw [own]
    exact Mem.getU8_congr (same.inside o here)
  · exact same.get8_other o own

end SameBut

end Heap

end Q9OS

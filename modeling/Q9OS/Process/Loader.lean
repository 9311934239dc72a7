import Mathlib.Tactic
import Q9OS.Lib.Mem
import Q9OS.Lib.Word
import Q9OS.Process.Module

/-!
# Initialised data

`Q9K_ApplyInitializedData` of `q9kernel_firstproc.c` and its copy in
`q9kernel_traplink.c`, in 32-bit arithmetic, with the table bytes they read.
-/

namespace Q9OS

namespace Loader

/-! ### Readers -/

def readHdrU32BE (m : Mem) (addr : Nat) : Nat :=
  m.getU8 addr * 16777216 + m.getU8 (add32 addr 1) * 65536 + m.getU8 (add32 addr 2) * 256 + m.getU8 (add32 addr 3)

def readHdrU16BE (m : Mem) (addr : Nat) : Nat := m.getU8 addr * 256 + m.getU8 (add32 addr 1)

def tLinkReadU32BE (m : Mem) (addr : Nat) : Nat :=
  m.getU8 addr * 16777216 + m.getU8 (add32 addr 1) * 65536 + m.getU8 (add32 addr 2) * 256 + m.getU8 (add32 addr 3)

def tLinkReadU16BE (m : Mem) (addr : Nat) : Nat := m.getU8 addr * 256 + m.getU8 (add32 addr 1)

/-- What the two files have each for themselves. -/
structure Source where
  readU32 : Mem → Nat → Nat
  readU16 : Mem → Nat → Nat
  eBmid : Nat

def firstProc : Source := ⟨readHdrU32BE, readHdrU16BE, 0x00CD⟩
def trapLink : Source := ⟨tLinkReadU32BE, tLinkReadU16BE, 0x00CD⟩

/-! ### Loader -/

/-- The result, the memory, and the table bytes that were read. -/
structure Loaded where
  code : Nat
  mem : Mem
  seen : List Nat

def Loaded.after (r : Loaded) (seen : List Nat) : Loaded := { r with seen := seen ++ r.seen }

/-- `n` addresses from `a` on. -/
def span (a n : Nat) : List Nat := (List.range n).map (add32 a)

def copyPayload (m : Mem) (dst src : Nat) : Nat → Mem
  | 0 => m
  | n + 1 => (copyPayload m dst src n).setU8 (add32 dst n) ((copyPayload m dst src n).getU8 (add32 src n))

/-- Adds to the pointer at `fieldAddr`, byte by byte. -/
def addField (readU32 : Mem → Nat → Nat) (m : Mem) (fieldAddr relocBase : Nat) : Mem :=
  let newVal := add32 (readU32 m fieldAddr) relocBase
  let m := m.setU8 fieldAddr (newVal / 16777216)
  let m := m.setU8 (add32 fieldAddr 1) (newVal / 65536)
  let m := m.setU8 (add32 fieldAddr 2) (newVal / 256)
  m.setU8 (add32 fieldAddr 3) newVal

variable (S : Source) (hdrAddr block blockSize : Nat)

/-- The entries of M$IData between `p` and `last`, `none` when the fuel is used up. -/
def copyIData (last : Nat) : Nat → Mem → Nat → Option Loaded
  | 0, _, _ => none
  | fuel + 1, m, p =>
    if sub32 last p < 8 then some ⟨0, m, []⟩
    else
      let dstOff := S.readU32 m p
      let count := S.readU32 m (add32 p 4)
      if count > sub32 (sub32 last p) 8 then some ⟨S.eBmid, m, span p 8⟩
      else if dstOff > blockSize ∨ count > sub32 blockSize dstOff then some ⟨S.eBmid, m, span p 8⟩
      else
        let m := copyPayload m (add32 block dstOff) (add32 p 8) count
        (copyIData last fuel m (add32 p (add32 8 count))).map (·.after (span p 8 ++ span (add32 p 8) count))

/-- The fields of one run, and the place behind it. -/
def relocRun (relocBase ms : Nat) : Nat → Mem → Nat → Loaded × Nat
  | 0, m, p => (⟨0, m, []⟩, p)
  | count + 1, m, p =>
    let fieldOff := ms * 65536 + S.readU16 m p
    if fieldOff > blockSize ∨ sub32 blockSize fieldOff < 4 then (⟨S.eBmid, m, span p 2⟩, add32 p 2)
    else
      let m := addField S.readU32 m (add32 block fieldOff) relocBase
      let rest := relocRun relocBase ms count m (add32 p 2)
      (rest.1.after (span p 2), rest.2)

/-- One of the two tables of M$IRefs, and the place behind it. -/
def relocTable (modEnd relocBase : Nat) : Nat → Mem → Nat → Option (Loaded × Nat)
  | 0, _, _ => none
  | fuel + 1, m, p =>
    if sub32 modEnd p < 4 then some (⟨S.eBmid, m, []⟩, p)
    else
      let ms := S.readU16 m p
      let count := S.readU16 m (add32 p 2)
      if ms = 0 ∧ count = 0 then some (⟨0, m, span p 4⟩, add32 p 4)
      else if count > sub32 modEnd (add32 p 4) / 2 then some (⟨S.eBmid, m, span p 4⟩, add32 p 4)
      else
        let run := relocRun S block blockSize relocBase ms count m (add32 p 4)
        if run.1.code ≠ 0 then some (run.1.after (span p 4), run.2)
        else (relocTable modEnd relocBase fuel run.1.mem run.2).map
          fun rest => (rest.1.after (span p 4 ++ run.1.seen), rest.2)

/-- First the pointers to code, then those to data. -/
def relocTables (modEnd fuel : Nat) (m : Mem) (p : Nat) : Option Loaded :=
  match relocTable S block blockSize modEnd hdrAddr fuel m p with
  | none => none
  | some (codes, p) =>
    if codes.code ≠ 0 then some codes
    else (relocTable S block blockSize modEnd block fuel codes.mem p).map fun data => data.1.after codes.seen

def applyInitializedData (fuel : Nat) (m : Mem) : Option Loaded :=
  let modSize := S.readU32 m (add32 hdrAddr Mh.size)
  let iDataOff := S.readU32 m (add32 hdrAddr Mh.iData)
  let iRefsOff := S.readU32 m (add32 hdrAddr Mh.iRefs)
  let modEnd := add32 hdrAddr modSize
  if iDataOff = 0 ∧ iRefsOff = 0 then some ⟨0, m, []⟩
  else if iDataOff ≥ modSize ∨ iRefsOff ≥ modSize then some ⟨S.eBmid, m, []⟩
  else if iDataOff ≠ 0 ∧ iRefsOff ≠ 0 ∧ iDataOff > iRefsOff then some ⟨S.eBmid, m, []⟩
  else
    let copied :=
      if iDataOff ≠ 0 ∧ iRefsOff ≠ 0 then
        copyIData S block blockSize (add32 hdrAddr iRefsOff) fuel m (add32 hdrAddr iDataOff)
      else some ⟨0, m, []⟩
    match copied with
    | none => none
    | some copied =>
      if copied.code ≠ 0 then some copied
      else if iRefsOff ≠ 0 then
        (relocTables S hdrAddr block blockSize modEnd fuel copied.mem (add32 hdrAddr iRefsOff)).map
          (·.after copied.seen)
      else some copied

/-! ### What the tables say -/

/-- The entries of M$IData: where in the block they go, and their bytes. -/
inductive IRecords (m : Mem) (last : Nat) : Nat → List (Nat × List UInt8) → Prop
  | done {p : Nat} : last < p + 8 → IRecords m last p []
  | entry {p : Nat} {rest : List (Nat × List UInt8)} : p + 8 + m.getU32 (p + 4) ≤ last →
      IRecords m last (p + 8 + m.getU32 (p + 4)) rest →
      IRecords m last p ((m.getU32 p, m.bytes (p + 8) (m.getU32 (p + 4))) :: rest)

/-- The offsets of one run, `ms` above each of its words. -/
def runFields (m : Mem) (ms : Nat) : Nat → Nat → List Nat
  | 0, _ => []
  | n + 1, p => (ms * 65536 + m.getU16 p) :: runFields m ms n (p + 2)

/-- The offsets of one table of M$IRefs, and the place behind it. -/
inductive IRefs (m : Mem) (modEnd : Nat) : Nat → List Nat → Nat → Prop
  | done {p : Nat} : p + 4 ≤ modEnd → m.getU16 p = 0 ∧ m.getU16 (p + 2) = 0 → IRefs m modEnd p [] (p + 4)
  | run {p q : Nat} {rest : List Nat} : ¬ (m.getU16 p = 0 ∧ m.getU16 (p + 2) = 0) →
      p + 4 + 2 * m.getU16 (p + 2) ≤ modEnd → IRefs m modEnd (p + 4 + 2 * m.getU16 (p + 2)) rest q →
      IRefs m modEnd p (runFields m (m.getU16 p) (m.getU16 (p + 2)) (p + 4) ++ rest) q

/-- The first `n` bytes of `f` at `dst`. -/
def put (m : Mem) (dst : Nat) (f : Nat → UInt8) : Nat → Mem
  | 0 => m
  | n + 1 => (put m dst f n).setU8 (add32 dst n) (f n).toNat

def place (m : Mem) (block : Nat) (record : Nat × List UInt8) : Mem :=
  put m (add32 block record.1) (fun i => record.2.getD i 0) record.2.length

/-- Adds `base` to the pointers at the offsets. -/
def relocate (block base : Nat) (offsets : List Nat) (m : Mem) : Mem :=
  offsets.foldl (fun m off => addField readHdrU32BE m (add32 block off) base) m

section Memory
variable {m m0 : Mem} {a dst src n x : Nat} {f g : Nat → UInt8}

theorem readHdrU32BE_eq (fits : a + 4 ≤ 2 ^ 32) : readHdrU32BE m a = m.getU32 a := by
  unfold readHdrU32BE Mem.getU32 Mem.getU16
  rw [add32_of_lt (show a + 1 < 4294967296 by omega), add32_of_lt (show a + 2 < 4294967296 by omega),
    add32_of_lt (show a + 3 < 4294967296 by omega), show a + 2 + 1 = a + 3 by omega]
  ring

theorem readHdrU16BE_eq (fits : a + 2 ≤ 2 ^ 32) : readHdrU16BE m a = m.getU16 a := by
  unfold readHdrU16BE Mem.getU16
  rw [add32_of_lt (show a + 1 < 4294967296 by omega)]

/-- Where nothing wraps around, a field is one long word. -/
theorem addField_eq (fits : a + 4 ≤ 2 ^ 32) (base : Nat) :
    addField readHdrU32BE m a base = m.setU32 a (m.getU32 a + base) := by
  unfold addField Mem.setU32 Mem.setU16
  rw [readHdrU32BE_eq fits, add32_of_lt (show a + 1 < 4294967296 by omega),
    add32_of_lt (show a + 2 < 4294967296 by omega), add32_of_lt (show a + 3 < 4294967296 by omega)]
  unfold add32
  generalize m.getU32 a + base = v
  have first : ∀ m : Mem, m.setU8 a (v % 4294967296 / 16777216) = m.setU8 a (v / 65536 / 256) :=
    fun m => Mem.setU8_congr m a (by omega)
  have second : ∀ m : Mem, m.setU8 (a + 1) (v % 4294967296 / 65536) = m.setU8 (a + 1) (v / 65536) :=
    fun m => Mem.setU8_congr m (a + 1) (by omega)
  have third : ∀ m : Mem, m.setU8 (a + 2) (v % 4294967296 / 256) = m.setU8 (a + 2) (v / 256) :=
    fun m => Mem.setU8_congr m (a + 2) (by omega)
  have fourth : ∀ m : Mem, m.setU8 (a + 3) (v % 4294967296) = m.setU8 (a + 3) v :=
    fun m => Mem.setU8_congr m (a + 3) (by omega)
  dsimp only
  rw [first, second, third, fourth]

theorem put_outside (apart : ∀ i < n, x ≠ add32 dst i) : put m dst f n x = m x := by
  induction n with
  | zero => rfl
  | succ n ih =>
    rw [put, Mem.setU8_of_ne _ _ (apart n (Nat.lt_succ_self n))]
    exact ih (fun i before => apart i (Nat.lt_succ_of_lt before))

theorem put_congr (same : ∀ i < n, f i = g i) : put m dst f n = put m dst g n := by
  induction n with
  | zero => rfl
  | succ n ih => rw [put, put, ih (fun i before => same i (Nat.lt_succ_of_lt before)), same n (Nat.lt_succ_self n)]

/-- The copy does not read what it has written. -/
theorem copyPayload_put (apart : ∀ i < n, ∀ j < n, add32 src i ≠ add32 dst j) :
    copyPayload m dst src n = put m dst (fun i => m (add32 src i)) n := by
  induction n with
  | zero => rfl
  | succ n ih =>
    rw [copyPayload, put, ih (fun i hi j hj => apart i (Nat.lt_succ_of_lt hi) j (Nat.lt_succ_of_lt hj))]
    have kept : put m dst (fun i => m (add32 src i)) n (add32 src n) = m (add32 src n) :=
      put_outside (fun j before => apart n (Nat.lt_succ_self n) j (Nat.lt_succ_of_lt before))
    rw [Mem.getU8, kept]

theorem addField_outside (readU32 : Mem → Nat → Nat) (base : Nat) (apart : ∀ k < 4, x ≠ add32 a k) (small : a < 2 ^ 32) :
    addField readU32 m a base x = m x := by
  have here : x ≠ a := by
    have first := apart 0 (by decide)
    rwa [add32_of_lt (show a + 0 < 4294967296 by omega)] at first
  unfold addField
  rw [Mem.setU8_of_ne _ _ (apart 3 (by decide)), Mem.setU8_of_ne _ _ (apart 2 (by decide)),
    Mem.setU8_of_ne _ _ (apart 1 (by decide)), Mem.setU8_of_ne _ _ here]

theorem span_mem {x : Nat} : x ∈ span a n ↔ ∃ i < n, add32 a i = x := by
  simp [span]

/-- Addresses below the end of the address space do not wrap around. -/
theorem span_inside {low high : Nat} (lower : low ≤ a) (upper : a + n ≤ high) (fits : high ≤ 2 ^ 32) :
    ∀ x ∈ span a n, low ≤ x ∧ x < high := by
  intro x member
  obtain ⟨i, small, rfl⟩ := span_mem.mp member
  rw [add32_of_lt (show a + i < 4294967296 by omega)]
  omega

end Memory

/-! ### Runs of the loader -/

section Runs
variable {m0 m : Mem} {hdr modEnd block blockSize : Nat} {fuel p q last : Nat}

/-- The block, which may go around the end of the address space. -/
def InBlock (block blockSize x : Nat) : Prop := ∃ i < blockSize, x = add32 block i

/-- Only the block is written, only the module is read, and `done` holds of a success. -/
structure Meets (hdr modEnd block blockSize : Nat) (m : Mem) (r : Loaded) (done : Prop) : Prop where
  frame : ∀ x, ¬ InBlock block blockSize x → r.mem x = m x
  inside : ∀ x ∈ r.seen, hdr ≤ x ∧ x < modEnd
  result : r.code = 0 → done

/-- The module is as it was. -/
def Same (hdr modEnd : Nat) (m0 m : Mem) : Prop := ∀ x, hdr ≤ x → x < modEnd → m x = m0 x

/-- Block and module have no byte in common. -/
def Apart (hdr modEnd block blockSize : Nat) : Prop := ∀ x, hdr ≤ x → x < modEnd → ¬ InBlock block blockSize x

theorem Same.frame {m' : Mem} (same : Same hdr modEnd m0 m) (apart : Apart hdr modEnd block blockSize)
    (kept : ∀ x, ¬ InBlock block blockSize x → m' x = m x) : Same hdr modEnd m0 m' :=
  fun x low high => (kept x (apart x low high)).trans (same x low high)

theorem Same.getU32 (same : Same hdr modEnd m0 m) (low : hdr ≤ p) (high : p + 4 ≤ modEnd) :
    m.getU32 p = m0.getU32 p :=
  Mem.getU32_congr (fun x first last => same x (by omega) (by omega))

theorem Same.getU16 (same : Same hdr modEnd m0 m) (low : hdr ≤ p) (high : p + 2 ≤ modEnd) :
    m.getU16 p = m0.getU16 p :=
  Mem.getU16_congr (fun x first last => same x (by omega) (by omega))

theorem Meets.after {r : Loaded} {done done' : Prop} {m' : Mem} {seen : List Nat}
    (meets : Meets hdr modEnd block blockSize m' r done) (kept : ∀ x, ¬ InBlock block blockSize x → m' x = m x)
    (inside : ∀ x ∈ seen, hdr ≤ x ∧ x < modEnd) (result : done → done') :
    Meets hdr modEnd block blockSize m (r.after seen) done' where
  frame x outside := (meets.frame x outside).trans (kept x outside)
  inside x member := (List.mem_append.mp member).elim (inside x) (meets.inside x)
  result ok := result (meets.result ok)

/-- Nothing was written. -/
theorem Meets.still {code : Nat} {done : Prop} {seen : List Nat} (inside : ∀ x ∈ seen, hdr ≤ x ∧ x < modEnd)
    (result : code = 0 → done) : Meets hdr modEnd block blockSize m ⟨code, m, seen⟩ done where
  frame _ _ := rfl
  inside := inside
  result := result

theorem add32_add32 (a b c : Nat) : add32 (add32 a b) c = add32 a (b + c) := by
  unfold add32
  omega

/-- A payload goes to the block, byte by byte as it stands in the module. -/
theorem copyPayload_place {dstOff count : Nat} (same : Same hdr modEnd m0 m)
    (apart : Apart hdr modEnd block blockSize) (fits : modEnd ≤ 2 ^ 32) (low : hdr ≤ p) (high : p + count ≤ modEnd)
    (room : dstOff + count ≤ blockSize) :
    copyPayload m (add32 block dstOff) p count = place m block (dstOff, m0.bytes p count) ∧
      ∀ x, ¬ InBlock block blockSize x → copyPayload m (add32 block dstOff) p count x = m x := by
  have source : ∀ i < count, add32 p i = p + i := fun i small => add32_of_lt (by omega)
  have written : ∀ i < count, InBlock block blockSize (add32 (add32 block dstOff) i) :=
    fun i small => ⟨dstOff + i, by omega, add32_add32 block dstOff i⟩
  have clear : ∀ i < count, ∀ j < count, add32 p i ≠ add32 (add32 block dstOff) j := by
    intro i hi j hj equal
    rw [source i hi] at equal
    exact apart (p + i) (by omega) (by omega) (equal ▸ written j hj)
  rw [copyPayload_put clear]
  constructor
  · unfold place
    dsimp only
    rw [Mem.length_bytes]
    refine put_congr (fun i small => ?_)
    have listed : (m0.bytes p count).getD i 0 = m0 (p + i) := by
      simp [Mem.bytes, List.getD_eq_getElem?_getD, small]
    rw [source i small, listed]
    exact same _ (by omega) (by omega)
  · intro x outside
    exact put_outside (fun i small equal => outside (equal ▸ written i small))

/-- A field that fits is written inside the block. -/
theorem addField_inside {off : Nat} (base : Nat) (room : off + 4 ≤ blockSize) :
    ∀ x, ¬ InBlock block blockSize x → addField readHdrU32BE m (add32 block off) base x = m x := by
  intro x outside
  refine addField_outside _ _ (fun k small equal => ?_) (Nat.mod_lt _ (by decide))
  exact outside ⟨off + k, by omega, equal.trans (add32_add32 block off k)⟩

theorem copyIData_meets (same : Same hdr modEnd m0 m) (apart : Apart hdr modEnd block blockSize)
    (fits : modEnd ≤ 2 ^ 32) (small : blockSize < 2 ^ 32) (low : hdr ≤ p) (order : p ≤ last) (high : last < modEnd)
    (enough : last - p < fuel) :
    ∃ r, copyIData firstProc block blockSize last fuel m p = some r ∧
      Meets hdr modEnd block blockSize m r (∃ records, IRecords m0 last p records ∧
        r.mem = records.foldl (place · block) m) := by
  induction fuel generalizing m p with
  | zero => omega
  | succ fuel ih =>
    have left : sub32 last p = last - p := sub32_of_le (by omega) order
    rw [copyIData, left]
    by_cases ended : last - p < 8
    · rw [if_pos ended]
      refine ⟨_, rfl, Meets.still (fun x member => absurd member List.not_mem_nil) (fun _ => ?_)⟩
      exact ⟨[], IRecords.done (by omega), rfl⟩
    · have four : add32 p 4 = p + 4 := add32_of_lt (by omega)
      have eight : add32 p 8 = p + 8 := add32_of_lt (by omega)
      have body : sub32 (last - p) 8 = last - p - 8 := sub32_of_le (by omega) (by omega)
      have dst : firstProc.readU32 m p = m0.getU32 p :=
        (readHdrU32BE_eq (by omega)).trans (same.getU32 low (by omega))
      have count : firstProc.readU32 m (p + 4) = m0.getU32 (p + 4) :=
        (readHdrU32BE_eq (by omega)).trans (same.getU32 (by omega) (by omega))
      have head : ∀ x ∈ span p 8, hdr ≤ x ∧ x < modEnd := span_inside low (by omega) fits
      rw [if_neg ended, four, eight, body, dst, count]
      dsimp only
      by_cases long : m0.getU32 (p + 4) > last - p - 8
      · rw [if_pos long]
        exact ⟨_, rfl, Meets.still head (fun failed => absurd failed (by decide))⟩
      · rw [if_neg long]
        by_cases wide : m0.getU32 p > blockSize ∨ m0.getU32 (p + 4) > sub32 blockSize (m0.getU32 p)
        · rw [if_pos wide]
          exact ⟨_, rfl, Meets.still head (fun failed => absurd failed (by decide))⟩
        · rw [if_neg wide]
          have rest : sub32 blockSize (m0.getU32 p) = blockSize - m0.getU32 p := sub32_of_le (by omega) (by omega)
          have next : add32 p (add32 8 (m0.getU32 (p + 4))) = p + 8 + m0.getU32 (p + 4) := by unfold add32; omega
          have placed := copyPayload_place same apart fits (p := p + 8) (by omega) (by omega)
            (show m0.getU32 p + m0.getU32 (p + 4) ≤ blockSize by omega)
          have payload : ∀ x ∈ span p 8 ++ span (p + 8) (m0.getU32 (p + 4)), hdr ≤ x ∧ x < modEnd := by
            intro x member
            obtain inHead | inBody := List.mem_append.mp member
            · exact head x inHead
            · exact span_inside (by omega) (by omega) fits x inBody
          obtain ⟨r, runs, meets⟩ := ih (same.frame apart placed.2) (p := p + 8 + m0.getU32 (p + 4)) (by omega)
            (by omega) (by omega)
          rw [next, runs]
          refine ⟨_, rfl, meets.after placed.2 payload ?_⟩
          rintro ⟨records, listed, mem⟩
          refine ⟨_, IRecords.entry (by omega) listed, ?_⟩
          rw [List.foldl_cons, ← placed.1]
          exact mem

/-- The fields of a run are relocated from the first to the last. -/
theorem relocRun_meets (base ms count : Nat) (same : Same hdr modEnd m0 m) (apart : Apart hdr modEnd block blockSize)
    (fits : modEnd ≤ 2 ^ 32) (small : blockSize < 2 ^ 32) (low : hdr ≤ q) (high : q + 2 * count ≤ modEnd) :
    Meets hdr modEnd block blockSize m (relocRun firstProc block blockSize base ms count m (q % 2 ^ 32)).1
        ((relocRun firstProc block blockSize base ms count m (q % 2 ^ 32)).1.mem =
          relocate block base (runFields m0 ms count q) m) ∧
      ((relocRun firstProc block blockSize base ms count m (q % 2 ^ 32)).1.code = 0 →
        (relocRun firstProc block blockSize base ms count m (q % 2 ^ 32)).2 = (q + 2 * count) % 2 ^ 32) := by
  induction count generalizing m q with
  | zero => exact ⟨Meets.still (fun x member => absurd member List.not_mem_nil) (fun _ => rfl), fun _ => rfl⟩
  | succ count ih =>
    have here : q % 2 ^ 32 = q := Nat.mod_eq_of_lt (by omega)
    have word : firstProc.readU16 m q = m0.getU16 q :=
      (readHdrU16BE_eq (by omega)).trans (same.getU16 low (by omega))
    have next : add32 q 2 = (q + 2) % 2 ^ 32 := rfl
    have seen : ∀ x ∈ span q 2, hdr ≤ x ∧ x < modEnd := span_inside low (by omega) fits
    rw [here, relocRun, word, next, runFields]
    dsimp only
    generalize ms * 65536 + m0.getU16 q = off
    by_cases outside : off > blockSize ∨ sub32 blockSize off < 4
    · rw [if_pos outside]
      have failed : firstProc.eBmid ≠ 0 := by decide
      exact ⟨Meets.still seen (fun ok => absurd ok failed), fun ok => absurd ok failed⟩
    · rw [if_neg outside]
      have rest : sub32 blockSize off = blockSize - off := sub32_of_le (by omega) (by omega)
      have written : ∀ x, ¬ InBlock block blockSize x → addField readHdrU32BE m (add32 block off) base x = m x :=
        addField_inside base (by omega)
      obtain ⟨meets, place⟩ := ih (same.frame apart written) (q := q + 2) (by omega) (by omega)
      refine ⟨meets.after written seen (fun done => done), fun ok => ?_⟩
      have ends := place ok
      rwa [show q + 2 + 2 * count = q + 2 * (count + 1) by ring] at ends

theorem relocTable_meets (base : Nat) (same : Same hdr modEnd m0 m) (apart : Apart hdr modEnd block blockSize)
    (fits : modEnd ≤ 2 ^ 32) (size : modEnd - hdr < 2 ^ 32) (small : blockSize < 2 ^ 32) (low : hdr ≤ q)
    (high : q ≤ modEnd) (enough : modEnd - q < fuel) :
    ∃ r p, relocTable firstProc block blockSize (modEnd % 2 ^ 32) base fuel m (q % 2 ^ 32) = some (r, p) ∧
      Meets hdr modEnd block blockSize m r (∃ offsets q', hdr ≤ q' ∧ q' ≤ modEnd ∧ p = q' % 2 ^ 32 ∧
        IRefs m0 modEnd q offsets q' ∧ r.mem = relocate block base offsets m) := by
  induction fuel generalizing m q with
  | zero => omega
  | succ fuel ih =>
    have left : sub32 (modEnd % 2 ^ 32) (q % 2 ^ 32) = modEnd - q := by unfold sub32; omega
    rw [relocTable, left]
    by_cases short : modEnd - q < 4
    · rw [if_pos short]
      exact ⟨_, _, rfl, Meets.still (fun x member => absurd member List.not_mem_nil)
        (fun failed => absurd failed (by decide))⟩
    · have here : q % 2 ^ 32 = q := Nat.mod_eq_of_lt (by omega)
      have two : add32 q 2 = q + 2 := add32_of_lt (by omega)
      have four : add32 q 4 = (q + 4) % 2 ^ 32 := rfl
      have behind : sub32 (modEnd % 2 ^ 32) ((q + 4) % 2 ^ 32) = modEnd - (q + 4) := by unfold sub32; omega
      have high16 : firstProc.readU16 m q = m0.getU16 q :=
        (readHdrU16BE_eq (by omega)).trans (same.getU16 low (by omega))
      have count : firstProc.readU16 m (q + 2) = m0.getU16 (q + 2) :=
        (readHdrU16BE_eq (by omega)).trans (same.getU16 (by omega) (by omega))
      have head : ∀ x ∈ span q 4, hdr ≤ x ∧ x < modEnd := span_inside low (by omega) fits
      rw [if_neg short, here, two, four, behind, high16, count]
      dsimp only
      by_cases ended : m0.getU16 q = 0 ∧ m0.getU16 (q + 2) = 0
      · rw [if_pos ended]
        refine ⟨_, _, rfl, Meets.still head (fun _ => ?_)⟩
        exact ⟨[], q + 4, by omega, by omega, rfl, IRefs.done (by omega) ended, rfl⟩
      · rw [if_neg ended]
        by_cases long : m0.getU16 (q + 2) > (modEnd - (q + 4)) / 2
        · rw [if_pos long]
          exact ⟨_, _, rfl, Meets.still head (fun failed => absurd failed (by decide))⟩
        · rw [if_neg long]
          have fields := relocRun_meets base (m0.getU16 q) (m0.getU16 (q + 2)) same apart fits small
            (show hdr ≤ q + 4 by omega) (by omega)
          generalize relocRun firstProc block blockSize base (m0.getU16 q) (m0.getU16 (q + 2)) m ((q + 4) % 2 ^ 32)
            = run at fields
          obtain ⟨run, p⟩ := run
          obtain ⟨meets, place⟩ := fields
          dsimp only at meets place ⊢
          by_cases failed : run.code ≠ 0
          · rw [if_pos failed]
            refine ⟨_, _, rfl, meets.frame, fun x member => ?_, fun ok => absurd ok failed⟩
            exact (List.mem_append.mp member).elim (head x) (meets.inside x)
          · rw [if_neg failed]
            have ok : run.code = 0 := not_not.mp failed
            obtain ⟨r, p', runs, rest⟩ := ih (same.frame apart meets.frame)
              (q := q + 4 + 2 * m0.getU16 (q + 2)) (by omega) (by omega) (by omega)
            rw [place ok, runs]
            refine ⟨_, _, rfl, rest.after meets.frame ?_ ?_⟩
            · intro x member
              exact (List.mem_append.mp member).elim (head x) (meets.inside x)
            · rintro ⟨offsets, q', low', high', at', table, mem⟩
              refine ⟨_, q', low', high', at', IRefs.run ended (by omega) table, ?_⟩
              have relocated := mem
              rw [meets.result ok] at relocated
              exact relocated.trans List.foldl_append.symm

theorem relocTables_meets (same : Same hdr modEnd m0 m) (apart : Apart hdr modEnd block blockSize)
    (fits : modEnd ≤ 2 ^ 32) (size : modEnd - hdr < 2 ^ 32) (small : blockSize < 2 ^ 32) (low : hdr ≤ q)
    (high : q < modEnd) (enough : modEnd - hdr < fuel) :
    ∃ r, relocTables firstProc hdr block blockSize (modEnd % 2 ^ 32) fuel m q = some r ∧
      Meets hdr modEnd block blockSize m r (∃ codes datas q' q'', IRefs m0 modEnd q codes q' ∧
        IRefs m0 modEnd q' datas q'' ∧ r.mem = relocate block block datas (relocate block hdr codes m)) := by
  obtain ⟨first, p, runs, meets⟩ := relocTable_meets hdr same apart fits size small low (Nat.le_of_lt high)
    (show modEnd - q < fuel by omega)
  rw [show q % 2 ^ 32 = q from Nat.mod_eq_of_lt (by omega)] at runs
  rw [relocTables, runs]
  dsimp only
  by_cases failed : first.code ≠ 0
  · rw [if_pos failed]
    exact ⟨_, rfl, meets.frame, meets.inside, fun ok => absurd ok failed⟩
  · rw [if_neg failed]
    obtain ⟨codes, q', low', high', at', table, relocated⟩ := meets.result (not_not.mp failed)
    obtain ⟨second, p', runs', meets'⟩ := relocTable_meets block (same.frame apart meets.frame) apart fits
      size small low' high' (show modEnd - q' < fuel by omega)
    rw [at', runs']
    refine ⟨_, rfl, meets'.after meets.frame meets.inside ?_⟩
    rintro ⟨datas, q'', -, -, -, table', relocated'⟩
    rw [relocated] at relocated'
    exact ⟨codes, datas, q', q'', table, table', relocated'⟩

end Runs

/-! ### Where nothing wraps around -/

section Plain
variable {m : Mem} {hdr block blockSize modEnd fuel fuel' p q last : Nat}

/-- The outcome without what was read, as F$Fork and F$TLink take it. -/
def Loaded.plain (r : Loaded) : Bool × Mem := (r.code == 0, r.mem)

theorem bmid : firstProc.eBmid ≠ 0 := by decide

theorem copyPayload_plain {dst src n : Nat} (target : dst + n ≤ 2 ^ 32) (source : src + n ≤ 2 ^ 32) :
    copyPayload m (dst % 2 ^ 32) (src % 2 ^ 32) n = copyBytes m dst src n := by
  induction n with
  | zero => rfl
  | succ n ih =>
    have there : add32 (dst % 2 ^ 32) n = dst + n := by unfold add32; omega
    have here : add32 (src % 2 ^ 32) n = src + n := by unfold add32; omega
    rw [copyPayload, copyBytes, ih (by omega) (by omega), there, here]

theorem copyIData_plain (room : block + blockSize ≤ 2 ^ 32) (small : blockSize < 2 ^ 32) (order : p ≤ last)
    (fits : last < 2 ^ 32) (enough : last - p < fuel) (enough' : last - p < fuel') :
    ∃ r, copyIData firstProc block blockSize last fuel m p = some r ∧
      applyIData block blockSize last fuel' m p = r.plain := by
  induction fuel generalizing m p fuel' with
  | zero => omega
  | succ fuel ih =>
    obtain ⟨fuel', rfl⟩ : ∃ n, fuel' = n + 1 := ⟨fuel' - 1, by omega⟩
    have left : sub32 last p = last - p := sub32_of_le fits order
    rw [copyIData, applyIData, left]
    by_cases ended : last - p < 8
    · rw [if_pos ended, if_pos ended]
      exact ⟨_, rfl, rfl⟩
    · have four : add32 p 4 = p + 4 := add32_of_lt (by omega)
      have body : sub32 (last - p) 8 = last - p - 8 := sub32_of_le (by omega) (by omega)
      have dst : firstProc.readU32 m p = m.getU32 p := readHdrU32BE_eq (by omega)
      have count : firstProc.readU32 m (p + 4) = m.getU32 (p + 4) := readHdrU32BE_eq (by omega)
      rw [if_neg ended, if_neg ended, four, body, dst, count]
      dsimp only
      by_cases long : m.getU32 (p + 4) > last - p - 8
      · rw [if_pos long, if_pos (Or.inl long)]
        exact ⟨_, rfl, rfl⟩
      · rw [if_neg long]
        by_cases wide : m.getU32 p > blockSize ∨ m.getU32 (p + 4) > blockSize - m.getU32 p
        · have wide' : m.getU32 p > blockSize ∨ m.getU32 (p + 4) > sub32 blockSize (m.getU32 p) := by
            by_cases behind : m.getU32 p > blockSize
            · exact Or.inl behind
            · rw [sub32_of_le small (by omega)]
              exact wide
          rw [if_pos wide', if_pos (Or.inr wide)]
          exact ⟨_, rfl, rfl⟩
        · have rest : sub32 blockSize (m.getU32 p) = blockSize - m.getU32 p := sub32_of_le small (by omega)
          have next : add32 p (add32 8 (m.getU32 (p + 4))) = p + 8 + m.getU32 (p + 4) := by unfold add32; omega
          have copied : copyPayload m ((block + m.getU32 p) % 2 ^ 32) ((p + 8) % 2 ^ 32) (m.getU32 (p + 4)) =
              copyBytes m (block + m.getU32 p) (p + 8) (m.getU32 (p + 4)) := copyPayload_plain (by omega) (by omega)
          rw [rest, if_neg wide, if_neg (by omega), next]
          obtain ⟨r, runs, same⟩ := ih (m := copyBytes m (block + m.getU32 p) (p + 8) (m.getU32 (p + 4)))
            (p := p + 8 + m.getU32 (p + 4)) (by omega) (by omega)
            (show last - (p + 8 + m.getU32 (p + 4)) < fuel' by omega)
          have runs' : copyIData firstProc block blockSize last fuel
              (copyPayload m (add32 block (m.getU32 p)) (add32 p 8) (m.getU32 (p + 4))) (p + 8 + m.getU32 (p + 4)) = some r := by
            rw [← runs, ← copied]
            rfl
          rw [runs']
          exact ⟨_, rfl, same⟩

theorem relocRun_plain (room : block + blockSize ≤ 2 ^ 32) (small : blockSize < 2 ^ 32) (fits : modEnd ≤ 2 ^ 32)
    (base ms : Nat) {count : Nat} (high : q + 2 * count ≤ modEnd) :
    ∃ r p p', relocRun firstProc block blockSize base ms count m (q % 2 ^ 32) = (r, p) ∧
      applyRun block blockSize base ms count m q = (r.code == 0, r.mem, p') ∧
      (r.code = 0 → p = p' % 2 ^ 32 ∧ p' = q + 2 * count) := by
  induction count generalizing m q with
  | zero => exact ⟨_, _, _, rfl, rfl, fun _ => ⟨rfl, rfl⟩⟩
  | succ count ih =>
    have here : q % 2 ^ 32 = q := Nat.mod_eq_of_lt (by omega)
    have word : firstProc.readU16 m q = m.getU16 q := readHdrU16BE_eq (by omega)
    have next : add32 q 2 = (q + 2) % 2 ^ 32 := rfl
    rw [here, relocRun, applyRun, word, next]
    dsimp only
    generalize ms * 65536 + m.getU16 q = off
    by_cases outside : off > blockSize ∨ blockSize - off < 4
    · have outside' : off > blockSize ∨ sub32 blockSize off < 4 := by
        by_cases behind : off > blockSize
        · exact Or.inl behind
        · rw [sub32_of_le small (by omega)]
          exact outside
      rw [if_pos outside, if_pos outside']
      exact ⟨_, _, _, rfl, rfl, fun ok => absurd ok bmid⟩
    · have field : add32 block off = block + off := add32_of_lt (by omega)
      have added : addField firstProc.readU32 m (add32 block off) base =
          m.setU32 (block + off) (m.getU32 (block + off) + base) := by
        rw [field]
        exact addField_eq (by omega) base
      rw [if_neg outside, sub32_of_le small (by omega), if_neg outside, added]
      obtain ⟨r, p, p', runs, same, place⟩ := ih (m := m.setU32 (block + off) (m.getU32 (block + off) + base)) (q := q + 2)
        (by omega)
      rw [runs, same]
      refine ⟨_, _, _, rfl, rfl, fun ok => ?_⟩
      obtain ⟨at_, ends⟩ := place ok
      exact ⟨at_, by omega⟩

theorem relocTable_plain (base : Nat) (room : block + blockSize ≤ 2 ^ 32) (small : blockSize < 2 ^ 32) (fits : modEnd ≤ 2 ^ 32)
    (high : q ≤ modEnd) (size : modEnd - q < 2 ^ 32) (enough : modEnd - q < fuel) (enough' : modEnd - q < fuel') :
    ∃ r p p', relocTable firstProc block blockSize (modEnd % 2 ^ 32) base fuel m (q % 2 ^ 32) = some (r, p) ∧
      applyTable block blockSize base modEnd fuel' m q = (r.code == 0, r.mem, p') ∧
      (r.code = 0 → p = p' % 2 ^ 32 ∧ q ≤ p' ∧ p' ≤ modEnd) := by
  induction fuel generalizing m q fuel' with
  | zero => omega
  | succ fuel ih =>
    obtain ⟨fuel', rfl⟩ : ∃ n, fuel' = n + 1 := ⟨fuel' - 1, by omega⟩
    have left : sub32 (modEnd % 2 ^ 32) (q % 2 ^ 32) = modEnd - q := by unfold sub32; omega
    rw [relocTable, applyTable, left]
    by_cases short : modEnd - q < 4
    · rw [if_pos short, if_pos short]
      exact ⟨_, _, _, rfl, rfl, fun ok => absurd ok bmid⟩
    · have here : q % 2 ^ 32 = q := Nat.mod_eq_of_lt (by omega)
      have two : add32 q 2 = q + 2 := add32_of_lt (by omega)
      have four : add32 q 4 = (q + 4) % 2 ^ 32 := rfl
      have behind : sub32 (modEnd % 2 ^ 32) ((q + 4) % 2 ^ 32) = modEnd - (q + 4) := by unfold sub32; omega
      have segment : firstProc.readU16 m q = m.getU16 q := readHdrU16BE_eq (by omega)
      have count : firstProc.readU16 m (q + 2) = m.getU16 (q + 2) := readHdrU16BE_eq (by omega)
      rw [if_neg short, if_neg short, here, two, four, behind, segment, count]
      dsimp only
      by_cases ended : m.getU16 q = 0 ∧ m.getU16 (q + 2) = 0
      · rw [if_pos ended, if_pos ended]
        exact ⟨_, _, _, rfl, rfl, fun _ => ⟨rfl, by omega, by omega⟩⟩
      · rw [if_neg ended, if_neg ended]
        by_cases long : m.getU16 (q + 2) > (modEnd - (q + 4)) / 2
        · rw [if_pos long, if_pos long]
          exact ⟨_, _, _, rfl, rfl, fun ok => absurd ok bmid⟩
        · rw [if_neg long, if_neg long]
          obtain ⟨run, p, p', runs, same, place⟩ := relocRun_plain (m := m) room small fits base (m.getU16 q)
            (show q + 4 + 2 * m.getU16 (q + 2) ≤ modEnd by omega)
          rw [runs, same]
          by_cases failed : run.code = 0
          · obtain ⟨rfl, rfl⟩ := place failed
            obtain ⟨r, p, p', more, same', place'⟩ := ih (m := run.mem) (q := q + 4 + 2 * m.getU16 (q + 2)) (by omega) (by omega)
              (by omega) (show modEnd - (q + 4 + 2 * m.getU16 (q + 2)) < fuel' by omega)
            simp only [failed, beq_self_eq_true, ne_eq, not_true_eq_false, if_false, more, same', Option.map_some]
            refine ⟨_, _, _, rfl, rfl, fun ok => ?_⟩
            obtain ⟨at_, low, inside⟩ := place' ok
            exact ⟨at_, by omega, inside⟩
          · have code : (run.code == 0) = false := beq_false_of_ne failed
            rw [code]
            simp only [ne_eq, failed, not_false_eq_true, if_true]
            exact ⟨_, _, p', rfl, congrArg (·, run.mem, p') code.symm, fun ok => absurd ok failed⟩

theorem relocTables_plain (room : block + blockSize ≤ 2 ^ 32) (small : blockSize < 2 ^ 32) {modSize : Nat}
    (fits : hdr + modSize ≤ 2 ^ 32) (low : hdr < q) (high : q ≤ hdr + modSize) (enough : modSize < fuel) :
    ∃ r, relocTables firstProc hdr block blockSize ((hdr + modSize) % 2 ^ 32) fuel m (q % 2 ^ 32) = some r ∧
      applyIRefs m hdr block blockSize modSize q = r.plain := by
  obtain ⟨codes, p, p', runs, same, place⟩ := relocTable_plain (m := m) hdr room small fits high (by omega)
    (show hdr + modSize - q < fuel by omega) (show hdr + modSize - q < modSize by omega)
  rw [relocTables, applyIRefs, runs, same]
  by_cases failed : codes.code = 0
  · obtain ⟨rfl, low', high'⟩ := place failed
    obtain ⟨datas, p, p'', runs', same', -⟩ := relocTable_plain (m := codes.mem) block room small fits high' (by omega)
      (show hdr + modSize - p' < fuel by omega) (show hdr + modSize - p' < modSize by omega)
    simp only [failed, ne_eq, not_true_eq_false, if_false, beq_self_eq_true, runs', same', Option.map_some]
    exact ⟨_, rfl, rfl⟩
  · have code : (codes.code == 0) = false := beq_false_of_ne failed
    simp only [ne_eq, failed, not_false_eq_true, if_true, code]
    exact ⟨_, rfl, congrArg (·, codes.mem) code.symm⟩

end Plain

section Whole
variable {m : Mem} {hdr : Nat}

theorem readHdrU32BE_lt (m : Mem) (a : Nat) : readHdrU32BE m a < 2 ^ 32 := by
  have first := m.getU8_lt a
  have second := m.getU8_lt (add32 a 1)
  have third := m.getU8_lt (add32 a 2)
  have fourth := m.getU8_lt (add32 a 3)
  unfold readHdrU32BE
  omega

def modSize (m : Mem) (hdr : Nat) : Nat := readHdrU32BE m (add32 hdr Mh.size)
def iDataOff (m : Mem) (hdr : Nat) : Nat := readHdrU32BE m (add32 hdr Mh.iData)
def iRefsOff (m : Mem) (hdr : Nat) : Nat := readHdrU32BE m (add32 hdr Mh.iRefs)

/-- The entries of M$IData; without M$IRefs the table has no end, and no entries. -/
def Records (m : Mem) (hdr : Nat) (records : List (Nat × List UInt8)) : Prop :=
  if iDataOff m hdr ≠ 0 ∧ iRefsOff m hdr ≠ 0 then
    IRecords m (hdr + iRefsOff m hdr) (hdr + iDataOff m hdr) records
  else records = []

/-- The offsets of the two tables of M$IRefs. -/
def Tables (m : Mem) (hdr : Nat) (codes datas : List Nat) : Prop :=
  if iRefsOff m hdr ≠ 0 then
    ∃ q q', IRefs m (hdr + modSize m hdr) (hdr + iRefsOff m hdr) codes q ∧ IRefs m (hdr + modSize m hdr) q datas q'
  else codes = [] ∧ datas = []

section Apply
variable {block blockSize fuel : Nat} (fits : hdr + modSize m hdr ≤ 2 ^ 32) (small : blockSize < 2 ^ 32)
  (apart : Apart hdr (hdr + modSize m hdr) block blockSize) (enough : modSize m hdr < fuel)
  (inside : ¬ (iDataOff m hdr ≥ modSize m hdr ∨ iRefsOff m hdr ≥ modSize m hdr))
include fits small apart enough inside

theorem copied_meets (order : ¬ (iDataOff m hdr ≠ 0 ∧ iRefsOff m hdr ≠ 0 ∧ iDataOff m hdr > iRefsOff m hdr)) :
    ∃ r, (if iDataOff m hdr ≠ 0 ∧ iRefsOff m hdr ≠ 0 then
        copyIData firstProc block blockSize (add32 hdr (iRefsOff m hdr)) fuel m (add32 hdr (iDataOff m hdr))
      else some ⟨0, m, []⟩) = some r ∧
      Meets hdr (hdr + modSize m hdr) block blockSize m r (∃ records, Records m hdr records ∧
        r.mem = records.foldl (place · block) m) := by
  have data : add32 hdr (iDataOff m hdr) = hdr + iDataOff m hdr := add32_of_lt (by omega)
  have refs : add32 hdr (iRefsOff m hdr) = hdr + iRefsOff m hdr := add32_of_lt (by omega)
  by_cases both : iDataOff m hdr ≠ 0 ∧ iRefsOff m hdr ≠ 0
  · rw [if_pos both, data, refs]
    obtain ⟨r, runs, meets⟩ := copyIData_meets (fun _ _ _ => rfl) apart fits small (Nat.le_add_right hdr _)
      (show hdr + iDataOff m hdr ≤ hdr + iRefsOff m hdr by omega) (by omega)
      (show hdr + iRefsOff m hdr - (hdr + iDataOff m hdr) < fuel by omega)
    refine ⟨r, runs, meets.frame, meets.inside, fun ok => ?_⟩
    obtain ⟨records, listed, mem⟩ := meets.result ok
    exact ⟨records, (if_pos both).mpr listed, mem⟩
  · rw [if_neg both]
    refine ⟨_, rfl, Meets.still (fun x member => absurd member List.not_mem_nil) (fun _ => ?_)⟩
    exact ⟨[], (if_neg both).mpr rfl, rfl⟩

/-- The relocation goes on where the copy has left the block. -/
theorem relocated_meets {c : Loaded} (ok : c.code = 0) (copied : Meets hdr (hdr + modSize m hdr) block blockSize m c
      (∃ records, Records m hdr records ∧ c.mem = records.foldl (place · block) m)) :
    ∃ r, (if iRefsOff m hdr ≠ 0 then
        (relocTables firstProc hdr block blockSize ((hdr + modSize m hdr) % 2 ^ 32) fuel c.mem
          (add32 hdr (iRefsOff m hdr))).map (·.after c.seen)
      else some c) = some r ∧
      Meets hdr (hdr + modSize m hdr) block blockSize m r (∃ records codes datas, Records m hdr records ∧
        Tables m hdr codes datas ∧
        r.mem = relocate block block datas (relocate block hdr codes (records.foldl (place · block) m))) := by
  obtain ⟨records, listed, mem⟩ := copied.result ok
  have modSmall : modSize m hdr < 2 ^ 32 := readHdrU32BE_lt m (add32 hdr Mh.size)
  by_cases refs : iRefsOff m hdr ≠ 0
  · have place : add32 hdr (iRefsOff m hdr) = hdr + iRefsOff m hdr := add32_of_lt (by omega)
    have same : Same hdr (hdr + modSize m hdr) m c.mem := fun x low high => copied.frame x (apart x low high)
    obtain ⟨r, runs, meets⟩ := relocTables_meets same apart fits (show _ < 2 ^ 32 by omega) small
      (Nat.le_add_right hdr (iRefsOff m hdr)) (by omega) (show _ < fuel by omega)
    rw [if_pos refs, place, runs]
    refine ⟨_, rfl, meets.after copied.frame copied.inside ?_⟩
    rintro ⟨codes, datas, q, q', first, second, relocated⟩
    rw [mem] at relocated
    exact ⟨records, codes, datas, listed, (if_pos refs).mpr ⟨q, q', first, second⟩, relocated⟩
  · rw [if_neg refs]
    refine ⟨c, rfl, copied.frame, copied.inside, fun _ => ?_⟩
    exact ⟨records, [], [], listed, (if_neg refs).mpr ⟨rfl, rfl⟩, mem⟩

end Apply

/-- The block is written, the module read, and a success is the module's own account of the data. -/
theorem applyInitializedData_meets {block blockSize fuel : Nat} (fits : hdr + modSize m hdr ≤ 2 ^ 32)
    (small : blockSize < 2 ^ 32) (apart : Apart hdr (hdr + modSize m hdr) block blockSize)
    (enough : modSize m hdr < fuel) :
    ∃ r, applyInitializedData firstProc hdr block blockSize fuel m = some r ∧
      Meets hdr (hdr + modSize m hdr) block blockSize m r (∃ records codes datas, Records m hdr records ∧
        Tables m hdr codes datas ∧
        r.mem = relocate block block datas (relocate block hdr codes (records.foldl (place · block) m))) := by
  have none : ∀ x ∈ ([] : List Nat), hdr ≤ x ∧ x < hdr + modSize m hdr := fun x member => absurd member List.not_mem_nil
  have modEnd : add32 hdr (modSize m hdr) = (hdr + modSize m hdr) % 2 ^ 32 := rfl
  rw [applyInitializedData, show firstProc.readU32 m (add32 hdr Mh.size) = modSize m hdr from rfl,
    show firstProc.readU32 m (add32 hdr Mh.iData) = iDataOff m hdr from rfl,
    show firstProc.readU32 m (add32 hdr Mh.iRefs) = iRefsOff m hdr from rfl, modEnd]
  dsimp only
  by_cases plain : iDataOff m hdr = 0 ∧ iRefsOff m hdr = 0
  · rw [if_pos plain]
    refine ⟨_, rfl, Meets.still none (fun _ => ⟨[], [], [], ?_, ?_, rfl⟩)⟩
    · exact (if_neg (by simp [plain])).mpr rfl
    · exact (if_neg (by simp [plain])).mpr ⟨rfl, rfl⟩
  · rw [if_neg plain]
    by_cases behind : iDataOff m hdr ≥ modSize m hdr ∨ iRefsOff m hdr ≥ modSize m hdr
    · rw [if_pos behind]
      exact ⟨_, rfl, Meets.still none (fun ok => absurd ok bmid)⟩
    · rw [if_neg behind]
      by_cases swapped : iDataOff m hdr ≠ 0 ∧ iRefsOff m hdr ≠ 0 ∧ iDataOff m hdr > iRefsOff m hdr
      · rw [if_pos swapped]
        exact ⟨_, rfl, Meets.still none (fun ok => absurd ok bmid)⟩
      · rw [if_neg swapped]
        obtain ⟨c, copies, copied⟩ := copied_meets fits small apart enough behind swapped
        rw [copies]
        dsimp only
        by_cases failed : c.code ≠ 0
        · rw [if_pos failed]
          exact ⟨c, rfl, copied.frame, copied.inside, fun ok => absurd ok failed⟩
        · rw [if_neg failed]
          exact relocated_meets fits small apart enough behind (not_not.mp failed) copied

/-- Where nothing wraps around, the loader is the one that F$Fork and F$TLink are modelled with. -/
theorem applyInitializedData_plain {block blockSize fuel : Nat} (header : hdr + 0x48 ≤ 2 ^ 32)
    (fits : hdr + modSize m hdr ≤ 2 ^ 32) (small : blockSize < 2 ^ 32) (room : block + blockSize ≤ 2 ^ 32)
    (enough : modSize m hdr < fuel) :
    ∃ r, applyInitializedData firstProc hdr block blockSize fuel m = some r ∧
      Q9OS.applyInitializedData m hdr block blockSize = r.plain := by
  have field {o : Nat} (inside : o + 4 ≤ 0x48) : m.getU32 (hdr + o) = readHdrU32BE m (add32 hdr o) := by
    rw [add32_of_lt (by omega), readHdrU32BE_eq (by omega)]
  have readTotal : m.getU32 (hdr + Mh.size) = modSize m hdr := field (by decide)
  have readData : m.getU32 (hdr + Mh.iData) = iDataOff m hdr := field (by decide)
  have readRefs : m.getU32 (hdr + Mh.iRefs) = iRefsOff m hdr := field (by decide)
  have modSmall : modSize m hdr < 2 ^ 32 := readHdrU32BE_lt m (add32 hdr Mh.size)
  have modEnd : add32 hdr (modSize m hdr) = (hdr + modSize m hdr) % 2 ^ 32 := rfl
  rw [applyInitializedData, Q9OS.applyInitializedData, readTotal, readData, readRefs,
    show firstProc.readU32 m (add32 hdr Mh.size) = modSize m hdr from rfl,
    show firstProc.readU32 m (add32 hdr Mh.iData) = iDataOff m hdr from rfl,
    show firstProc.readU32 m (add32 hdr Mh.iRefs) = iRefsOff m hdr from rfl, modEnd]
  generalize modSize m hdr = total at *
  generalize iDataOff m hdr = data at *
  generalize iRefsOff m hdr = refs at *
  dsimp only
  by_cases plain : data = 0 ∧ refs = 0
  · rw [if_pos plain, if_pos plain]
    exact ⟨_, rfl, rfl⟩
  rw [if_neg plain, if_neg plain]
  by_cases behind : data ≥ total ∨ refs ≥ total
  · rw [if_pos behind, if_pos behind]
    exact ⟨_, rfl, rfl⟩
  rw [if_neg behind, if_neg behind]
  by_cases swapped : data ≠ 0 ∧ refs ≠ 0 ∧ data > refs
  · rw [if_pos swapped, if_pos swapped]
    exact ⟨_, rfl, rfl⟩
  rw [if_neg swapped, if_neg swapped, show add32 hdr data = hdr + data from add32_of_lt (by omega),
    show add32 hdr refs = hdr + refs from add32_of_lt (by omega)]
  obtain ⟨c, copies, copied⟩ : ∃ c, (if data ≠ 0 ∧ refs ≠ 0 then
      copyIData firstProc block blockSize (hdr + refs) fuel m (hdr + data) else some ⟨0, m, []⟩) = some c ∧
      (if data ≠ 0 ∧ refs ≠ 0 then applyIData block blockSize (hdr + refs) total m (hdr + data) else (true, m)) = c.plain := by
    by_cases both : data ≠ 0 ∧ refs ≠ 0
    · rw [if_pos both, if_pos both]
      exact copyIData_plain room small (by omega) (by omega) (by omega) (by omega)
    · rw [if_neg both, if_neg both]
      exact ⟨_, rfl, rfl⟩
  rw [copies, copied]
  by_cases failed : c.code = 0
  · have code : c.plain = (true, c.mem) := by simp [Loaded.plain, failed]
    rw [code]
    simp only [failed, ne_eq, not_true_eq_false, if_false]
    by_cases none : refs = 0
    · simp only [none, not_true_eq_false, if_false]
      exact ⟨c, rfl, code.symm⟩
    · simp only [none, not_false_eq_true, if_true]
      obtain ⟨r, runs, same⟩ := relocTables_plain (m := c.mem) (q := hdr + refs) room small fits (by omega) (by omega) enough
      rw [show (hdr + refs) % 2 ^ 32 = hdr + refs from Nat.mod_eq_of_lt (by omega)] at runs
      rw [runs]
      exact ⟨_, rfl, same⟩
  · have code : c.plain = (false, c.mem) := by simp [Loaded.plain, failed]
    rw [code]
    simp only [ne_eq, failed, not_false_eq_true, if_true]
    exact ⟨c, rfl, code.symm⟩

/-- Both loaders end, write the block and read the module only, and what they leave on success is what the
module's tables say; they are the same function. -/
theorem loaders_apply :
    (∀ hdr block blockSize fuel m, applyInitializedData trapLink hdr block blockSize fuel m =
      applyInitializedData firstProc hdr block blockSize fuel m) ∧
    ∀ m hdr block blockSize fuel, hdr + modSize m hdr ≤ 2 ^ 32 → blockSize < 2 ^ 32 →
      Apart hdr (hdr + modSize m hdr) block blockSize → modSize m hdr < fuel →
      ∃ r, applyInitializedData firstProc hdr block blockSize fuel m = some r ∧
        (∀ x, ¬ InBlock block blockSize x → r.mem x = m x) ∧ (∀ x ∈ r.seen, hdr ≤ x ∧ x < hdr + modSize m hdr) ∧
        (r.code = 0 → ∃ records codes datas, Records m hdr records ∧ Tables m hdr codes datas ∧
          r.mem = relocate block block datas (relocate block hdr codes (records.foldl (place · block) m))) := by
  refine ⟨fun hdr block blockSize fuel m => rfl, fun m hdr block blockSize fuel fits small apart enough => ?_⟩
  obtain ⟨r, runs, meets⟩ := applyInitializedData_meets fits small apart enough
  exact ⟨r, runs, meets.frame, meets.inside, meets.result⟩

/-- Four bytes for offset 4, which both tables relocate. -/
def pointerModule : Mem :=
  let m := Mem.setU32 (fun _ => 0) 0x1004 0x70
  let m := m.setU32 0x1040 0x50
  let m := m.setU32 0x1044 0x5C
  let m := m.setU32 0x1050 4
  let m := m.setU32 0x1054 4
  let m := m.setU32 0x1058 0x10
  let m := m.setU16 0x105E 1
  let m := m.setU16 0x1060 4
  let m := m.setU16 0x1068 1
  m.setU16 0x106A 4

theorem loaders_apply_pointer : ∃ r, applyInitializedData firstProc 0x1000 0x2000 8 0x71 pointerModule = some r ∧
    r.code = 0 ∧ r.mem.getU32 0x2004 = 0x3010 ∧
      ∃ records codes datas, Records pointerModule 0x1000 records ∧ Tables pointerModule 0x1000 codes datas ∧
        r.mem = relocate 0x2000 0x2000 datas (relocate 0x2000 0x1000 codes (records.foldl (place · 0x2000) pointerModule)) := by
  have size : modSize pointerModule 0x1000 = 0x70 := by decide
  have apart : Apart 0x1000 (0x1000 + modSize pointerModule 0x1000) 0x2000 8 := by
    rintro x low high ⟨i, small, rfl⟩
    unfold add32 at high
    omega
  obtain ⟨r, runs, -, -, result⟩ := loaders_apply.2 pointerModule 0x1000 0x2000 8 0x71 (by omega) (by decide) apart
    (by omega)
  have shown : (applyInitializedData firstProc 0x1000 0x2000 8 0x71 pointerModule).map
      (fun r => (r.code, r.mem.getU32 0x2004)) = some (0, 0x3010) := by decide
  rw [runs] at shown
  obtain ⟨code, pointer⟩ := Prod.mk.inj (Option.some.inj shown)
  exact ⟨r, runs, code, pointer, result code⟩

end Whole

end Loader

end Q9OS

import Mathlib.Data.List.TakeWhile
import Mathlib.Tactic
import Q9OS.Process.Kernel
import Q9OS.Process.Services

/-!
# F$STrap

The initialisation table names processor exceptions and the routines that take
them. It has the format of a service table, and its entries are put into the
process descriptor while it is read.
-/

namespace Q9OS

def exceptSlots : Nat := 10

def exceptFirstVector : Nat := 2

def exceptLastVector : Nat := 11

/-- Offset of a vector's cell in a field of ten long words. -/
def exceptCell (field vector : Nat) : Nat := field + (vector - exceptFirstVector) * 4

namespace TableEntry

def vector (e : TableEntry) : Nat := e.codeword / 4

/-- The code word is the offset of a vector that a process may take. -/
def isVector (e : TableEntry) : Bool :=
  e.codeword % 4 = 0 && !(e.vector < exceptFirstVector || e.vector > exceptLastVector)

def handler (e : TableEntry) : Nat := add32 (add32 e.addr 4) e.signExtOffset

end TableEntry

def strapPut (desc stackAddr : Nat) (h : Heap) (e : TableEntry) : Heap :=
  (h.set32 desc (exceptCell Desc.except e.vector) e.handler).set32 desc (exceptCell Desc.exStk e.vector) stackAddr

/-- The number of handlers, or `none` at a bad entry. A table without an end is
read for a limited number of entries only. -/
def strapWalk (m : Mem) (desc stackAddr : Nat) : Nat → Nat → Nat → Heap → Option Nat × Heap
  | 0, _, installed, h => (some installed, h)
  | guard + 1, entry, installed, h =>
    let e := readEntry m entry
    if e.codeword = endMark then (some installed, h)
    else if e.isVector then strapWalk m desc stackAddr guard (add32 entry 4) (installed + 1) (strapPut desc stackAddr h e)
    else (none, h)

def strapInstall (m : Mem) (h : Heap) (desc tableAddr stackAddr : Nat) : Option Nat × Heap :=
  if desc = 0 ∨ tableAddr = 0 then (none, h)
  else strapWalk m desc stackAddr (4 * exceptSlots) tableAddr 0 h

def strapHandlerFor (h : Heap) (desc vector : Nat) : Nat :=
  if desc = 0 then 0
  else if vector < exceptFirstVector ∨ vector > exceptLastVector then 0
  else h.get32 desc (exceptCell Desc.except vector)

variable {m : Mem} {desc stackAddr : Nat}

/-- The entries that are put into the descriptor. -/
def strapApplied (es : List TableEntry) : List TableEntry := (es.take (4 * exceptSlots)).takeWhile TableEntry.isVector

theorem strapWalk_eq {n entry : Nat} (guard installed : Nat) (h : Heap) (ends : EndsAt m n entry) :
    strapWalk m desc stackAddr guard entry installed h =
      (if ((entriesAt m n entry).take guard).all TableEntry.isVector then
          some (installed + ((entriesAt m n entry).take guard).length)
        else none,
        (((entriesAt m n entry).take guard).takeWhile TableEntry.isVector).foldl (strapPut desc stackAddr) h) := by
  induction guard generalizing n entry installed h with
  | zero => rfl
  | succ guard ih =>
    cases n with
    | zero => rw [strapWalk, if_pos (show (readEntry m entry).codeword = endMark from ends)]; rfl
    | succ n =>
      rw [strapWalk, if_neg (show (readEntry m entry).codeword ≠ endMark from ends.1), entriesAt, List.take_succ_cons]
      cases valid : (readEntry m entry).isVector with
      | true =>
        rw [if_pos rfl, ih (installed + 1) _ ends.2, List.all_cons, valid, Bool.true_and,
          List.takeWhile_cons_of_pos valid, List.length_cons, Nat.add_assoc, Nat.add_comm 1, List.foldl_cons]
      | false =>
        rw [if_neg Bool.false_ne_true, List.all_cons, valid, Bool.false_and, if_neg Bool.false_ne_true,
          List.takeWhile_cons_of_neg (by rw [valid]; exact Bool.false_ne_true)]
        rfl

/-- The entry is for exception `vector`. -/
def takes (vector : Nat) (e : TableEntry) : Bool := e.vector = vector

theorem TableEntry.vector_range {e : TableEntry} (valid : e.isVector = true) :
    exceptFirstVector ≤ e.vector ∧ e.vector ≤ exceptLastVector := by
  simp only [TableEntry.isVector, Bool.and_eq_true, Bool.not_eq_true', Bool.or_eq_false_iff, decide_eq_false_iff_not] at valid
  omega

theorem strapPut_cells (h : Heap) {e : TableEntry} {vector : Nat} (valid : e.isVector = true)
    (low : exceptFirstVector ≤ vector) (high : vector ≤ exceptLastVector) :
    (strapPut desc stackAddr h e).get32 desc (exceptCell Desc.except vector) =
        (if takes vector e then e.handler else h.get32 desc (exceptCell Desc.except vector)) ∧
      (strapPut desc stackAddr h e).get32 desc (exceptCell Desc.exStk vector) =
        (if takes vector e then stackAddr % 4294967296 else h.get32 desc (exceptCell Desc.exStk vector)) := by
  obtain ⟨from2, to11⟩ := e.vector_range valid
  unfold strapPut exceptCell Desc.except Desc.exStk
  unfold exceptFirstVector exceptLastVector at *
  by_cases same : e.vector = vector
  · rw [takes, decide_eq_true same, if_pos rfl, if_pos rfl, same]
    refine ⟨?_, Heap.get32_set32 ..⟩
    rw [Heap.get32_set32_off _ _ _ _ (by omega)]
    exact Heap.get32_set32_of_lt _ _ _ (Nat.mod_lt _ (by decide))
  · rw [takes, decide_eq_false same, if_neg Bool.false_ne_true, if_neg Bool.false_ne_true]
    constructor
    · rw [Heap.get32_set32_off _ _ _ _ (by omega), Heap.get32_set32_off _ _ _ _ (by omega)]
    · rw [Heap.get32_set32_off _ _ _ _ (by omega), Heap.get32_set32_off _ _ _ _ (by omega)]

/-- Only the two fields of the exceptions change. -/
theorem strapPut_outside (h : Heap) {e : TableEntry} {b o : Nat} (valid : e.isVector = true)
    (outside : b ≠ desc ∨ o < Desc.except ∨ Desc.exStk + 4 * exceptSlots ≤ o) :
    strapPut desc stackAddr h e b o = h b o := by
  obtain ⟨from2, to11⟩ := e.vector_range valid
  unfold strapPut exceptCell
  unfold Desc.except Desc.exStk exceptSlots exceptFirstVector exceptLastVector at *
  rcases outside with other | apart
  · rw [Heap.set32_block _ _ _ other, Heap.set32_block _ _ _ other]
  · rw [Heap.set32_off _ _ _ _ (by omega), Heap.set32_off _ _ _ _ (by omega)]

/-- What became of the two fields after the entries of `es`. -/
structure Strapped (h h' : Heap) (desc stackAddr : Nat) (es : List TableEntry) : Prop where
  handler : ∀ vector, exceptFirstVector ≤ vector → vector ≤ exceptLastVector →
    h'.get32 desc (exceptCell Desc.except vector) =
      lastValue (takes vector) TableEntry.handler es (h.get32 desc (exceptCell Desc.except vector))
  stack : ∀ vector, exceptFirstVector ≤ vector → vector ≤ exceptLastVector →
    h'.get32 desc (exceptCell Desc.exStk vector) =
      lastValue (takes vector) (fun _ => stackAddr % 4294967296) es (h.get32 desc (exceptCell Desc.exStk vector))
  outside : ∀ b o, b ≠ desc ∨ o < Desc.except ∨ Desc.exStk + 4 * exceptSlots ≤ o → h' b o = h b o

theorem foldl_strapped (h : Heap) (desc stackAddr : Nat) {es : List TableEntry} (valid : ∀ e ∈ es, e.isVector = true) :
    Strapped h (es.foldl (strapPut desc stackAddr) h) desc stackAddr es where
  handler vector low high :=
    read_foldl (fun h : Heap => h.get32 desc (exceptCell Desc.except vector)) h es
      (fun h e member => (strapPut_cells h (valid e member) low high).1)
  stack vector low high :=
    read_foldl (fun h : Heap => h.get32 desc (exceptCell Desc.exStk vector)) h es
      (fun h e member => (strapPut_cells h (valid e member) low high).2)
  outside b o apart :=
    read_foldl_of_keeps (fun h : Heap => h b o) h es (fun h e member => strapPut_outside h (valid e member) apart)

theorem entriesAt_length (m : Mem) (n addr : Nat) : (entriesAt m n addr).length = n := by
  induction n generalizing addr with
  | zero => rfl
  | succ n ih => rw [entriesAt, List.length_cons, ih]

/-- F$STrap puts the entries before the first bad one among the first forty
into the descriptor, whether it then fails or not. -/
theorem strapInstall_applies (t : ServiceTable) (h : Heap) (desc stackAddr : Nat) :
    ∃ result h', strapInstall t.mem h desc t.addr stackAddr = (result, h') ∧
      (desc = 0 ∨ t.addr = 0 → result = none ∧ h' = h) ∧
      (desc ≠ 0 → t.addr ≠ 0 →
        Strapped h h' desc stackAddr (strapApplied t.entries) ∧
        (result = none ↔ ∃ e ∈ t.entries.take (4 * exceptSlots), e.isVector = false) ∧
        (result ≠ none → result = some (min (4 * exceptSlots) t.length) ∧
          strapApplied t.entries = t.entries.take (4 * exceptSlots))) := by
  by_cases null : desc = 0 ∨ t.addr = 0
  · exact ⟨none, h, if_pos null, fun _ => ⟨rfl, rfl⟩, fun desc addr => absurd null (not_or.mpr ⟨desc, addr⟩)⟩
  refine ⟨_, _, (if_neg null).trans (strapWalk_eq _ 0 h t.ends), fun zero => absurd zero null, fun _ _ =>
    ⟨foldl_strapped h desc stackAddr (fun _ => List.mem_takeWhile_imp), ?_, ?_⟩⟩
  · cases all : ((entriesAt t.mem t.length t.addr).take (4 * exceptSlots)).all TableEntry.isVector with
    | true =>
      refine iff_of_false (by rw [if_pos rfl]; exact Option.some_ne_none _) ?_
      rintro ⟨e, member, bad⟩
      have good := List.all_eq_true.mp all e member
      rw [bad] at good
      exact Bool.false_ne_true good
    | false =>
      refine iff_of_true (if_neg Bool.false_ne_true) ?_
      obtain ⟨e, member, bad⟩ := List.all_eq_false.mp all
      exact ⟨e, member, Bool.not_eq_true _ ▸ bad⟩
  · intro installs
    cases all : ((entriesAt t.mem t.length t.addr).take (4 * exceptSlots)).all TableEntry.isVector with
    | true =>
      refine ⟨?_, List.takeWhile_eq_self_iff.mpr (List.all_eq_true.mp all)⟩
      rw [if_pos rfl, Nat.zero_add, List.length_take, entriesAt_length]
    | false =>
      rw [all, if_neg Bool.false_ne_true] at installs
      exact absurd rfl installs

/-- A handler for illegal instructions, then an entry that is none. -/
def badSecond : ServiceTable where
  mem
    | 0x101 => 16
    | 0x103 => 0x40
    | 0x105 => 17
    | 0x108 => 0xFF
    | 0x109 => 0xFF
    | _ => 0
  addr := 0x100
  length := 2
  ends := by decide

theorem strapInstall_partial : ¬ ∀ (t : ServiceTable) (h h' : Heap) (desc stackAddr : Nat) (result : Option Nat),
    strapInstall t.mem h desc t.addr stackAddr = (result, h') →
      (result = none → ∀ vector, exceptFirstVector ≤ vector → vector ≤ exceptLastVector →
        h'.get32 desc (exceptCell Desc.except vector) = h.get32 desc (exceptCell Desc.except vector)) ∧
      (result ≠ none → Strapped h h' desc stackAddr t.entries) := by
  intro atomic
  have kept := (atomic badSecond (fun _ _ => 0) _ 0x400 0 none rfl).1 rfl 4 (by decide) (by decide)
  revert kept
  decide

end Q9OS

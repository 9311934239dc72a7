import Mathlib.Tactic
import Q9OS.Lib.Run
import Q9OS.Irq.Vectors

/-!
# Vectors and registrations

Every vector that is not the kernel's own is to hold the dispatcher exactly
while a device needs it. Each of the four operations of F$IRQ and F$FIRQ repairs
the vectors by a rule of its own. A removal that meets the other table, or the
autovectors all polled devices share, leaves a vector behind.
-/

namespace Q9OS

namespace Irq

open Vectors

/-! ### What the vectors should be -/

/-- Trace, timer and the trap instructions. -/
def Owned (v : Nat) : Prop := v = 9 ∨ v = timerVector ∨ (32 ≤ v ∧ v ≤ 47)

/-- Autovectors of devices. -/
def Auto (v : Nat) : Prop := 25 ≤ v ∧ v ≤ 31 ∧ v ≠ timerVector

def Polled (s : Vectors) (v : Nat) : Prop := ∃ i, i < irqTabSlots ∧ (s.polls i).vector = v

def Fast (s : Vectors) (v : Nat) : Prop := s.firqHandlers v ≠ 0

/-- The polling table is not empty. -/
def Polling (s : Vectors) : Prop := ∃ i, i < irqTabSlots ∧ (s.polls i).vector ≠ 0

/-- Some registration needs the dispatcher at `v`. -/
def Needed (s : Vectors) (v : Nat) : Prop := Polled s v ∨ Fast s v ∨ (Auto v ∧ Polling s)

/-- The kernel keeps its own vectors. -/
structure OwnKept (s : Vectors) : Prop where
  trace : s.table 9 = .traceHandler
  timer : s.table timerVector = .timerIRQHandler
  trap : s.table 32 = .trapDispatch
  tCall : ∀ v, 33 ≤ v → v ≤ 47 → s.table v = .tCallDispatch

/-- The vector holds the dispatcher when it is needed and the default handler otherwise. -/
def Right (s : Vectors) (v : Nat) : Prop :=
  (Needed s v → s.table v = .irqDispatch) ∧ (¬ Needed s v → s.table v = .excTrap)

structure Follows (s : Vectors) : Prop where
  own : OwnKept s
  right : ∀ v, excTableReserved ≤ v → v < excTableTotal → ¬ Owned v → Right s v

/-! ### Calls -/

inductive Call where
  | irq (poll : Poll)
  | firq (vector reserved isr static : Nat)

def answer (s : Vectors) : Call → Except Nat Unit × Vectors
  | .irq poll => s.procIRQ poll
  | .firq vector reserved isr static => s.procFIRQ vector reserved isr static

/-- The vectors with the calls that succeeded, the latest first. -/
structure Book where
  vectors : Vectors
  log : List Call

def step (b : Book) (call : Call) : Option Book :=
  some ⟨(answer b.vectors call).2, if (answer b.vectors call).1 = .ok () then call :: b.log else b.log⟩

/-- The entry the last call for a device with this vector and static storage asked for. -/
def lastOf (v static : Nat) : List Call → Option Poll
  | [] => none
  | .irq poll :: rest =>
    if poll.vector = v ∧ poll.static = static then (if poll.isr = 0 then none else some poll) else lastOf v static rest
  | .firq _ _ _ _ :: rest => lastOf v static rest

/-- The polling table holds the last registration of every device and nothing else. -/
structure Entered (s : Vectors) (log : List Call) : Prop where
  once : ∀ i j, i < irqTabSlots → j < irqTabSlots → (s.polls i).vector ≠ 0 →
    (s.polls i).vector = (s.polls j).vector → (s.polls i).static = (s.polls j).static → i = j
  last : ∀ i, i < irqTabSlots → (s.polls i).vector ≠ 0 →
    lastOf (s.polls i).vector (s.polls i).static log = some (s.polls i)
  all : ∀ v static poll, lastOf v static log = some poll → v ≠ 0 ∧ ∃ i, i < irqTabSlots ∧ s.polls i = poll
  inside : ∀ i, i < irqTabSlots → (s.polls i).vector ≠ 0 →
    excTableReserved ≤ (s.polls i).vector ∧ (s.polls i).vector < excTableTotal
  fast : ∀ v, Fast s v → v < excTableTotal ∧ ¬ Owned v ∧ excTableReserved ≤ v

/-- The removal of an entry leaves the vectors right: `s` is without the entry. -/
def RemovalFits (s : Vectors) (v : Nat) : Prop :=
  Polled s v ∨
    (¬ Fast s v ∧ (Auto v → ¬ Polling s ∧ ∀ a, Auto a → ¬ Fast s a) ∧
      (¬ Auto v → Polling s ∨ ∀ a, Auto a → Fast s a))

/-- The calls whose local repair is the right one. -/
def Fits (s : Vectors) : Call → Prop
  | .irq poll =>
    if poll.isr = 0 then
      ∀ i, s.irqFind poll.vector poll.static = some i → poll.vector ≠ 0 → RemovalFits (s.setPoll i .free) poll.vector
    else Owned poll.vector → poll.vector = timerVector ∨ ∀ i, i < irqTabSlots → (s.polls i).vector ≠ 0
  | .firq vector reserved isr static =>
    isr = 0 → reserved % 256 = 0 → Fast s vector → s.firqStatics vector = static → Auto vector →
      Polling s → Polled s vector

/-! ### Vectors one by one -/

section
variable {s s' : Vectors} {v : Nat}

/-- The same registrations and the same table address. -/
structure SameBooked (s s' : Vectors) : Prop where
  excJmp : s'.excJmp = s.excJmp
  polls : s'.polls = s.polls
  firqHandlers : s'.firqHandlers = s.firqHandlers
  firqStatics : s'.firqStatics = s.firqStatics

theorem SameBooked.trans {s'' : Vectors} (first : SameBooked s s') (second : SameBooked s' s'') : SameBooked s s'' :=
  ⟨second.excJmp.trans first.excJmp, second.polls.trans first.polls,
    second.firqHandlers.trans first.firqHandlers, second.firqStatics.trans first.firqStatics⟩

theorem setVector_booked (s : Vectors) (v : Nat) (handler : Handler) : SameBooked s (s.setVector v handler) :=
  ⟨rfl, rfl, rfl, rfl⟩

theorem setVectors_booked (s : Vectors) (handler : Handler) (l : List Nat) : SameBooked s (s.setVectors handler l) := by
  induction l generalizing s with
  | nil => exact ⟨rfl, rfl, rfl, rfl⟩
  | cons v rest ih => exact (setVector_booked s v handler).trans (ih _)

theorem setVector_same (s : Vectors) (v : Nat) (handler : Handler) : (s.setVector v handler).table v = handler :=
  if_pos rfl

theorem setVector_other (s : Vectors) {v w : Nat} (handler : Handler) (other : w ≠ v) :
    (s.setVector v handler).table w = s.table w :=
  if_neg other

theorem setVectors_table (s : Vectors) (handler : Handler) (l : List Nat) (v : Nat) :
    (s.setVectors handler l).table v = if v ∈ l then handler else s.table v := by
  induction l generalizing s with
  | nil => simp [setVectors]
  | cons w rest ih =>
    rw [setVectors, ih]
    by_cases here : v = w
    · simp [here, setVector]
    · simp [here, setVector]

theorem mem_autovectors : v ∈ (List.range' 25 7).filter (· ≠ timerVector) ↔ Auto v := by
  simp only [List.mem_filter, List.mem_range'_1, Auto, decide_eq_true_eq]
  omega

theorem setAutovectors_auto (s : Vectors) (handler : Handler) (auto : Auto v) :
    (s.setAutovectors handler).table v = handler := by
  rw [setAutovectors, setVectors_table, if_pos (mem_autovectors.mpr auto)]

theorem setAutovectors_other (s : Vectors) (handler : Handler) (other : ¬ Auto v) :
    (s.setAutovectors handler).table v = s.table v := by
  rw [setAutovectors, setVectors_table, if_neg (fun member => other (mem_autovectors.mp member))]

theorem SameBooked.needed (same : SameBooked s s') (v : Nat) : Needed s' v ↔ Needed s v := by
  unfold Needed Polled Fast Polling
  rw [same.polls, same.firqHandlers]

theorem auto_not_owned (auto : Auto v) : ¬ Owned v := by
  unfold Auto Owned timerVector at *
  omega

/-- Kernel vectors are kept when no vector of theirs changes. -/
theorem OwnKept.congr (kept : OwnKept s) (same : ∀ v, Owned v → s'.table v = s.table v) : OwnKept s' where
  trace := (same 9 (Or.inl rfl)).trans kept.trace
  timer := (same timerVector (Or.inr (Or.inl rfl))).trans kept.timer
  trap := (same 32 (Or.inr (Or.inr (by omega)))).trans kept.trap
  tCall v low high := (same v (Or.inr (Or.inr (by omega)))).trans (kept.tCall v low high)

theorem OwnKept.not_dispatch (kept : OwnKept s) (owned : Owned v) : s.table v ≠ .irqDispatch := by
  intro wrong
  rcases owned with rfl | rfl | ⟨low, high⟩
  · rw [kept.trace] at wrong
    cases wrong
  · rw [kept.timer] at wrong
    cases wrong
  · by_cases first : v = 32
    · rw [first, kept.trap] at wrong
      cases wrong
    · rw [kept.tCall v (by omega) high] at wrong
      cases wrong

/-- A vector whose table entry and whose need are unchanged stays right. -/
theorem Right.congr (right : Right s v) (table : s'.table v = s.table v) (needed : Needed s' v ↔ Needed s v) :
    Right s' v := by
  unfold Right
  rw [table, needed]
  exact right

end

/-! ### The polling table -/

section
variable {s : Vectors} {v static i : Nat} {poll : Poll}

theorem hasVector_iff : s.irqHasVector v = true ↔ Polled s v := by
  simp only [irqHasVector, List.any_eq_true, List.mem_range, beq_iff_eq, Polled]

theorem anyEntry_iff : s.irqAnyEntry = true ↔ Polling s := by
  simp only [irqAnyEntry, List.any_eq_true, List.mem_range, bne_iff_ne, Polling]

theorem irqFind_some (found : s.irqFind v static = some i) :
    i < irqTabSlots ∧ (s.polls i).vector = v ∧ (s.polls i).static = static := by
  have here := List.find?_some found
  have member := List.mem_of_find?_eq_some found
  rw [Bool.and_eq_true, beq_iff_eq, beq_iff_eq] at here
  exact ⟨List.mem_range.mp member, here⟩

theorem irqSlot_none {l : List Nat} {free : Option Nat} (full : s.irqSlot v static l free = none) :
    free = none ∧ ∀ j ∈ l, (s.polls j).vector ≠ 0 := by
  induction l generalizing free with
  | nil => exact ⟨full, fun j member => absurd member List.not_mem_nil⟩
  | cons j rest ih =>
    rw [irqSlot] at full
    split_ifs at full with empty same
    · obtain ⟨none, -⟩ := ih full
      cases free <;> cases none
    · obtain ⟨none, others⟩ := ih full
      refine ⟨none, fun k member => ?_⟩
      rcases List.mem_cons.mp member with rfl | later
      · exact empty
      · exact others k later

/-- A device gets its old slot; only a device without one gets a free slot. -/
theorem irqSlot_some {l : List Nat} {free : Option Nat} (granted : s.irqSlot v static l free = some i) :
    (i ∈ l ∧ (s.polls i).vector ≠ 0 ∧ (s.polls i).vector = v ∧ (s.polls i).static = static) ∨
      ((free = some i ∨ (i ∈ l ∧ (s.polls i).vector = 0)) ∧
        ∀ j ∈ l, (s.polls j).vector ≠ 0 → ¬ ((s.polls j).vector = v ∧ (s.polls j).static = static)) := by
  induction l generalizing free with
  | nil => exact Or.inr ⟨Or.inl granted, fun j member => absurd member List.not_mem_nil⟩
  | cons j rest ih =>
    rw [irqSlot] at granted
    split_ifs at granted with empty same
    · rcases ih granted with ⟨member, old⟩ | ⟨place, others⟩
      · exact Or.inl ⟨List.mem_cons_of_mem _ member, old⟩
      · refine Or.inr ⟨?_, fun k member => ?_⟩
        · rcases place with first | ⟨member, empty'⟩
          · cases free with
            | none =>
              obtain rfl := Option.some.inj first
              exact Or.inr ⟨List.mem_cons_self, empty⟩
            | some k => exact Or.inl first
          · exact Or.inr ⟨List.mem_cons_of_mem _ member, empty'⟩
        · rcases List.mem_cons.mp member with rfl | later
          · exact fun used => absurd empty used
          · exact others k later
    · obtain rfl := Option.some.inj granted
      exact Or.inl ⟨List.mem_cons_self, empty, same⟩
    · rcases ih granted with ⟨member, old⟩ | ⟨place, others⟩
      · exact Or.inl ⟨List.mem_cons_of_mem _ member, old⟩
      · refine Or.inr ⟨place.imp_right (fun found => ⟨List.mem_cons_of_mem _ found.1, found.2⟩), fun k member => ?_⟩
        rcases List.mem_cons.mp member with rfl | later
        · exact fun _ => same
        · exact others k later

/-- The slot of a registration is the old one of the device or a free one. -/
theorem irqSlot_place (granted : s.irqSlot v static (List.range irqTabSlots) none = some i) :
    i < irqTabSlots ∧
      (((s.polls i).vector ≠ 0 ∧ (s.polls i).vector = v ∧ (s.polls i).static = static) ∨
        ((s.polls i).vector = 0 ∧ ∀ j, j < irqTabSlots → (s.polls j).vector ≠ 0 →
          ¬ ((s.polls j).vector = v ∧ (s.polls j).static = static))) := by
  rcases irqSlot_some granted with ⟨member, old⟩ | ⟨place, others⟩
  · exact ⟨List.mem_range.mp member, Or.inl old⟩
  · rcases place with impossible | ⟨member, empty⟩
    · cases impossible
    · exact ⟨List.mem_range.mp member, Or.inr ⟨empty, fun j low => others j (List.mem_range.mpr low)⟩⟩

theorem setPoll_here (s : Vectors) (i : Nat) (poll : Poll) : (s.setPoll i poll).polls i = poll := if_pos rfl

theorem setPoll_other (s : Vectors) {i j : Nat} (poll : Poll) (other : j ≠ i) :
    (s.setPoll i poll).polls j = s.polls j :=
  if_neg other

/-- After a registration exactly one more vector is polled. -/
theorem polled_enter (low : i < irqTabSlots) (place : (s.polls i).vector = 0 ∨ (s.polls i).vector = poll.vector)
    {u : Nat} (real : u ≠ 0) : Polled (s.setPoll i poll) u ↔ u = poll.vector ∨ Polled s u := by
  constructor
  · rintro ⟨j, inside, is⟩
    by_cases here : j = i
    · rw [here, setPoll_here] at is
      exact Or.inl is.symm
    · rw [setPoll_other s poll here] at is
      exact Or.inr ⟨j, inside, is⟩
  · rintro (rfl | ⟨j, inside, is⟩)
    · exact ⟨i, low, by rw [setPoll_here]⟩
    · by_cases here : j = i
      · rw [here] at is
        rcases place with empty | same
        · exact absurd (is.symm.trans empty) real
        · exact ⟨i, low, by rw [setPoll_here, ← same, is]⟩
      · exact ⟨j, inside, by rw [setPoll_other s poll here, is]⟩

theorem polled_remove (vector : (s.polls i).vector = v) {u : Nat} (real : u ≠ 0) (other : u ≠ v) :
    Polled (s.setPoll i .free) u ↔ Polled s u := by
  constructor
  · rintro ⟨j, inside, is⟩
    by_cases here : j = i
    · rw [here, setPoll_here] at is
      exact absurd is.symm real
    · rw [setPoll_other s _ here] at is
      exact ⟨j, inside, is⟩
  · rintro ⟨j, inside, is⟩
    have elsewhere : j ≠ i := by
      rintro rfl
      exact other (is.symm.trans vector)
    exact ⟨j, inside, by rw [setPoll_other s _ elsewhere, is]⟩

theorem Polled.polling (polled : Polled s v) (real : v ≠ 0) : Polling s := by
  obtain ⟨i, low, rfl⟩ := polled
  exact ⟨i, low, real⟩

end

/-! ### F$IRQ adds a device -/

section
variable {s : Vectors} {i u : Nat} {poll : Poll}

theorem irqInstall_booked (s : Vectors) (v : Nat) : SameBooked s (s.irqInstall v) := by
  unfold irqInstall
  split
  · exact (setVector_booked _ _ _).trans (setVectors_booked _ _ _)
  · exact ⟨rfl, rfl, rfl, rfl⟩

theorem irqInstall_new (placed : s.excJmp ≠ 0) {v : Nat} (inside : v < excTableTotal) (new : Auto u ∨ u = v) :
    (s.irqInstall v).table u = .irqDispatch := by
  unfold irqInstall
  rw [if_pos ⟨inside, placed⟩]
  by_cases auto : Auto u
  · exact setAutovectors_auto _ _ auto
  · obtain rfl := new.resolve_left auto
    rw [setAutovectors_other _ _ auto, setVector_same]

theorem irqInstall_other {v : Nat} (auto : ¬ Auto u) (other : u ≠ v) : (s.irqInstall v).table u = s.table u := by
  unfold irqInstall
  split
  · rw [setAutovectors_other _ _ auto, setVector_other _ _ other]
  · rfl

/-- The vectors are right after a registration unless it is on a vector of the kernel. -/
theorem enter_follows (placed : s.excJmp ≠ 0) (follows : Follows s) (low : i < irqTabSlots)
    (place : (s.polls i).vector = 0 ∨ (s.polls i).vector = poll.vector)
    (above : excTableReserved ≤ poll.vector) (below : poll.vector < excTableTotal) :
    Follows ((s.setPoll i poll).irqInstall poll.vector) ↔ ¬ Owned poll.vector := by
  have real : poll.vector ≠ 0 := by
    unfold excTableReserved at above
    omega
  have placed' : (s.setPoll i poll).excJmp ≠ 0 := placed
  constructor
  · intro after owned
    exact after.own.not_dispatch owned (irqInstall_new placed' below (Or.inr rfl))
  · intro free
    refine ⟨follows.own.congr (fun v owned => ?_), fun u two total strange => ?_⟩
    · have other : v ≠ poll.vector := fun same => free (same ▸ owned)
      exact irqInstall_other (fun auto => auto_not_owned auto owned) other
    · have needed := (irqInstall_booked (s.setPoll i poll) poll.vector).needed u
      have entered : Polled (s.setPoll i poll) poll.vector := (polled_enter low place real).mpr (Or.inl rfl)
      by_cases new : Auto u ∨ u = poll.vector
      · refine ⟨fun _ => irqInstall_new placed' below new, fun unneeded => absurd ?_ unneeded⟩
        rw [needed]
        rcases new with auto | rfl
        · exact Or.inr (Or.inr ⟨auto, entered.polling real⟩)
        · exact Or.inl entered
      · obtain ⟨auto, other⟩ := not_or.mp new
        refine (follows.right u two total strange).congr (irqInstall_other auto other) (needed.trans ?_)
        have same := polled_enter low place (u := u) (by unfold excTableReserved at two; omega)
        unfold Needed
        rw [same, or_iff_right other]
        simp only [auto, false_and, or_false]
        rfl

end

/-! ### F$IRQ removes a device -/

section
variable {s : Vectors} {i v u : Nat}

theorem irqRestore_booked (s : Vectors) (v : Nat) : SameBooked s (s.irqRestore v) := by
  have first : SameBooked s (s.restoreVector v (s.irqHasVector v)) := by
    unfold restoreVector
    split
    · exact setVector_booked _ _ _
    · exact ⟨rfl, rfl, rfl, rfl⟩
  refine first.trans ?_
  unfold irqRestore restoreAutovectors
  dsimp only
  split
  · exact setVectors_booked _ _ _
  · exact ⟨rfl, rfl, rfl, rfl⟩

theorem irqRestore_shared (shared : Polled s v) : s.irqRestore v = s := by
  have has := hasVector_iff.mpr shared
  simp [irqRestore, restoreVector, restoreAutovectors, has]

/-- The vector of the last device on it gets the default handler. -/
theorem irqRestore_last (placed : s.excJmp ≠ 0) (alone : ¬ Polled s v) (inside : v < excTableTotal) :
    s.irqRestore v =
      if 25 ≤ v ∧ v ≤ 31 ∧ s.irqAnyEntry = false then (s.setVector v .excTrap).setAutovectors .excTrap
      else s.setVector v .excTrap := by
  have has : s.irqHasVector v = false := Bool.eq_false_iff.mpr (fun wrong => alone (hasVector_iff.mp wrong))
  have entries : (s.setVector v .excTrap).irqAnyEntry = s.irqAnyEntry := rfl
  have address : (s.setVector v .excTrap).excJmp = s.excJmp := rfl
  have first : s.restoreVector v false = s.setVector v .excTrap := if_pos ⟨rfl, placed, inside⟩
  unfold irqRestore
  dsimp only
  rw [has, first, restoreAutovectors, entries, address]
  simp only [true_and, ne_eq, placed, not_false_eq_true, and_true]

theorem irqRestore_here (placed : s.excJmp ≠ 0) (alone : ¬ Polled s v) (inside : v < excTableTotal) :
    (s.irqRestore v).table v = .excTrap := by
  rw [irqRestore_last placed alone inside]
  split
  · by_cases auto : Auto v
    · exact setAutovectors_auto _ _ auto
    · rw [setAutovectors_other _ _ auto, setVector_same]
  · exact setVector_same _ _ _

theorem irqRestore_auto (placed : s.excJmp ≠ 0) (alone : ¬ Polled s v) (inside : v < excTableTotal)
    (range : 25 ≤ v ∧ v ≤ 31) (empty : ¬ Polling s) (auto : Auto u) : (s.irqRestore v).table u = .excTrap := by
  have none : s.irqAnyEntry = false := Bool.eq_false_iff.mpr (fun wrong => empty (anyEntry_iff.mp wrong))
  rw [irqRestore_last placed alone inside, if_pos ⟨range.1, range.2, none⟩]
  exact setAutovectors_auto _ _ auto

/-- Vectors other than that of the device change only with all autovectors together. -/
theorem irqRestore_other (placed : s.excJmp ≠ 0) (alone : ¬ Polled s v) (inside : v < excTableTotal) (other : u ≠ v)
    (kept : ¬ Auto u ∨ Polling s ∨ ¬ (25 ≤ v ∧ v ≤ 31)) : (s.irqRestore v).table u = s.table u := by
  rw [irqRestore_last placed alone inside]
  split
  · next all =>
    have out : ¬ Auto u := by
      rcases kept with out | polling | outside
      · exact out
      · have some := anyEntry_iff.mpr polling
        rw [all.2.2] at some
        cases some
      · exact absurd ⟨all.1, all.2.1⟩ outside
    rw [setAutovectors_other _ _ out, setVector_other _ _ other]
  · exact setVector_other _ _ other

/-- After the last entry is gone only fast handlers need a vector. -/
theorem needed_empty (empty : ¬ Polling s) (real : u ≠ 0) : Needed s u ↔ Fast s u := by
  constructor
  · rintro (polled | fast | ⟨-, polling⟩)
    · exact absurd (polled.polling real) empty
    · exact fast
    · exact absurd polling empty
  · exact fun fast => Or.inr (Or.inl fast)

/-- While entries are left only the vector of the device loses a user. -/
theorem needed_left (vector : (s.polls i).vector = v) (before : Polling s) (left : Polling (s.setPoll i .free))
    (real : u ≠ 0) (other : u ≠ v) : Needed (s.setPoll i .free) u ↔ Needed s u := by
  unfold Needed
  rw [polled_remove vector real other]
  simp only [left, before, and_true]
  rfl

theorem needed_plain (vector : (s.polls i).vector = v) (auto : ¬ Auto u) (real : u ≠ 0) (other : u ≠ v) :
    Needed (s.setPoll i .free) u ↔ Needed s u := by
  unfold Needed
  rw [polled_remove vector real other]
  simp only [auto, false_and, or_false]
  rfl

end

section
variable {s : Vectors} {i v : Nat}

/-- Exactly the removals that fit leave the vectors right. -/
theorem remove_follows (placed : s.excJmp ≠ 0) (follows : Follows s) (low : i < irqTabSlots)
    (vector : (s.polls i).vector = v) (strange : ¬ Owned v) (above : excTableReserved ≤ v) (below : v < excTableTotal) :
    Follows ((s.setPoll i .free).irqRestore v) ↔ RemovalFits (s.setPoll i .free) v := by
  have nonzero {u : Nat} (two : excTableReserved ≤ u) : u ≠ 0 := by
    unfold excTableReserved at two
    omega
  have before : Polling s := ⟨i, low, by rw [vector]; exact nonzero above⟩
  have placed' : (s.setPoll i .free).excJmp ≠ 0 := placed
  have needed := (irqRestore_booked (s.setPoll i .free) v).needed
  by_cases shared : Polled (s.setPoll i .free) v
  · rw [irqRestore_shared shared]
    refine ⟨fun _ => Or.inl shared, fun _ => ⟨follows.own.congr (fun _ _ => rfl), fun u two total out => ?_⟩⟩
    refine (follows.right u two total out).congr rfl ?_
    by_cases here : u = v
    · rw [here]
      exact ⟨fun _ => Or.inl ⟨i, low, vector⟩, fun _ => Or.inl shared⟩
    · exact needed_left vector before (shared.polling (nonzero above)) (nonzero two) here
  · have trapped := irqRestore_here placed' shared below
    have ranged : Auto v ↔ 25 ≤ v ∧ v ≤ 31 := by
      unfold Owned Auto at *
      omega
    constructor
    · intro after
      have unneeded : ¬ Needed (s.setPoll i .free) v := by
        intro wrong
        have dispatched := (after.right v above below strange).1 ((needed v).mpr wrong)
        rw [trapped] at dispatched
        cases dispatched
      refine Or.inr ⟨fun fast => unneeded (Or.inr (Or.inl fast)), fun auto => ?_, fun plain => ?_⟩
      · have empty : ¬ Polling (s.setPoll i .free) := fun polling => unneeded (Or.inr (Or.inr ⟨auto, polling⟩))
        refine ⟨empty, fun a other fast => ?_⟩
        have table := irqRestore_auto placed' shared below (ranged.mp auto) empty other
        have range : excTableReserved ≤ a ∧ a < excTableTotal := by
          unfold Auto excTableReserved excTableTotal at *
          omega
        have dispatched := (after.right a range.1 range.2 (auto_not_owned other)).1
          ((needed a).mpr (Or.inr (Or.inl fast)))
        rw [table] at dispatched
        cases dispatched
      · by_cases left : Polling (s.setPoll i .free)
        · exact Or.inl left
        · refine Or.inr (fun a other => ?_)
          have range : excTableReserved ≤ a ∧ a < excTableTotal := by
            unfold Auto excTableReserved excTableTotal at *
            omega
          have apart : a ≠ v := fun same => plain (same ▸ other)
          have table := irqRestore_other placed' shared below apart
            (Or.inr (Or.inr (fun inside => plain (ranged.mpr inside))))
          have dispatched := (follows.right a range.1 range.2 (auto_not_owned other)).1 (Or.inr (Or.inr ⟨other, before⟩))
          have still : Needed (s.setPoll i .free) a := by
            by_contra gone
            have trap := (after.right a range.1 range.2 (auto_not_owned other)).2 (fun now => gone ((needed a).mp now))
            rw [table] at trap
            exact absurd (dispatched.symm.trans trap) (by decide)
          exact (needed_empty left (nonzero range.1)).mp still
    · intro fits
      obtain ⟨slow, auto, plain⟩ := fits.resolve_left shared
      have unneeded : ¬ Needed (s.setPoll i .free) v := by
        rintro (polled | fast | ⟨isAuto, polling⟩)
        · exact shared polled
        · exact slow fast
        · exact (auto isAuto).1 polling
      refine ⟨follows.own.congr (fun u owned => ?_), fun u two total out => ?_⟩
      · have apart : u ≠ v := fun same => strange (same ▸ owned)
        exact irqRestore_other placed' shared below apart (Or.inl (fun isAuto => auto_not_owned isAuto owned))
      · by_cases here : u = v
        · subst here
          exact ⟨fun now => absurd ((needed u).mp now) unneeded, fun _ => trapped⟩
        · by_cases isAuto : Auto u
          · by_cases left : Polling (s.setPoll i .free)
            · refine (follows.right u two total out).congr
                (irqRestore_other placed' shared below here (Or.inr (Or.inl left))) ((needed u).trans ?_)
              exact needed_left vector before left (nonzero two) here
            · by_cases own : Auto v
              · have table := irqRestore_auto placed' shared below (ranged.mp own) left isAuto
                refine ⟨fun now => absurd ?_ ((auto own).2 u isAuto), fun _ => table⟩
                exact (needed_empty left (nonzero two)).mp ((needed u).mp now)
              · have fast : Fast (s.setPoll i .free) u := (plain own).resolve_left left u isAuto
                refine (follows.right u two total out).congr (irqRestore_other placed' shared below here
                  (Or.inr (Or.inr (fun inside => own (ranged.mpr inside))))) ((needed u).trans ?_)
                exact ⟨fun _ => Or.inr (Or.inl fast), fun _ => Or.inr (Or.inl fast)⟩
          · exact (follows.right u two total out).congr (irqRestore_other placed' shared below here (Or.inl isAuto))
              ((needed u).trans (needed_plain vector isAuto (nonzero two) here))

end

/-! ### Fast handlers -/

section
variable {s : Vectors} {v u isr static : Nat}

theorem needed_setFirq (other : u ≠ v) : Needed (s.setFirq v isr static) u ↔ Needed s u := by
  have handler : (s.setFirq v isr static).firqHandlers u = s.firqHandlers u := if_neg other
  unfold Needed Fast
  rw [handler]
  rfl

/-- A change of one vector and of the need for it. -/
theorem setVector_follows (follows : Follows s) {s' : Vectors} {handler : Handler} (strange : ¬ Owned v)
    (table : s'.table = (s.setVector v handler).table) (needed : ∀ u, u ≠ v → (Needed s' u ↔ Needed s u))
    (here : Right s' v) : Follows s' := by
  refine ⟨follows.own.congr (fun u owned => ?_), fun u two total out => ?_⟩
  · have apart : u ≠ v := fun same => strange (same ▸ owned)
    rw [table, setVector_other _ _ apart]
  · by_cases same : u = v
    · rw [same]
      exact here
    · refine (follows.right u two total out).congr ?_ (needed u same)
      rw [table, setVector_other _ _ same]

theorem firqEnter_follows (follows : Follows s) (strange : ¬ Owned v) (routine : isr ≠ 0) :
    Follows ((s.setFirq v isr static).setVector v .irqDispatch) := by
  have needed (u : Nat) (other : u ≠ v) := ((setVector_booked (s.setFirq v isr static) v .irqDispatch).needed u).trans
    (needed_setFirq other)
  have table : ((s.setFirq v isr static).setVector v .irqDispatch).table = (s.setVector v .irqDispatch).table := rfl
  refine setVector_follows follows strange table needed ?_
  have fast : Fast ((s.setFirq v isr static).setVector v .irqDispatch) v := by
    unfold Fast
    rw [(setVector_booked _ _ _).firqHandlers]
    exact fun zero => routine ((if_pos rfl).symm.trans zero)
  exact ⟨fun _ => setVector_same _ _ _, fun unneeded => absurd (Or.inr (Or.inl fast)) unneeded⟩

/-- A removed fast handler leaves the vector to the polling table. -/
theorem needed_firqRemoved : Needed (s.setFirq v 0 0) v ↔ Polled s v ∨ (Auto v ∧ Polling s) := by
  have slow : ¬ Fast (s.setFirq v 0 0) v := fun fast => fast (if_pos rfl)
  unfold Needed
  simp only [slow, false_or]
  rfl

theorem firqRemove_follows (follows : Follows s) (strange : ¬ Owned v) (above : excTableReserved ≤ v)
    (below : v < excTableTotal) :
    Follows ((s.setFirq v 0 0).setVector v
      (if (s.setFirq v 0 0).irqHasVector v then .irqDispatch else .excTrap)) ↔
      (Auto v → Polling s → Polled s v) := by
  have has : (s.setFirq v 0 0).irqHasVector v = true ↔ Polled s v := hasVector_iff
  constructor
  · intro after auto polling
    by_contra alone
    have dispatched := (after.right v above below strange).1 (needed_firqRemoved.mpr (Or.inr ⟨auto, polling⟩))
    rw [setVector_same, if_neg (fun wrong => alone (has.mp wrong))] at dispatched
    cases dispatched
  · intro fits
    have booked (handler : Handler) := (setVector_booked (s.setFirq v 0 0) v handler).needed
    refine setVector_follows follows strange rfl (fun u other => (booked _ u).trans (needed_setFirq other)) ?_
    refine ⟨fun now => ?_, fun unneeded => ?_⟩
    · have polled : Polled s v := by
        rcases needed_firqRemoved.mp ((booked _ v).mp now) with polled | ⟨auto, polling⟩
        · exact polled
        · exact fits auto polling
      rw [setVector_same, if_pos (has.mpr polled)]
    · have alone : ¬ Polled s v := fun polled => unneeded (needed_firqRemoved.mpr (Or.inl polled))
      rw [setVector_same, if_neg (fun wrong => alone (has.mp wrong))]

end

/-! ### What a call does -/

/-- Everything a call can do: it fails and changes nothing, enters or removes a device, or
sets or removes a fast handler. -/
inductive Effect (s : Vectors) : Call → Except Nat Unit → Vectors → Prop
  | failed {call : Call} {code : Nat} (harmless : Fits s call) : Effect s call (.error code) s
  | entered {poll : Poll} {i : Nat} (routine : poll.isr ≠ 0) (above : excTableReserved ≤ poll.vector)
      (below : poll.vector < excTableTotal) (timer : poll.vector ≠ timerVector)
      (granted : s.irqSlot poll.vector poll.static (List.range irqTabSlots) none = some i) :
      Effect s (.irq poll) (.ok ()) ((s.setPoll i poll).irqInstall poll.vector)
  | removed {poll : Poll} {i : Nat} (routine : poll.isr = 0) (found : s.irqFind poll.vector poll.static = some i) :
      Effect s (.irq poll) (.ok ()) ((s.setPoll i .free).irqRestore poll.vector)
  | firqSet {vector reserved isr static : Nat} (range : ¬ Owned vector ∧ excTableReserved ≤ vector)
      (below : vector < excTableTotal) (routine : isr ≠ 0) :
      Effect s (.firq vector reserved isr static) (.ok ())
        (if s.excJmp ≠ 0 then (s.setFirq vector isr static).setVector vector .irqDispatch
          else s.setFirq vector isr static)
  | firqCleared {vector reserved isr static : Nat} (range : ¬ Owned vector ∧ excTableReserved ≤ vector)
      (below : vector < excTableTotal) (zero : reserved % 256 = 0) (routine : isr = 0) (fast : Fast s vector)
      (own : s.firqStatics vector = static) :
      Effect s (.firq vector reserved isr static) (.ok ())
        (if s.excJmp ≠ 0 then (s.setFirq vector 0 0).setVector vector
            (if (s.setFirq vector 0 0).irqHasVector vector then .irqDispatch else .excTrap)
          else s.setFirq vector 0 0)

theorem fits_removal {s : Vectors} {poll : Poll} (routine : poll.isr = 0) :
    Fits s (.irq poll) ↔ ∀ i, s.irqFind poll.vector poll.static = some i → poll.vector ≠ 0 →
      RemovalFits (s.setPoll i .free) poll.vector := by
  simp only [Fits, if_pos routine]

theorem fits_entry {s : Vectors} {poll : Poll} (routine : poll.isr ≠ 0) :
    Fits s (.irq poll) ↔ (Owned poll.vector → poll.vector = timerVector ∨
      ∀ i, i < irqTabSlots → (s.polls i).vector ≠ 0) := by
  simp only [Fits, if_neg routine]

theorem irq_effect (s : Vectors) (poll : Poll) : Effect s (.irq poll) (s.procIRQ poll).1 (s.procIRQ poll).2 := by
  unfold procIRQ
  by_cases routine : poll.isr = 0
  · rw [if_pos routine]
    unfold irqRemove
    cases found : s.irqFind poll.vector poll.static with
    | none =>
      refine .failed ((fits_removal routine).mpr (fun i found' => ?_))
      rw [found] at found'
      cases found'
    | some i => exact .removed routine found
  · rw [if_neg routine]
    unfold irqEnter
    by_cases refused : poll.vector < excTableReserved ∨ poll.vector ≥ excTableTotal ∨ poll.vector = timerVector
    · rw [if_pos refused]
      refine .failed ((fits_entry routine).mpr (fun owned => Or.inl ?_))
      unfold Owned excTableReserved excTableTotal timerVector at *
      omega
    · rw [if_neg refused]
      cases granted : s.irqSlot poll.vector poll.static (List.range irqTabSlots) none with
      | none =>
        refine .failed ((fits_entry routine).mpr (fun _ => Or.inr (fun i low => ?_)))
        exact (irqSlot_none granted).2 i (List.mem_range.mpr low)
      | some i => exact .entered routine (by omega) (by omega) (by omega) granted

theorem firq_effect (s : Vectors) (vector reserved isr static : Nat) :
    Effect s (.firq vector reserved isr static) (s.procFIRQ vector reserved isr static).1
      (s.procFIRQ vector reserved isr static).2 := by
  unfold procFIRQ
  by_cases refused : reserved % 256 ≠ 0 ∨ ((vector < 25 ∨ vector > 31) ∧ vector < 64) ∨ vector ≥ excTableTotal ∨
      vector = timerVector
  · rw [if_pos refused]
    refine .failed (fun _ zero _ _ auto => ?_)
    unfold Auto excTableTotal timerVector at *
    omega
  · rw [if_neg refused]
    have range : ¬ Owned vector ∧ excTableReserved ≤ vector := by
      unfold Owned excTableReserved timerVector at *
      omega
    by_cases routine : isr = 0
    · rw [if_pos routine]
      unfold firqRemove
      by_cases absent : s.firqHandlers vector = 0 ∨ s.firqStatics vector ≠ static
      · rw [if_pos absent]
        refine .failed (fun _ _ fast own => ?_)
        exact absurd absent (not_or.mpr ⟨fast, not_not.mpr own⟩)
      · rw [if_neg absent]
        exact .firqCleared range (by omega) (by omega) routine (fun zero => absent (Or.inl zero)) (by omega)
    · rw [if_neg routine]
      unfold firqEnter
      by_cases taken : s.firqHandlers vector ≠ 0
      · rw [if_pos taken]
        exact .failed (fun zero => absurd zero routine)
      · rw [if_neg taken]
        exact .firqSet range (by omega) routine

theorem answer_effect (s : Vectors) (call : Call) : Effect s call (answer s call).1 (answer s call).2 := by
  cases call with
  | irq poll => exact irq_effect s poll
  | firq vector reserved isr static => exact firq_effect s vector reserved isr static

/-- A call that fails changes nothing. -/
theorem answer_failed {s : Vectors} {call : Call} {code : Nat} (failed : (answer s call).1 = .error code) :
    (answer s call).2 = s := by
  have effect := answer_effect s call
  generalize (answer s call).2 = after at effect
  rw [failed] at effect
  cases effect
  rfl

/-! ### The polling table over runs -/

section
variable {s s' : Vectors} {log : List Call} {poll : Poll} {i : Nat}

theorem lastOf_pair {v static : Nat} (last : lastOf v static log = some poll) :
    poll.vector = v ∧ poll.static = static := by
  induction log with
  | nil => cases last
  | cons call rest ih =>
    cases call with
    | irq other =>
      rw [lastOf] at last
      split_ifs at last with same removed
      · obtain rfl := Option.some.inj last
        exact same
      · exact ih last
    | firq => exact ih last

theorem lastOf_other {v static : Nat} (other : ¬ (poll.vector = v ∧ poll.static = static)) :
    lastOf v static (.irq poll :: log) = lastOf v static log :=
  if_neg other

theorem Entered.congr (entered : Entered s log) (same : SameBooked s s') : Entered s' log where
  once := by
    rw [same.polls]
    exact entered.once
  last := by
    rw [same.polls]
    exact entered.last
  all := by
    rw [same.polls]
    exact entered.all
  inside := by
    rw [same.polls]
    exact entered.inside
  fast := by
    unfold Fast
    rw [same.firqHandlers]
    exact entered.fast

/-- A slot other than that of a device belongs to another device. -/
theorem Entered.apart (entered : Entered s log) {j : Nat} (low : i < irqTabSlots) (low' : j < irqTabSlots)
    (other : j ≠ i) (used : (s.polls j).vector ≠ 0) :
    ¬ ((s.polls i).vector = (s.polls j).vector ∧ (s.polls i).static = (s.polls j).static) :=
  fun same => other (entered.once j i low' low used same.1.symm same.2.symm)

theorem Entered.enter (entered : Entered s log) (routine : poll.isr ≠ 0) (above : excTableReserved ≤ poll.vector)
    (below : poll.vector < excTableTotal)
    (granted : s.irqSlot poll.vector poll.static (List.range irqTabSlots) none = some i) :
    Entered (s.setPoll i poll) (.irq poll :: log) := by
  obtain ⟨low, place⟩ := irqSlot_place granted
  have real : poll.vector ≠ 0 := by
    unfold excTableReserved at above
    omega
  -- No other slot belongs to the device.
  have lone (j : Nat) (low' : j < irqTabSlots) (other : j ≠ i) (used : (s.polls j).vector ≠ 0) :
      ¬ (poll.vector = (s.polls j).vector ∧ poll.static = (s.polls j).static) := by
    rcases place with ⟨-, vector, static⟩ | ⟨-, strangers⟩
    · rw [← vector, ← static]
      exact entered.apart low low' other used
    · exact fun same => strangers j low' used ⟨same.1.symm, same.2.symm⟩
  refine ⟨fun j k first second used vectors statics => ?_, fun j low' used => ?_, fun v static other last => ?_,
    fun j low' used => ?_, entered.fast⟩
  · by_cases here : j = i
    · by_cases here' : k = i
      · exact here.trans here'.symm
      · rw [here, setPoll_here] at used vectors statics
        rw [setPoll_other s poll here'] at vectors statics
        exact absurd ⟨vectors, statics⟩ (lone k second here' (vectors ▸ used))
    · rw [setPoll_other s poll here] at used vectors statics
      by_cases here' : k = i
      · rw [here', setPoll_here] at vectors statics
        exact absurd ⟨vectors.symm, statics.symm⟩ (lone j first here used)
      · rw [setPoll_other s poll here'] at vectors statics
        exact entered.once j k first second used vectors statics
  · by_cases here : j = i
    · rw [here, setPoll_here, lastOf, if_pos ⟨rfl, rfl⟩, if_neg routine]
    · rw [setPoll_other s poll here] at used ⊢
      rw [lastOf_other (lone j low' here used)]
      exact entered.last j low' used
  · by_cases same : poll.vector = v ∧ poll.static = static
    · rw [lastOf, if_pos same, if_neg routine] at last
      obtain rfl := Option.some.inj last
      exact ⟨same.1 ▸ real, i, low, setPoll_here s i poll⟩
    · rw [lastOf_other same] at last
      obtain ⟨nonzero, j, low', is⟩ := entered.all v static other last
      obtain ⟨vector, stat⟩ := lastOf_pair last
      refine ⟨nonzero, j, low', ?_⟩
      rw [setPoll_other, is]
      rintro rfl
      rw [is] at place
      rcases place with ⟨-, old, oldStatic⟩ | ⟨empty, -⟩
      · exact same ⟨old.symm.trans vector, oldStatic.symm.trans stat⟩
      · exact nonzero (vector.symm.trans empty)
  · by_cases here : j = i
    · rw [here, setPoll_here]
      exact ⟨above, below⟩
    · rw [setPoll_other s poll here] at used ⊢
      exact entered.inside j low' used

theorem Entered.remove (entered : Entered s log) (routine : poll.isr = 0)
    (found : s.irqFind poll.vector poll.static = some i) : Entered (s.setPoll i .free) (.irq poll :: log) := by
  obtain ⟨low, vector, static⟩ := irqFind_some found
  have left {j : Nat} (used : ((s.setPoll i .free).polls j).vector ≠ 0) : j ≠ i := by
    rintro rfl
    rw [setPoll_here] at used
    exact used rfl
  refine ⟨fun j k first second used vectors statics => ?_, fun j low' used => ?_, fun v stat other last => ?_,
    fun j low' used => ?_, entered.fast⟩
  · have here := left used
    have here' := left (vectors ▸ used)
    rw [setPoll_other s _ here] at used vectors statics
    rw [setPoll_other s _ here'] at vectors statics
    exact entered.once j k first second used vectors statics
  · have here := left used
    rw [setPoll_other s _ here] at used ⊢
    have strangers := entered.apart low low' here used
    rw [vector, static] at strangers
    rw [lastOf_other strangers]
    exact entered.last j low' used
  · by_cases same : poll.vector = v ∧ poll.static = stat
    · rw [lastOf, if_pos same, if_pos routine] at last
      cases last
    · rw [lastOf_other same] at last
      obtain ⟨nonzero, j, low', is⟩ := entered.all v stat other last
      obtain ⟨vector', stat'⟩ := lastOf_pair last
      refine ⟨nonzero, j, low', ?_⟩
      rw [setPoll_other, is]
      rintro rfl
      rw [is] at vector static
      exact same ⟨vector.symm.trans vector', static.symm.trans stat'⟩
  · have here := left used
    rw [setPoll_other s _ here] at used ⊢
    exact entered.inside j low' used

theorem Entered.setFirq (entered : Entered s log) {vector isr static : Nat} {call : Call}
    (firq : ∀ v stat, lastOf v stat (call :: log) = lastOf v stat log) (range : ¬ Owned vector ∧ excTableReserved ≤ vector)
    (below : vector < excTableTotal) : Entered (s.setFirq vector isr static) (call :: log) := by
  refine ⟨entered.once, fun j low used => ?_, fun v stat other last => ?_, entered.inside, fun v fast => ?_⟩
  · rw [firq]
    exact entered.last j low used
  · rw [firq] at last
    exact entered.all v stat other last
  · by_cases here : v = vector
    · rw [here]
      exact ⟨below, range⟩
    · have handler : (s.setFirq vector isr static).firqHandlers v = s.firqHandlers v := if_neg here
      unfold Fast at fast
      rw [handler] at fast
      exact entered.fast v fast

end

/-! ### Runs -/

/-- The state of runs in which every call fits. -/
structure Kept (b : Book) : Prop where
  placed : b.vectors.excJmp ≠ 0
  entered : Entered b.vectors b.log
  strange : ∀ i, i < irqTabSlots → ¬ Owned (b.vectors.polls i).vector
  follows : Follows b.vectors

theorem effect_entered {s s' : Vectors} {call : Call} {result : Except Nat Unit} {log : List Call}
    (entered : Entered s log) (effect : Effect s call result s') :
    Entered s' (if result = .ok () then call :: log else log) := by
  cases effect with
  | failed => exact entered
  | entered routine above below timer granted =>
    exact (entered.enter routine above below granted).congr (irqInstall_booked _ _)
  | removed routine found => exact (entered.remove routine found).congr (irqRestore_booked _ _)
  | firqSet range below routine =>
    split
    · exact (entered.setFirq (fun _ _ => rfl) range below).congr (setVector_booked _ _ _)
    · exact entered.setFirq (fun _ _ => rfl) range below
  | firqCleared range below zero routine fast own =>
    split
    · exact (entered.setFirq (fun _ _ => rfl) range below).congr (setVector_booked _ _ _)
    · exact entered.setFirq (fun _ _ => rfl) range below

theorem effect_placed {s s' : Vectors} {call : Call} {result : Except Nat Unit} (effect : Effect s call result s') :
    s'.excJmp = s.excJmp := by
  cases effect with
  | failed => rfl
  | entered => exact (irqInstall_booked _ _).excJmp
  | removed => exact (irqRestore_booked _ _).excJmp
  | firqSet => split <;> rfl
  | firqCleared => split <;> rfl

/-- Exactly the calls that fit leave the vectors right. -/
theorem effect_follows {b : Book} {s' : Vectors} {call : Call} {result : Except Nat Unit} (kept : Kept b)
    (effect : Effect b.vectors call result s') : Follows s' ↔ Fits b.vectors call := by
  cases effect with
  | failed harmless => exact ⟨fun _ => harmless, fun _ => kept.follows⟩
  | @entered poll i routine above below timer granted =>
    obtain ⟨low, place⟩ := irqSlot_place granted
    have place' : (b.vectors.polls i).vector = 0 ∨ (b.vectors.polls i).vector = poll.vector :=
      place.elim (fun old => Or.inr old.2.1) (fun free => Or.inl free.1)
    rw [enter_follows kept.placed kept.follows low place' above below, fits_entry routine]
    refine ⟨fun free owned => absurd owned free, fun fits owned => ?_⟩
    rcases fits owned with wrong | full
    · exact timer wrong
    · rcases place' with empty | same
      · exact full i low empty
      · exact kept.strange i low (same ▸ owned)
  | @removed poll i routine found =>
    obtain ⟨low, vector, -⟩ := irqFind_some found
    have fits : Fits b.vectors (.irq poll) ↔ (poll.vector ≠ 0 → RemovalFits (b.vectors.setPoll i .free) poll.vector) := by
      rw [fits_removal routine]
      refine ⟨fun all => all i found, fun one j found' => ?_⟩
      obtain rfl := Option.some.inj (found.symm.trans found')
      exact one
    rw [fits]
    by_cases real : poll.vector = 0
    · -- An empty entry was found, and the table stays as it is.
      have shared : Polled (b.vectors.setPoll i .free) poll.vector := ⟨i, low, by rw [setPoll_here, real]; rfl⟩
      rw [irqRestore_shared shared]
      refine ⟨fun _ used => absurd real used, fun _ => ⟨kept.follows.own.congr (fun _ _ => rfl), ?_⟩⟩
      intro u two total out
      refine (kept.follows.right u two total out).congr rfl ?_
      have nonzero : u ≠ 0 := by
        unfold excTableReserved at two
        omega
      unfold Needed
      rw [polled_remove (vector.trans real) nonzero nonzero]
      have polling : Polling (b.vectors.setPoll i .free) ↔ Polling b.vectors := by
        refine exists_congr (fun j => and_congr_right (fun _ => not_congr ?_))
        by_cases here : j = i
        · rw [here, setPoll_here, vector, real]
          rfl
        · rw [setPoll_other _ _ here]
      rw [polling]
      rfl
    · have used : (b.vectors.polls i).vector ≠ 0 := vector ▸ real
      obtain ⟨above, below⟩ := kept.entered.inside i low used
      rw [vector] at above below
      rw [remove_follows kept.placed kept.follows low vector (vector ▸ kept.strange i low) above below]
      exact ⟨fun fits _ => fits, fun fits => fits real⟩
  | firqSet range below routine =>
    rw [if_pos kept.placed]
    exact ⟨fun _ zero => absurd zero routine, fun _ => firqEnter_follows kept.follows range.1 routine⟩
  | firqCleared range below zero routine fast own =>
    rw [if_pos kept.placed, firqRemove_follows kept.follows range.1 range.2 below]
    exact ⟨fun fits _ _ _ _ => fits, fun fits => fits routine zero fast own⟩

theorem effect_strange {b : Book} {s' : Vectors} {call : Call} {result : Except Nat Unit} (kept : Kept b)
    (effect : Effect b.vectors call result s') (fits : Fits b.vectors call) :
    ∀ i, i < irqTabSlots → ¬ Owned (s'.polls i).vector := by
  cases effect with
  | failed => exact kept.strange
  | @entered poll i routine above below timer granted =>
    intro j low
    rw [(irqInstall_booked _ _).polls]
    by_cases here : j = i
    · rw [here, setPoll_here]
      have follows := (effect_follows kept (.entered routine above below timer granted)).mpr fits
      have placed : (b.vectors.setPoll i poll).excJmp ≠ 0 := kept.placed
      exact fun owned => follows.own.not_dispatch owned (irqInstall_new placed below (Or.inr rfl))
    · rw [setPoll_other _ _ here]
      exact kept.strange j low
  | @removed poll i routine found =>
    intro j low
    rw [(irqRestore_booked _ _).polls]
    by_cases here : j = i
    · rw [here, setPoll_here]
      simp [Owned, Poll.free, timerVector]
    · rw [setPoll_other _ _ here]
      exact kept.strange j low
  | firqSet =>
    split <;> exact kept.strange
  | firqCleared =>
    split <;> exact kept.strange

theorem step_entered {b b' : Book} {call : Call} (entered : Entered b.vectors b.log) (stepped : step b call = some b') :
    Entered b'.vectors b'.log := by
  obtain rfl := Option.some.inj stepped
  exact effect_entered entered (answer_effect b.vectors call)

theorem step_kept {b b' : Book} {call : Call} (kept : Kept b) (fits : Fits b.vectors call)
    (stepped : step b call = some b') : Kept b' := by
  have effect := answer_effect b.vectors call
  have entered := step_entered kept.entered stepped
  obtain rfl := Option.some.inj stepped
  exact ⟨(effect_placed effect).trans_ne kept.placed, entered, effect_strange kept effect fits,
    (effect_follows kept effect).mpr fits⟩

/-! ### From the boot table on -/

theorem setVectors_append (s : Vectors) (handler : Handler) (l l' : List Nat) :
    s.setVectors handler (l ++ l') = (s.setVectors handler l).setVectors handler l' := by
  induction l generalizing s with
  | nil => rfl
  | cons v rest ih => exact ih (s.setVector v handler)

theorem fillGroup_some (n : Nat) (s : Vectors) (first : Nat) (fits : first + n ≤ excTableTotal) :
    s.fillGroup n first = some (first + n, s.setVectors .excTrap (List.range' first n)) := by
  induction n generalizing s first with
  | zero => rfl
  | succ n ih =>
    rw [fillGroup, if_neg (by omega), ih _ _ (by omega), Nat.add_right_comm first 1 n]
    rfl

theorem fillGroups_some (counts : List Nat) (s : Vectors) (first : Nat) (fits : first + counts.sum ≤ excTableTotal) :
    s.fillGroups counts first = some (first + counts.sum, s.setVectors .excTrap (List.range' first counts.sum)) := by
  induction counts generalizing s first with
  | nil => rfl
  | cons n rest ih =>
    rw [List.sum_cons] at *
    rw [fillGroups, fillGroup_some n s first (by omega), Option.bind_some, ih _ _ (by omega), ← setVectors_append,
      List.range'_append_1, Nat.add_assoc]

/-- The table the kernel builds at boot. -/
theorem buildExcTable_some (s : Vectors) :
    s.buildExcTable = some (s.setVectors .excTrap (List.range' excTableReserved 254)).ownVectors := by
  unfold buildExcTable
  rw [fillGroups_some excGroupCounts s excTableReserved (by decide)]
  rfl

/-- No device and no fast handler. -/
structure Unregistered (s : Vectors) : Prop where
  polls : ∀ i, (s.polls i).vector = 0
  firq : ∀ v, s.firqHandlers v = 0

theorem ownVectors_booked (s : Vectors) : SameBooked s s.ownVectors := by
  have traps := (setVector_booked s 32 .trapDispatch).trans (setVector_booked _ 9 .traceHandler)
  exact (traps.trans (setVectors_booked _ .tCallDispatch (List.range' 33 15))).trans (setVector_booked _ _ _)

theorem ownVectors_table (s : Vectors) (v : Nat) :
    s.ownVectors.table v = if v = timerVector then .timerIRQHandler else if v ∈ List.range' 33 15 then .tCallDispatch
      else if v = 9 then .traceHandler else if v = 32 then .trapDispatch else s.table v := by
  unfold ownVectors
  dsimp only [setVector]
  rw [setVectors_table]

theorem boot_follows {s : Vectors} (fresh : Unregistered s) :
    Follows (s.setVectors .excTrap (List.range' excTableReserved 254)).ownVectors := by
  have booked := (setVectors_booked s .excTrap (List.range' excTableReserved 254)).trans (ownVectors_booked _)
  refine ⟨⟨?_, ?_, ?_, fun v low high => ?_⟩, fun v two total strange => ?_⟩
  · rw [ownVectors_table]
    rfl
  · rw [ownVectors_table]
    rfl
  · rw [ownVectors_table]
    rfl
  · have member : v ∈ List.range' 33 15 := List.mem_range'_1.mpr (by omega)
    rw [ownVectors_table, if_neg (by unfold timerVector; omega), if_pos member]
  · have nonzero : v ≠ 0 := by
      unfold excTableReserved at two
      omega
    have member : v ∈ List.range' excTableReserved 254 := List.mem_range'_1.mpr (by
      unfold excTableReserved excTableTotal at *
      omega)
    have unneeded : ¬ Needed s v := by
      rintro (⟨i, -, polled⟩ | fast | ⟨-, i, -, used⟩)
      · exact nonzero (polled.symm.trans (fresh.polls i))
      · exact fast (fresh.firq v)
      · exact used (fresh.polls i)
    have out : v ∉ List.range' 33 15 := by
      rw [List.mem_range'_1]
      unfold Owned at strange
      omega
    refine ⟨fun now => absurd ((booked.needed v).mp now) unneeded, fun _ => ?_⟩
    unfold Owned at strange
    rw [ownVectors_table, if_neg (by omega), if_neg out, if_neg (by omega), if_neg (by omega), setVectors_table,
      if_pos member]

theorem boot_entered {s s' : Vectors} (fresh : Unregistered s) (same : SameBooked s s') : Entered s' [] := by
  have entered : Entered s [] := by
    refine ⟨fun i _ _ _ used => ?_, fun i _ used => ?_, fun _ _ _ last => ?_, fun i _ used => ?_, fun v fast => ?_⟩
    · exact absurd (fresh.polls i) used
    · exact absurd (fresh.polls i) used
    · cases last
    · exact absurd (fresh.polls i) used
    · exact absurd (fresh.firq v) fast
  exact entered.congr same

/-- The vectors follow the registrations in every state of a run if and only if every call of the
run fits. In any run the polling table holds the last registration of each device once, and a
call that fails changes nothing. -/
theorem vectors_follow_registrations (s : Vectors) (placed : s.excJmp ≠ 0) (fresh : Unregistered s) (calls : List Call) :
    ∃ boot, s.buildExcTable = some boot ∧
      (RunMeets step (fun b call => Fits b.vectors call) ⟨boot, []⟩ calls ↔
        ∀ front back b, calls = front ++ back → run step ⟨boot, []⟩ front = some b → Follows b.vectors) ∧
      ∀ b, run step ⟨boot, []⟩ calls = some b → Entered b.vectors b.log ∧
        ∀ call code, (answer b.vectors call).1 = .error code → (answer b.vectors call).2 = b.vectors := by
  have booked := (setVectors_booked s .excTrap (List.range' excTableReserved 254)).trans (ownVectors_booked _)
  have entered := boot_entered fresh booked
  have follows := boot_follows fresh
  have built := buildExcTable_some s
  generalize (s.setVectors .excTrap (List.range' excTableReserved 254)).ownVectors = boot at *
  refine ⟨boot, built, ?_, fun b ran => ⟨?_, fun call code => answer_failed⟩⟩
  · have start : Kept ⟨boot, []⟩ := by
      refine ⟨booked.excJmp.trans_ne placed, entered, fun i low owned => ?_, follows⟩
      rw [booked.polls, fresh.polls i] at owned
      unfold Owned timerVector at owned
      omega
    refine runMeets_iff (fun b call => ⟨_, rfl⟩) (fun b kept => kept.follows) (fun b call b' => step_kept)
      (fun b call b' kept stepped follows => ?_) start calls
    obtain rfl := Option.some.inj stepped
    exact (effect_follows kept (answer_effect b.vectors call)).mp follows
  · exact run_invariant (fun b call b' entered _ stepped => step_entered entered stepped) entered
      (runMeets_of_forall (fun _ _ => trivial) _ calls) ran

/-! ### A device comes and goes -/

/-- The vectors before boot, with the table at $1000. -/
def bare : Vectors := ⟨0x1000, fun _ => .boot, fun _ => .free, fun _ => 0, fun _ => 0⟩

theorem bare_unregistered : Unregistered bare := ⟨fun _ => rfl, fun _ => rfl⟩

/-- A device on vector 64. -/
def device : Poll := ⟨64, 5, 0x4000, 0x1000, 0x2000⟩

def neighbour : Poll := ⟨70, 5, 0x4100, 0x1100, 0x2200⟩

/-- A fast handler on vector 65, two devices, and the first of them leaves. -/
def comeAndGo : List Call := [.firq 65 0 0x6000 0x2100, .irq device, .irq neighbour, .irq { device with isr := 0, port := 0 }]

theorem comeAndGo_fits {boot : Vectors} (built : bare.buildExcTable = some boot) :
    RunMeets step (fun b call => Fits b.vectors call) ⟨boot, []⟩ comeAndGo := by
  have plain {b : Book} {poll : Poll} (routine : poll.isr ≠ 0) (high : 48 ≤ poll.vector) : Fits b.vectors (.irq poll) := by
    refine (fits_entry routine).mpr (fun owned => ?_)
    unfold Owned timerVector at owned
    omega
  refine ⟨fun removed => absurd removed (by decide), fun b₁ first => ⟨plain (by decide) (by decide), fun b₂ next =>
    ⟨plain (by decide) (by decide), fun b₃ last => ⟨?_, fun _ _ => trivial⟩⟩⟩⟩
  have ran : run step ⟨boot, []⟩ [.firq 65 0 0x6000 0x2100, .irq device, .irq neighbour] = some b₃ :=
    run_step first (run_step next (run_step last rfl))
  obtain rfl := Option.some.inj ((buildExcTable_some bare).symm.trans built)
  have shown : (run step ⟨(bare.setVectors .excTrap (List.range' excTableReserved 254)).ownVectors, []⟩
      [.firq 65 0 0x6000 0x2100, .irq device, .irq neighbour]).map
      (fun b => (b.vectors.irqFind 64 0x1000, b.vectors.firqHandlers 64, (b.vectors.polls 1).vector)) = some (some 0, 0, 70) := by
    decide
  rw [ran] at shown
  obtain ⟨place, rest⟩ := Prod.mk.inj (Option.some.inj shown)
  obtain ⟨slow, second⟩ := Prod.mk.inj rest
  have fits : ∀ i, b₃.vectors.irqFind 64 0x1000 = some i → 64 ≠ 0 → RemovalFits (b₃.vectors.setPoll i .free) 64 := by
    intro i found _
    obtain rfl : 0 = i := Option.some.inj (place.symm.trans found)
    refine Or.inr ⟨fun fast => fast slow, fun auto => absurd auto.2.1 (by decide), fun _ => Or.inl ⟨1, by decide, ?_⟩⟩
    show (b₃.vectors.polls 1).vector ≠ 0
    rw [second]
    decide
  exact fits

theorem vectors_follow_device :
    ∃ boot b, bare.buildExcTable = some boot ∧ run step ⟨boot, []⟩ comeAndGo = some b ∧ Follows b.vectors ∧
      b.vectors.table 64 = .excTrap ∧ b.vectors.table 65 = .irqDispatch ∧ b.vectors.table 70 = .irqDispatch := by
  obtain ⟨boot, built, exact_, -⟩ := vectors_follow_registrations bare (by decide) bare_unregistered comeAndGo
  obtain ⟨b, ran⟩ : ∃ b, run step ⟨boot, []⟩ comeAndGo = some b := ⟨_, rfl⟩
  have follows := exact_.mp (comeAndGo_fits built) comeAndGo [] b (List.append_nil _).symm ran
  refine ⟨boot, b, built, ran, follows, ?_⟩
  obtain rfl := Option.some.inj ((buildExcTable_some bare).symm.trans built)
  have shown : (run step ⟨(bare.setVectors .excTrap (List.range' excTableReserved 254)).ownVectors, []⟩ comeAndGo).map
      (fun b => (b.vectors.table 64, b.vectors.table 65, b.vectors.table 70)) =
        some (.excTrap, .irqDispatch, .irqDispatch) := by
    decide
  rw [ran] at shown
  simpa using shown

/-- The only device leaves, and the autovectors still hold the dispatcher. -/
theorem autovector_left_behind :
    ∃ boot b, bare.buildExcTable = some boot ∧
      run step ⟨boot, []⟩ [.irq device, .irq { device with isr := 0, port := 0 }] = some b ∧ ¬ Follows b.vectors := by
  refine ⟨_, _, buildExcTable_some bare, rfl, fun follows => ?_⟩
  have unneeded := (follows.right 27 (by decide) (by decide) (by unfold Owned timerVector; omega)).2 ?_
  · revert unneeded
    decide
  · rintro (⟨i, low, polled⟩ | fast | ⟨-, i, low, used⟩)
    · unfold irqTabSlots at low
      revert polled
      interval_cases i <;> decide
    · exact fast (by decide)
    · unfold irqTabSlots at low
      revert used
      interval_cases i <;> decide

end Irq

end Q9OS

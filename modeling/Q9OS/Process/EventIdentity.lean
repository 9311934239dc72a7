import Mathlib.Tactic
import Q9OS.Process.EventTable
import Q9OS.Process.Frame

/-!
# Identity of events

Names and IDs over runs of F$Event. Between two calls the rest of the kernel may
change in any way, only the event table is the one the last call left.
-/

namespace Q9OS

/-! ### Names in the table -/

theorem nameEnd_chars {m : Mem} {nameAddr : Nat} (n i j : Nat) (from_ : i ≤ j) (before : j < nameEnd m nameAddr n i) :
    eventNameChar (m.getU8 (nameAddr + j)) = true := by
  induction n generalizing i with
  | zero => exact absurd before (Nat.not_lt.mpr from_)
  | succ n ih =>
    rw [nameEnd] at before
    split at before
    · next char =>
      rcases Nat.eq_or_lt_of_le from_ with rfl | later
      · exact char
      · exact ih (i + 1) later before
    · exact absurd before (Nat.not_lt.mpr from_)

theorem nameEnd_stops {m : Mem} {nameAddr : Nat} (n i : Nat) (within : nameEnd m nameAddr n i < i + n) :
    eventNameChar (m.getU8 (nameAddr + nameEnd m nameAddr n i)) = false := by
  induction n generalizing i with
  | zero => exact absurd within (by simp [nameEnd])
  | succ n ih =>
    rw [nameEnd] at within ⊢
    split
    · next char =>
      rw [if_pos char] at within
      exact ih (i + 1) (by omega)
    · next no => exact Bool.eq_false_iff.mpr no

/-- A name has its characters and then one that is no part of a name. -/
theorem eventNameLength_spec {m : Mem} {nameAddr len : Nat} (is : eventNameLength m nameAddr = len) (some : len ≠ 0) :
    len ≤ eventNameMax ∧ (∀ i, i < len → eventNameChar (m.getU8 (nameAddr + i)) = true) ∧
      eventNameChar (m.getU8 (nameAddr + len)) = false := by
  unfold eventNameLength at is
  split at is
  · exact absurd is.symm some
  · dsimp only at is
    split at is
    · exact absurd is.symm some
    · next bounds =>
      subst is
      rw [not_or] at bounds
      refine ⟨by omega, fun i before => nameEnd_chars _ 0 i (Nat.zero_le i) before, nameEnd_stops _ _ (by omega)⟩

theorem storedName_at (m : Mem) (nameAddr len : Nat) {i : Nat} (low : i ≤ eventNameMax) :
    (storedName m nameAddr len).getD i 0 = if i < len then m.getU8 (nameAddr + i) else 0 := by
  have inside : i < eventNameMax + 1 := Nat.lt_succ_of_le low
  simp [storedName, List.getD, inside]

theorem eventNameChar_ne_zero {c : Nat} (char : eventNameChar c = true) : c ≠ 0 := by
  rintro rfl
  cases char

/-- The bytes a name is stored as match the name. -/
theorem storedName_matches {m : Mem} {nameAddr len : Nat} (is : eventNameLength m nameAddr = len) (some : len ≠ 0) :
    eventNameMatches m (storedName m nameAddr len) nameAddr = true := by
  obtain ⟨-, chars, ends⟩ := eventNameLength_spec is some
  have from_ (n i : Nat) (low : i + n ≤ eventNameMax) (sofar : i ≤ len) :
      nameMatchesFrom m (storedName m nameAddr len) nameAddr n i = true := by
    induction n generalizing i with
    | zero => rfl
    | succ n ih =>
      rw [nameMatchesFrom]
      rw [storedName_at m nameAddr len (by omega)]
      by_cases inside : i < len
      · have char := chars i inside
        have nonzero := eventNameChar_ne_zero char
        rw [if_pos inside, if_neg nonzero]
        simp only [char, Bool.not_true, bne_self_eq_false, Bool.or_self, Bool.false_eq_true, if_false]
        exact ih (i + 1) (by omega) inside
      · have last : i = len := by omega
        rw [if_neg inside, if_pos rfl, last, ends]
        rfl
  exact from_ eventNameMax 0 (by omega) (Nat.zero_le len)

namespace Kernel

theorem eventFindByName_none {k : Kernel} {nameAddr : Nat} (absent : k.eventFindByName nameAddr = none) {i : Nat}
    (low : i < eventSlots) (live : (k.events i).id ≠ 0) :
    eventNameMatches k.ram (k.events i).name nameAddr = false := by
  have all := List.find?_eq_none.mp absent i (List.mem_range.mpr low)
  simp only [Bool.and_eq_true, bne_iff_ne, ne_eq, not_and, Bool.not_eq_true] at all
  exact all live

theorem eventFindByName_some {k : Kernel} {nameAddr slot : Nat} (found : k.eventFindByName nameAddr = some slot) :
    slot < eventSlots ∧ (k.events slot).id ≠ 0 := by
  have member := List.mem_range.mp (List.mem_of_find?_eq_some found)
  have holds := List.find?_some found
  simp only [Bool.and_eq_true, bne_iff_ne] at holds
  exact ⟨member, holds.1⟩

theorem eventFreeSlot_some {k : Kernel} {slot : Nat} (found : k.eventFreeSlot = some slot) :
    slot < eventSlots ∧ (k.events slot).id = 0 := by
  have member := List.mem_range.mp (List.mem_of_find?_eq_some found)
  have holds := List.find?_some found
  exact ⟨member, beq_iff_eq.mp holds⟩

/-! ### Calls that leave IDs and names alone -/

/-- No event comes, goes or changes its name. -/
structure Settled (k k' : Kernel) : Prop where
  id : ∀ i, (k'.events i).id = (k.events i).id
  name : ∀ i, (k'.events i).name = (k.events i).name
  next : k'.eventNextId = k.eventNextId

namespace Settled

variable {k k' k'' : Kernel}

theorem rfl : Settled k k := ⟨fun _ => Eq.refl _, fun _ => Eq.refl _, Eq.refl _⟩

theorem trans (first : Settled k k') (second : Settled k' k'') : Settled k k'' :=
  ⟨fun i => (second.id i).trans (first.id i), fun i => (second.name i).trans (first.name i),
    second.next.trans first.next⟩

theorem of_same (events : k'.events = k.events) (next : k'.eventNextId = k.eventNextId) : Settled k k' :=
  ⟨fun i => by rw [events], fun i => by rw [events], next⟩

end Settled

theorem setEvent_settled (k : Kernel) {slot : Nat} {entry : EventSlot} (id : entry.id = (k.events slot).id)
    (name : entry.name = (k.events slot).name) : Settled k (k.setEvent slot entry) := by
  refine ⟨fun i => ?_, fun i => ?_, rfl⟩
  · show (if i = slot then entry else k.events i).id = (k.events i).id
    split
    · next same => rw [same, id]
    · rfl
  · show (if i = slot then entry else k.events i).name = (k.events i).name
    split
    · next same => rw [same, name]
    · rfl

/-- The same with other changes outside the table. -/
theorem Settled.setEvent {k k' : Kernel} (settled : Settled k k') {slot : Nat} {entry : EventSlot}
    (id : entry.id = (k.events slot).id) (name : entry.name = (k.events slot).name) :
    Settled k (k'.setEvent slot entry) :=
  settled.trans (setEvent_settled k' (id.trans (settled.id slot).symm) (name.trans (settled.name slot).symm))

theorem desc_settled (k : Kernel) (h : Heap) : Settled k { k with desc := h } := Settled.of_same rfl rfl

theorem runPicked_settled (k : Kernel) (picked : Nat × Heap) : Settled k (k.runPicked picked).2 := by
  unfold runPicked
  split
  · exact Settled.of_same rfl rfl
  · exact Settled.of_same rfl rfl

theorem schedFirstPick_settled (k : Kernel) : Settled k k.schedFirstPick.2 := by
  rw [schedFirstPick_eq]
  exact runPicked_settled _ _

theorem eventEnqueue_settled (k : Kernel) (slot desc : Nat) : Settled k (k.eventEnqueue slot desc) := by
  unfold eventEnqueue
  dsimp only
  split
  · exact (desc_settled k _).setEvent rfl rfl
  · exact (desc_settled k _).setEvent rfl rfl

theorem eventTakeOut_settled (k : Kernel) (slot prev node : Nat) : Settled k (k.eventTakeOut slot prev node) := by
  unfold eventTakeOut
  dsimp only
  refine (desc_settled k _).setEvent ?_ ?_
  · split <;> split <;> rfl
  · split <;> split <;> rfl

theorem dequeueWalk_settled (k : Kernel) (slot value fuel prev node : Nat) :
    Settled k (k.dequeueWalk slot value fuel prev node).2 := by
  induction fuel generalizing prev node with
  | zero => exact Settled.rfl
  | succ fuel ih =>
    rw [dequeueWalk]
    split_ifs
    · exact Settled.rfl
    · exact eventTakeOut_settled k _ _ _
    · exact ih _ _

theorem eventWakeOne_settled (k : Kernel) (waiter value : Nat) : Settled k (k.eventWakeOne waiter value) := by
  unfold eventWakeOne procAProc
  dsimp only
  split_ifs <;> exact Settled.of_same rfl rfl

theorem signalRounds_settled (rounds slot : Nat) (k : Kernel) (value : Nat) :
    Settled k (k.signalRounds slot value rounds) := by
  induction rounds generalizing k value with
  | zero => exact Settled.rfl
  | succ rounds ih =>
    have taken := dequeueWalk_settled k slot value queueLimit 0 (k.events slot).qNext
    rw [signalRounds]
    dsimp only [eventDequeueInRange]
    split_ifs
    · exact taken
    · refine Settled.trans ?_ (ih _ _)
      exact (taken.trans (eventWakeOne_settled _ _ _)).trans (setEvent_settled _ rfl rfl)

theorem eventSignalCommon_settled (k : Kernel) (id newValue : Nat) (restore wakeAll : Bool) :
    Settled k (k.eventSignalCommon id newValue restore wakeAll).2 := by
  unfold eventSignalCommon
  cases k.eventFindById id with
  | none => exact Settled.rfl
  | some slot =>
    have stored : Settled k (k.setEvent slot { k.events slot with value := newValue }) := setEvent_settled k rfl rfl
    dsimp only
    split
    · exact stored.trans (setEvent_settled _ rfl rfl)
    · exact stored.trans (signalRounds_settled _ _ _ _)

theorem eventWaitCheck_settled (k : Kernel) (id lo hi : Nat) : Settled k (k.eventWaitCheck id lo hi).2 := by
  unfold eventWaitCheck
  cases k.eventFindById id with
  | none => exact Settled.rfl
  | some slot =>
    dsimp only
    split
    · exact setEvent_settled _ rfl rfl
    · exact Settled.rfl

theorem eventWaitEnqueue_settled (k : Kernel) (id lo hi : Nat) : Settled k (k.eventWaitEnqueue id lo hi).2 := by
  unfold eventWaitEnqueue
  cases k.eventFindById id with
  | none => exact Settled.rfl
  | some slot =>
    dsimp only
    split
    · exact Settled.rfl
    · refine Settled.trans ?_ (schedFirstPick_settled _)
      exact (desc_settled k _).trans (eventEnqueue_settled _ _ _)

theorem sysEventWait_settled {k k' : Kernel} {id lo hi sp : Nat} (waited : k.sysEventWait id lo hi sp = some k') :
    Settled k k' := by
  unfold sysEventWait at waited
  split at waited
  · dsimp only at waited
    split at waited
    · cases waited
    · obtain rfl := Option.some.inj waited
      exact (desc_settled k _).trans (eventWaitEnqueue_settled (k.saveSp sp) _ _ _)
  · obtain rfl := Option.some.inj waited
    exact eventWaitCheck_settled _ _ _ _

end Kernel

/-! ### Runs -/

/-- The kernel with the IDs of the events deleted so far. -/
structure Named where
  kernel : Kernel
  deleted : List Nat

namespace Named

/-- `env` with the event table of `k`. -/
def around (env k : Kernel) : Kernel := { env with events := k.events, eventNextId := k.eventNextId }

/-- The ID that a call deletes. -/
def deletes (k : Kernel) : EventOp → List Nat
  | .delete nameAddr =>
    match (k.eventDelete nameAddr).1, k.eventFindByName nameAddr with
    | .ok _, some slot => [Kernel.eventIdOf (k.events slot).id slot]
    | _, _ => []
  | _ => []

def step (s : Named) (call : Kernel × EventOp) : Option Named :=
  let k := around call.1 s.kernel
  (k.eventCall call.2).map fun k' => ⟨k', deletes k call.2 ++ s.deleted⟩

/-- The call reaches the running number of a new event: its text is a name, no event has that name, and a slot is free. -/
def Numbers (k : Kernel) : EventOp → Prop
  | .create nameAddr _ _ _ =>
    eventNameLength k.ram nameAddr ≠ 0 ∧ k.eventFindByName nameAddr = none ∧ k.eventFreeSlot ≠ none
  | _ => False

/-- The running number of a new event does not start over. -/
def Fresh (s : Named) (call : Kernel × EventOp) : Prop :=
  Numbers (around call.1 s.kernel) call.2 → s.kernel.eventNextId < 0xFFFF

/-- The table of a new system. -/
def Empty (s : Named) : Prop := (∀ i, (s.kernel.events i).id = 0) ∧ s.kernel.eventNextId = 0 ∧ s.deleted = []

/-- Running numbers of live and of deleted events are used up, and names are told apart. -/
structure Distinct (events : Nat → EventSlot) (next : Nat) (deleted : List Nat) : Prop where
  small : next ≤ 0xFFFF
  used : ∀ i, i < eventSlots → (events i).id ≤ next
  gone : ∀ id ∈ deleted, ∃ serial slot, id = Kernel.eventIdOf serial slot ∧ slot < eventSlots ∧ serial ≠ 0 ∧
    serial ≤ next ∧ (events slot).id ≠ serial
  names : ∀ i j, i < eventSlots → j < eventSlots → (events i).id ≠ 0 → (events j).id ≠ 0 →
    (events i).name = (events j).name → i = j

/-- The invariant of runs. -/
def Apart (s : Named) : Prop := Distinct s.kernel.events s.kernel.eventNextId s.deleted

theorem Apart.settled {s : Named} {k : Kernel} (distinct : Apart s) (settled : Kernel.Settled s.kernel k) :
    Apart ⟨k, s.deleted⟩ := by
  obtain ⟨small, used, gone, names⟩ := distinct
  rw [← settled.next] at small
  refine ⟨small, fun i low => ?_, fun id member => ?_, fun i j lowI lowJ liveI liveJ same => ?_⟩
  · rw [settled.id, settled.next]
    exact used i low
  · obtain ⟨serial, slot, is, low, some, older, other⟩ := gone id member
    rw [← settled.next] at older
    rw [← settled.id] at other
    exact ⟨serial, slot, is, low, some, older, other⟩
  · rw [settled.id] at liveI liveJ
    rw [settled.name, settled.name] at same
    exact names i j lowI lowJ liveI liveJ same

variable {events : Nat → EventSlot} {next : Nat} {deleted : List Nat}

theorem Distinct.create (distinct : Distinct events next deleted) {slot : Nat} {entry : EventSlot}
    (fresh : next < 0xFFFF) (serial : entry.id = next + 1)
    (other : ∀ i, i < eventSlots → (events i).id ≠ 0 → (events i).name ≠ entry.name) :
    Distinct (fun i => if i = slot then entry else events i) (next + 1) deleted := by
  obtain ⟨small, used, gone, names⟩ := distinct
  refine ⟨fresh, fun i low => ?_, fun id member => ?_, fun i j lowI lowJ liveI liveJ same => ?_⟩
  · split
    · exact serial.le
    · exact (used i low).trans (Nat.le_succ _)
  · obtain ⟨serial', slot', is, low, some, older, differs⟩ := gone id member
    refine ⟨serial', slot', is, low, some, older.trans (Nat.le_succ _), ?_⟩
    split
    · rw [serial]
      omega
    · exact differs
  · split at liveI
    · next isI =>
      split at liveJ
      · next isJ => rw [isI, isJ]
      · next notJ =>
        rw [if_pos isI, if_neg notJ] at same
        exact absurd same.symm (other j lowJ liveJ)
    · next notI =>
      split at liveJ
      · next isJ =>
        rw [if_neg notI, if_pos isJ] at same
        exact absurd same (other i lowI liveI)
      · next notJ =>
        rw [if_neg notI, if_neg notJ] at same
        exact names i j lowI lowJ liveI liveJ same

theorem Distinct.delete (distinct : Distinct events next deleted) {slot : Nat} (low : slot < eventSlots)
    (live : (events slot).id ≠ 0) :
    Distinct (fun i => if i = slot then { events slot with id := 0 } else events i) next
      (Kernel.eventIdOf (events slot).id slot :: deleted) := by
  obtain ⟨small, used, gone, names⟩ := distinct
  refine ⟨small, fun i lowI => ?_, fun id member => ?_, fun i j lowI lowJ liveI liveJ same => ?_⟩
  · dsimp only
    split
    · exact Nat.zero_le _
    · exact used i lowI
  · rcases List.mem_cons.mp member with rfl | older
    · refine ⟨_, slot, rfl, low, live, used slot low, ?_⟩
      dsimp only
      rw [if_pos rfl]
      exact live.symm
    · obtain ⟨serial, slot', is, lowSlot, some, used', differs⟩ := gone id older
      refine ⟨serial, slot', is, lowSlot, some, used', ?_⟩
      dsimp only
      split
      · exact some.symm
      · exact differs
  · dsimp only at liveI liveJ same
    split at liveI
    · exact absurd rfl liveI
    · next notI =>
      split at liveJ
      · exact absurd rfl liveJ
      · next notJ =>
        rw [if_neg notI, if_neg notJ] at same
        exact names i j lowI lowJ liveI liveJ same

theorem nextSerial_of_lt {n : Nat} (small : n < 0xFFFF) : Kernel.nextSerial n = n + 1 := by
  unfold Kernel.nextSerial
  dsimp only
  rw [Nat.mod_eq_of_lt (by omega), if_neg (by omega)]

theorem create_distinct {s : Named} (distinct : Apart s) {nameAddr value incW incS : Nat}
    (fresh : Numbers s.kernel (.create nameAddr value incW incS) → s.kernel.eventNextId < 0xFFFF) :
    Apart ⟨(s.kernel.eventCreate nameAddr value incW incS).2, s.deleted⟩ := by
  unfold Kernel.eventCreate
  dsimp only
  split
  · exact distinct
  · next named =>
    split
    · exact distinct
    · next taken =>
      have absent := Option.not_isSome_iff_eq_none.mp taken
      cases found : s.kernel.eventFreeSlot with
      | none => exact distinct
      | some slot =>
        have small := fresh ⟨named, absent, by simp [found]⟩
        dsimp only
        rw [nextSerial_of_lt small]
        refine Distinct.create distinct small rfl (fun i low live same => ?_)
        have differs := Kernel.eventFindByName_none absent low live
        rw [same, storedName_matches rfl named] at differs
        cases differs

theorem delete_distinct {s : Named} (distinct : Apart s) (nameAddr : Nat) :
    Apart ⟨(s.kernel.eventDelete nameAddr).2, deletes s.kernel (.delete nameAddr) ++ s.deleted⟩ := by
  unfold deletes Kernel.eventDelete
  dsimp only
  split
  · exact distinct
  · cases found : s.kernel.eventFindByName nameAddr with
    | none => exact distinct
    | some slot =>
      obtain ⟨low, live⟩ := Kernel.eventFindByName_some found
      dsimp only
      split
      · exact distinct
      · exact Distinct.delete distinct low live

theorem link_settled (k : Kernel) (nameAddr : Nat) : Kernel.Settled k (k.eventLink nameAddr).2 := by
  unfold Kernel.eventLink
  split
  · exact Kernel.Settled.rfl
  · cases k.eventFindByName nameAddr with
    | none => exact Kernel.Settled.rfl
    | some slot => exact Kernel.setEvent_settled _ rfl rfl

theorem unlink_settled (k : Kernel) (id : Nat) : Kernel.Settled k (k.eventUnlink id).2 := by
  unfold Kernel.eventUnlink
  cases k.eventFindById id with
  | none => exact Kernel.Settled.rfl
  | some slot =>
    dsimp only
    split
    · exact Kernel.setEvent_settled _ rfl rfl
    · exact Kernel.Settled.rfl

theorem signal_settled (k : Kernel) (id : Nat) (wakeAll : Bool) : Kernel.Settled k (k.eventSignal id wakeAll).2 := by
  unfold Kernel.eventSignal
  cases k.eventFindById id with
  | none => exact Kernel.Settled.rfl
  | some slot => exact Kernel.eventSignalCommon_settled _ _ _ _ _

theorem setRelative_settled (k : Kernel) (id : Nat) (delta : Int) (wakeAll : Bool) :
    Kernel.Settled k (k.eventSetRelative id delta wakeAll).2 := by
  unfold Kernel.eventSetRelative
  cases k.eventFindById id with
  | none => exact Kernel.Settled.rfl
  | some slot => exact Kernel.eventSignalCommon_settled _ _ _ _ _

theorem step_distinct {s s' : Named} {call : Kernel × EventOp} (distinct : Apart s) (fresh : Fresh s call)
    (stepped : s.step call = some s') : Apart s' := by
  obtain ⟨env, op⟩ := call
  have placed : Apart ⟨around env s.kernel, s.deleted⟩ := distinct.settled (Kernel.Settled.of_same rfl rfl)
  obtain ⟨k', called, rfl⟩ := Option.map_eq_some_iff.mp stepped
  cases op with
  | create nameAddr value incW incS =>
    obtain rfl := Option.some.inj called
    exact create_distinct placed fresh
  | delete nameAddr =>
    obtain rfl := Option.some.inj called
    exact delete_distinct placed nameAddr
  | link nameAddr =>
    obtain rfl := Option.some.inj called
    exact placed.settled (link_settled _ _)
  | unlink id =>
    obtain rfl := Option.some.inj called
    exact placed.settled (unlink_settled _ _)
  | read id =>
    obtain rfl := Option.some.inj called
    exact placed
  | wait id lo hi sp => exact placed.settled (Kernel.sysEventWait_settled called)
  | signal id wakeAll =>
    obtain rfl := Option.some.inj called
    exact placed.settled (signal_settled _ _ _)
  | set id value wakeAll =>
    obtain rfl := Option.some.inj called
    exact placed.settled (Kernel.eventSignalCommon_settled _ _ _ _ _)
  | setRelative id delta wakeAll =>
    obtain rfl := Option.some.inj called
    exact placed.settled (setRelative_settled _ _ _ _)
  | pulse id value wakeAll =>
    obtain rfl := Option.some.inj called
    exact placed.settled (Kernel.eventSignalCommon_settled _ _ _ _ _)

/-- No call takes the ID. -/
def Refuses (k : Kernel) (id : Nat) : Prop :=
  (k.eventUnlink id).1 = .error eEvntId ∧ k.eventRead id = .error eEvntId ∧
    (∀ lo hi, (k.eventWaitCheck id lo hi).1 = .error eEvntId) ∧
    (∀ wakeAll, (k.eventSignal id wakeAll).1 = .error eEvntId) ∧
    (∀ value wakeAll, (k.eventSet id value wakeAll).1 = .error eEvntId) ∧
    (∀ delta wakeAll, (k.eventSetRelative id delta wakeAll).1 = .error eEvntId) ∧
    ∀ value wakeAll, (k.eventPulse id value wakeAll).1 = .error eEvntId

theorem refuses_of_none {k : Kernel} {id : Nat} (absent : k.eventFindById id = none) : Refuses k id := by
  simp [Refuses, Kernel.eventUnlink, Kernel.eventRead, Kernel.eventWaitCheck, Kernel.eventSignal, Kernel.eventSet,
    Kernel.eventSetRelative, Kernel.eventPulse, Kernel.eventSignalCommon, absent]

theorem eventIdOf_index (serial : Nat) {slot : Nat} (low : slot < eventSlots) :
    Kernel.eventIdOf serial slot % 65536 = slot := by
  have room : slot < 65536 := low.trans (by decide)
  unfold Kernel.eventIdOf
  omega

theorem eventIdOf_serial {serial slot : Nat} (small : serial ≤ 0xFFFF) (low : slot < eventSlots) :
    Kernel.eventIdOf serial slot / 65536 % 65536 = serial := by
  have room : slot < 65536 := low.trans (by decide)
  unfold Kernel.eventIdOf
  omega

theorem eventFindById_stale {k : Kernel} {serial slot : Nat} (low : slot < eventSlots) (small : serial ≤ 0xFFFF)
    (other : (k.events slot).id ≠ serial) : k.eventFindById (Kernel.eventIdOf serial slot) = none := by
  unfold Kernel.eventFindById
  dsimp only
  rw [eventIdOf_index serial low, eventIdOf_serial small low, if_neg (Nat.not_le.mpr low), if_pos other]
  split <;> rfl

/-- IDs and names of live events are told apart, and deleted IDs stay deleted, as long as
the running number does not start over. -/
theorem events_told_apart {s s' : Named} {calls : List (Kernel × EventOp)} (empty : Empty s)
    (meets : RunMeets step Fresh s calls) (ran : run step s calls = some s') :
    (∀ i j, i < eventSlots → j < eventSlots → (s'.kernel.events i).id ≠ 0 → (s'.kernel.events j).id ≠ 0 → i ≠ j →
      Kernel.eventIdOf (s'.kernel.events i).id i ≠ Kernel.eventIdOf (s'.kernel.events j).id j ∧
        (s'.kernel.events i).name ≠ (s'.kernel.events j).name) ∧
    ∀ id ∈ s'.deleted, Refuses s'.kernel id := by
  obtain ⟨free, zero, none⟩ := empty
  have start : Apart s := by
    refine ⟨by rw [zero]; decide, fun i _ => by rw [free i]; exact Nat.zero_le _, fun id member => ?_,
      fun i _ _ _ live => absurd (free i) live⟩
    rw [none] at member
    cases member
  obtain ⟨small, used, gone, names⟩ : Apart s' :=
    run_invariant (fun _ _ _ distinct fresh stepped => step_distinct distinct fresh stepped) start meets ran
  refine ⟨fun i j lowI lowJ liveI liveJ differ => ⟨fun same => ?_, fun same => ?_⟩, fun id member => ?_⟩
  · unfold Kernel.eventIdOf at same
    have roomI : i < 65536 := lowI.trans (by decide)
    have roomJ : j < 65536 := lowJ.trans (by decide)
    omega
  · exact differ (names i j lowI lowJ liveI liveJ same)
  · obtain ⟨serial, slot, rfl, low, -, older, other⟩ := gone id member
    exact refuses_of_none (eventFindById_stale low (older.trans small) other)

/-! ### The running number starts over -/

/-- A caller with the name `a` at address 1. -/
def caller : Kernel := { Kernel.zeroed 0 0 with ram := fun x => if x = 1 then 0x61 else 0 }

/-- The event is created, given up and deleted. -/
def cycle (n : Nat) : List (Kernel × EventOp) :=
  [(caller, .create 1 0 0 0), (caller, .unlink (Kernel.eventIdOf (n + 1) 0)), (caller, .delete 1)]

def cycles : Nat → List (Kernel × EventOp)
  | 0 => []
  | n + 1 => cycles n ++ cycle n

/-- No event is left of `n` that were created. -/
structure Spent (n : Nat) (s : Named) : Prop where
  free : ∀ i, (s.kernel.events i).id = 0
  next : s.kernel.eventNextId = n
  first : 0 < n → Kernel.eventIdOf 1 0 ∈ s.deleted

theorem range_slots : List.range eventSlots = 0 :: (List.range 15).map (· + 1) := by decide

theorem caller_length : eventNameLength caller.ram 1 = 1 := by decide

theorem caller_named (k : Kernel) : eventNameLength (around caller k).ram 1 = 1 := caller_length

/-- What the calls of a cycle leave at index 0. -/
def entry (serial link : Nat) : EventSlot := ⟨serial, storedName caller.ram 1 1, 0, 0, 0, link, 0, 0⟩

theorem create_first {s : Named} (free : ∀ i, (s.kernel.events i).id = 0) :
    s.step (caller, .create 1 0 0 0) =
      some ⟨{ around caller s.kernel with eventNextId := Kernel.nextSerial s.kernel.eventNextId }.setEvent 0
        (entry (Kernel.nextSerial s.kernel.eventNextId) 1), s.deleted⟩ := by
  have absent : (around caller s.kernel).eventFindByName 1 = none := by
    refine List.find?_eq_none.mpr (fun i _ => ?_)
    simp [around, free i]
  have slot : (around caller s.kernel).eventFreeSlot = some 0 := by
    unfold Kernel.eventFreeSlot
    rw [range_slots]
    exact List.find?_cons_of_pos (by simp [around, free 0])
  have created : (around caller s.kernel).eventCreate 1 0 0 0 =
      (.ok (Kernel.eventIdOf (Kernel.nextSerial s.kernel.eventNextId) 0),
        { around caller s.kernel with eventNextId := Kernel.nextSerial s.kernel.eventNextId }.setEvent 0
          (entry (Kernel.nextSerial s.kernel.eventNextId) 1)) := by
    unfold Kernel.eventCreate
    rw [absent, slot, caller_named]
    rfl
  unfold step Kernel.eventCall
  dsimp only
  rw [created]
  rfl

theorem unlink_first {s : Named} {n id : Nat} (slot : s.kernel.events 0 = entry (n + 1) 1) (index : id % 65536 = 0)
    (high : id / 65536 % 65536 = n + 1) :
    s.step (caller, .unlink id) =
      some ⟨(around caller s.kernel).setEvent 0 (entry (n + 1) 0), s.deleted⟩ := by
  have found : (around caller s.kernel).eventFindById id = some 0 := by
    unfold Kernel.eventFindById
    dsimp only
    rw [index, high]
    simp [around, slot, eventSlots, entry]
  have taken : (around caller s.kernel).eventUnlink id =
      (.ok (), (around caller s.kernel).setEvent 0 (entry (n + 1) 0)) := by
    unfold Kernel.eventUnlink
    rw [found]
    show (Except.ok (), if (s.kernel.events 0).link ≠ 0 then
      (around caller s.kernel).setEvent 0 { s.kernel.events 0 with link := (s.kernel.events 0).link - 1 } else _) = _
    rw [slot, if_pos (by simp [entry])]
    rfl
  unfold step Kernel.eventCall
  dsimp only
  rw [taken]
  rfl

theorem delete_first {s : Named} {n : Nat} (slot : s.kernel.events 0 = entry (n + 1) 0) :
    s.step (caller, .delete 1) =
      some ⟨(around caller s.kernel).setEvent 0 (entry 0 0), Kernel.eventIdOf (n + 1) 0 :: s.deleted⟩ := by
  have named : (around caller s.kernel).eventFindByName 1 = some 0 := by
    unfold Kernel.eventFindByName
    rw [range_slots]
    refine List.find?_cons_of_pos ?_
    show ((s.kernel.events 0).id != 0 && eventNameMatches caller.ram (s.kernel.events 0).name 1) = true
    rw [slot]
    unfold entry
    rw [storedName_matches caller_length (by decide)]
    simp
  have gone : (around caller s.kernel).eventDelete 1 =
      (.ok (), (around caller s.kernel).setEvent 0 (entry 0 0)) := by
    unfold Kernel.eventDelete
    rw [caller_named, if_neg (by decide), named]
    show (if (s.kernel.events 0).link ≠ 0 then _ else _) = _
    rw [slot, if_neg (by simp [entry])]
    show (Except.ok (), (around caller s.kernel).setEvent 0 { s.kernel.events 0 with id := 0 }) = _
    rw [slot]
    rfl
  unfold step Kernel.eventCall deletes
  dsimp only
  rw [gone, named]
  show some (Named.mk _ ([Kernel.eventIdOf (s.kernel.events 0).id 0] ++ s.deleted)) = _
  rw [slot]
  rfl

theorem cycle_spent {n : Nat} {s : Named} (spent : Spent n s) (small : n < 0xFFFF) :
    ∃ s', run step s (cycle n) = some s' ∧ Spent (n + 1) s' := by
  obtain ⟨free, next, first⟩ := spent
  have created := create_first free
  rw [next, nextSerial_of_lt small] at created
  have index := eventIdOf_index (n + 1) (show 0 < eventSlots by decide)
  have high := eventIdOf_serial (show n + 1 ≤ 0xFFFF from small) (show 0 < eventSlots by decide)
  refine ⟨_, run_step created (run_step (unlink_first rfl index high) (run_step (delete_first rfl) rfl)), fun i => ?_, rfl, fun _ => ?_⟩
  · by_cases here : i = 0
    · rw [here]
      rfl
    · have same : (s.kernel.events i).id = 0 := free i
      simp only [Kernel.setEvent, around, if_neg here]
      exact same
  · rcases Nat.eq_zero_or_pos n with rfl | more
    · exact List.mem_cons_self
    · exact List.mem_cons_of_mem _ (first more)

theorem cycles_spent {n : Nat} {s : Named} (spent : Spent 0 s) (small : n ≤ 0xFFFF) :
    ∃ s', run step s (cycles n) = some s' ∧ Spent n s' := by
  induction n with
  | zero => exact ⟨s, rfl, spent⟩
  | succ n ih =>
    obtain ⟨mid, ran, done⟩ := ih (by omega)
    obtain ⟨s', more, after⟩ := cycle_spent done small
    refine ⟨s', ?_, after⟩
    rw [cycles, run_append, ran, Option.bind_some]
    exact more

theorem caller_spent : Spent 0 ⟨caller, []⟩ := ⟨fun _ => rfl, rfl, fun none => absurd none (by decide)⟩

/-- After 65535 events the next one gets the ID of the first. -/
theorem deleted_id_returns :
    ¬ ∀ (s s' : Named) (calls : List (Kernel × EventOp)), Empty s → run step s calls = some s' →
      ∀ id ∈ s'.deleted, Refuses s'.kernel id := by
  intro claim
  obtain ⟨mid, ran, free, next, first⟩ := cycles_spent caller_spent (le_refl 0xFFFF)
  have again := create_first free
  rw [next, show Kernel.nextSerial 0xFFFF = 1 by decide] at again
  have refused := claim _ _ _ ⟨fun _ => rfl, rfl, rfl⟩ (run_snoc ran again) _ (first (by decide))
  have answer := refused.2.1
  unfold Kernel.eventRead at answer
  cases answer

theorem events_told_apart_once :
    ∃ s', run step ⟨caller, []⟩ (cycle 0) = some s' ∧ ∀ id ∈ s'.deleted, Refuses s'.kernel id := by
  obtain ⟨s', ran, -⟩ := cycle_spent caller_spent (by decide)
  have meets : RunMeets step Fresh ⟨caller, []⟩ (cycle 0) :=
    ⟨fun _ => show 0 < 0xFFFF by decide, fun _ _ => ⟨False.elim, fun _ _ => ⟨False.elim, fun _ _ => trivial⟩⟩⟩
  exact ⟨s', ran, (events_told_apart ⟨fun _ => rfl, rfl, rfl⟩ meets ran).2⟩

end Named

end Q9OS

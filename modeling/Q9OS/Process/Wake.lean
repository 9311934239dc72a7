import Q9OS.Lib.Rounds
import Q9OS.Process.Rings
import Q9OS.Process.Stack
import Q9OS.Process.Waiters

/-!
# Whom a signal of an event wakes

Ev$Signl, Ev$Set, Ev$SetR and Ev$Pulse on the queue of an event, beside rounds
that serve the first waiting process whose range holds the value.
-/

namespace Q9OS.Wake

open Heap

/-! ### Values -/

/-- The range of an event value. -/
def saturate (i : Int) : Int := max (-0x80000000) (min 0x7FFFFFFF i)

theorem int32_range (n : Nat) : -0x80000000 ≤ int32 n ∧ int32 n < 0x80000000 := by
  unfold int32
  split <;> omega

theorem int16_range (n : Nat) : -0x8000 ≤ int16 n ∧ int16 n < 0x8000 := by
  unfold int16
  split <;> omega

theorem int32_word32 {i : Int} (low : -0x80000000 ≤ i) (high : i < 0x80000000) : int32 (word32 i) = i := by
  unfold int32 word32
  split <;> omega

theorem int32_addSaturating (value : Nat) {delta : Int} (low : -0x80000000 ≤ delta) (high : delta < 0x80000000) :
    int32 (eventAddSaturating value delta) = saturate (int32 value + delta) := by
  obtain ⟨least, most⟩ := int32_range value
  generalize is : int32 value = v at least most
  unfold eventAddSaturating saturate
  rw [is]
  dsimp only
  have wrapped : int32 (word32 (v + delta)) = v + delta ∨ int32 (word32 (v + delta)) = v + delta - 4294967296 ∨
      int32 (word32 (v + delta)) = v + delta + 4294967296 := by
    unfold int32 word32
    split <;> omega
  obtain ⟨bottom, top⟩ := int32_range (word32 (v + delta))
  generalize int32 (word32 (v + delta)) = r at wrapped bottom top
  split_ifs with high' low'
  · have : int32 0x7FFFFFFF = 0x7FFFFFFF := by decide
    omega
  · have : int32 0x80000000 = -0x80000000 := by decide
    omega
  · rw [int32_word32 bottom top]
    omega

/-! ### The queue of one event -/

/-- The value is in the range a process waits for. -/
def Fits (k : Kernel) (i : Int) (w : Nat) : Prop :=
  int32 (k.desc.get32 w Desc.evMin) ≤ i ∧ i ≤ int32 (k.desc.get32 w Desc.evMax)

/-- One wait increment. -/
def advance (k : Kernel) (slot : Nat) (i : Int) : Int := saturate (i + int16 (k.events slot).incW)

/-- Where the saved d1 of a process is. -/
def d1At (k : Kernel) (w : Nat) : Nat := k.desc.get32 w Desc.savedSp + frameRegD1 * 4

/-- `queue` waits on the event in order, `ready` is the ready queue; every waiting process is one
with a frame of its own. -/
structure Waiting (k : Kernel) (slot : Nat) (queue ready : List Nat) : Prop where
  chain : Linked (nextOf k.desc) 0 (k.events slot).qNext queue
  tail : (k.events slot).qPrev = queue.getLast?.getD 0
  lined : Queue k.desc readyQ ready
  apart : ∀ w ∈ queue, w ∉ readyQ :: ready
  small : ∀ w ∈ queue, w < 4294967296
  process : ∀ w ∈ queue, k.procIdForDesc w ≠ 0 ∧ k.desc.get32 w Desc.savedSp ≠ 0
  frames : queue.Pairwise (fun a b => d1At k a + 4 ≤ d1At k b ∨ d1At k b + 4 ≤ d1At k a)

theorem eventValueInRange_iff (k : Kernel) (value w : Nat) :
    eventValueInRange value (k.desc.get32 w Desc.evMin) (k.desc.get32 w Desc.evMax) = true ↔ Fits k (int32 value) w := by
  unfold eventValueInRange Fits
  simp

/-- The search finds the first process that fits. -/
theorem dequeueWalk_first {k : Kernel} (slot value : Nat) {fuel prev node : Nat} {l : List Nat}
    (chain : Linked (nextOf k.desc) 0 node l) (short : l.length < fuel) :
    ((∀ a ∈ l, ¬ Fits k (int32 value) a) ∧ k.dequeueWalk slot value fuel prev node = (0, k)) ∨
      ∃ front n back, l = front ++ n :: back ∧ (∀ b ∈ front, ¬ Fits k (int32 value) b) ∧ Fits k (int32 value) n ∧
        k.dequeueWalk slot value fuel prev node = (n, k.eventTakeOut slot (front.getLast?.getD prev) n) := by
  induction fuel generalizing prev node l with
  | zero => omega
  | succ fuel ih =>
    rw [Kernel.dequeueWalk]
    cases l with
    | nil =>
      rw [if_pos (show node = 0 from chain)]
      exact .inl ⟨fun _ member => absurd member List.not_mem_nil, rfl⟩
    | cons n rest =>
      obtain ⟨rfl, live, onward⟩ := chain
      rw [if_neg live]
      by_cases here : Fits k (int32 value) node
      · rw [if_pos ((eventValueInRange_iff k value node).mpr here)]
        exact .inr ⟨[], node, rest, rfl, fun _ member => absurd member List.not_mem_nil, here, rfl⟩
      · rw [if_neg (fun inside => here ((eventValueInRange_iff k value node).mp inside))]
        rw [List.length_cons] at short
        rcases ih onward (by omega) with ⟨nobody, none⟩ | ⟨front, n, back, rfl, before, fits, found⟩
        · refine .inl ⟨?_, none⟩
          intro a member
          rcases List.mem_cons.mp member with rfl | later
          · exact here
          · exact nobody a later
        · refine .inr ⟨node :: front, n, back, rfl, ?_, fits, ?_⟩
          · intro a member
            rcases List.mem_cons.mp member with rfl | later
            · exact here
            · exact before a later
          · rw [List.getLast?_cons, Option.getD_some]
            exact found

theorem Waiting.short {k : Kernel} {slot : Nat} {queue ready : List Nat} (waiting : Waiting k slot queue ready) :
    queue.length < queueLimit := by
  -- 0 is no node, so there is one address to spare
  have nodup : (0 :: queue).Nodup :=
    List.nodup_cons.mpr ⟨fun zero => waiting.chain.ne_null zero rfl, waiting.chain.nodup⟩
  have bound := length_le_of_small nodup (n := 4294967296) (by
    intro a member
    rcases List.mem_cons.mp member with rfl | later
    · decide
    · exact waiting.small a later)
  rw [ModDir.queueLimit_eq]
  exact bound

/-! ### One process is woken -/

theorem eventTakeOut_agree (k : Kernel) (slot prev node : Nat) :
    Agree (fun o => ¬ LinkOff o) k.desc (k.eventTakeOut slot prev node).desc := by
  have apart : ∀ x, ¬ LinkOff x → x < Desc.next ∨ Desc.next + 4 ≤ x := by
    intro x outside
    unfold LinkOff at outside
    unfold Desc.next
    omega
  unfold Kernel.eventTakeOut Kernel.setEvent
  dsimp only
  split
  · exact Agree.rfl.set32 _ _ apart
  · exact (Agree.rfl.set32 _ _ apart).set32 _ _ apart

theorem procIdForDesc_congr {k k' : Kernel} (agree : Agree (fun o => ¬ QueueOff o) k.desc k'.desc)
    (base : k'.poolBase = k.poolBase) (count : k'.poolCount = k.poolCount) (w : Nat) :
    k'.procIdForDesc w = k.procIdForDesc w := by
  have state := agree.get8 w (o := Desc.state) (by unfold QueueOff LinkOff Desc.state; omega)
  unfold Kernel.procIdForDesc Kernel.procIsAllocated
  rw [base, count, state]

theorem savedSp_congr {h h' : Heap} (agree : Agree (fun o => ¬ QueueOff o) h h') (w : Nat) :
    h'.get32 w Desc.savedSp = h.get32 w Desc.savedSp :=
  agree.get32 w (by
    intro x low high
    unfold Desc.savedSp at low high
    unfold QueueOff LinkOff
    omega)

theorem fits_congr {k k' : Kernel} (agree : Agree (fun o => ¬ QueueOff o) k.desc k'.desc) : Fits k' = Fits k := by
  funext i w
  unfold Fits
  rw [agree.get32 w (by
    intro x low high
    unfold Desc.evMin at low high
    unfold QueueOff LinkOff
    omega), agree.get32 w (by
    intro x low high
    unfold Desc.evMax at low high
    unfold QueueOff LinkOff
    omega)]

/-- The kernel after `node`, which stands behind `front`, is woken with `value`. -/
def woken (k : Kernel) (slot : Nat) (front : List Nat) (node value : Nat) : Kernel :=
  { k.eventTakeOut slot (front.getLast?.getD 0) node with
    desc := schedInsert (k.eventTakeOut slot (front.getLast?.getD 0) node).desc node
    ram := k.ram.setU32 (d1At k node) value }

theorem woken_agree (k : Kernel) (slot : Nat) (front : List Nat) (node value : Nat) :
    Agree (fun o => ¬ QueueOff o) k.desc (woken k slot front node value).desc :=
  ((eventTakeOut_agree k slot (front.getLast?.getD 0) node).weaken (fun _ outside link => outside (.inl link))).trans
    (schedInsert_agree _ _)

section Woken
variable {k : Kernel} {slot node value : Nat} {front back ready : List Nat}

theorem eventWakeOne_eq (waiting : Waiting k slot (front ++ node :: back) ready) :
    (k.eventTakeOut slot (front.getLast?.getD 0) node).eventWakeOne node value = woken k slot front node value := by
  have queued : node ∈ front ++ node :: back := by simp
  obtain ⟨known, saved⟩ := waiting.process node queued
  have live := waiting.chain.ne_null queued
  have agree : Agree (fun o => ¬ QueueOff o) k.desc (k.eventTakeOut slot (front.getLast?.getD 0) node).desc :=
    (eventTakeOut_agree k slot _ node).weaken (fun _ outside link => outside (.inl link))
  have same := savedSp_congr agree node
  have known' : (k.eventTakeOut slot (front.getLast?.getD 0) node).procIdForDesc node ≠ 0 := by
    rw [procIdForDesc_congr agree rfl rfl]
    exact known
  unfold woken
  generalize moved : k.eventTakeOut slot (front.getLast?.getD 0) node = k₁ at *
  have ram : k₁.ram = k.ram := by
    rw [← moved]
    rfl
  unfold Kernel.eventWakeOne Kernel.procAProc
  dsimp only
  rw [if_neg (by
    rintro (zero | zero)
    · exact live zero
    · exact known' zero), if_neg (by rw [same]; exact saved), same, ram]
  rfl

/-- The last one in front is a node of the queue. -/
theorem last_mem_front (some_front : front.getLast?.getD 0 ≠ 0) : front.getLast?.getD 0 ∈ front := by
  cases last : front.getLast? with
  | none => simp [last] at some_front
  | some p => exact List.mem_of_getLast? last

theorem takeOut_nextOf (waiting : Waiting k slot (front ++ node :: back) ready) {c : Nat} (out : c ∉ front ++ node :: back) :
    nextOf (k.eventTakeOut slot (front.getLast?.getD 0) node).desc c = nextOf k.desc c := by
  apply eventTakeOut_next
  · rintro some_front rfl
    exact out (List.mem_append_left _ (last_mem_front some_front))
  · rintro rfl
    exact out (by simp)

theorem takeOut_ready (waiting : Waiting k slot (front ++ node :: back) ready) :
    Queue (k.eventTakeOut slot (front.getLast?.getD 0) node).desc readyQ ready := by
  refine Cyclic.congr waiting.lined (fun c inside => ?_) (fun c _ => eventTakeOut_prev _ _ _ _)
  apply takeOut_nextOf waiting
  intro queued
  exact waiting.apart c queued inside

theorem sub_queue : (front ++ back).Sublist (front ++ node :: back) :=
  List.Sublist.append_left (List.sublist_cons_self _ _) _

theorem node_not_mem (waiting : Waiting k slot (front ++ node :: back) ready) : node ∉ front ++ back := by
  have nodup := waiting.chain.nodup
  rw [List.nodup_middle, List.nodup_cons] at nodup
  exact nodup.1

theorem wake (waiting : Waiting k slot (front ++ node :: back) ready) :
    Waiting (woken k slot front node value) slot (front ++ back) (ready ++ [node]) := by
  have queued : node ∈ front ++ node :: back := by simp
  have fresh := waiting.apart node queued
  have fits := waiting.small node queued
  have lined := takeOut_ready waiting
  have agree := woken_agree k slot front node value
  obtain ⟨chain, tail⟩ := takeOut_linked waiting.chain waiting.tail
  have others : ∀ w ∈ front ++ back, w ≠ node ∧ w ∉ readyQ :: ready := by
    intro w member
    refine ⟨?_, waiting.apart w (sub_queue.subset member)⟩
    rintro rfl
    exact node_not_mem waiting member
  refine ⟨?_, tail, lined.schedInsert fits fresh, ?_, ?_, ?_, ?_⟩
  · refine chain.congr (fun c member => ?_)
    exact lined.schedInsert_outside fits (others c member).2 (others c member).1
  · intro w member inside
    obtain ⟨other, out⟩ := others w member
    simp only [List.mem_cons, List.mem_append, List.not_mem_nil, or_false] at inside out
    tauto
  · intro w member
    exact waiting.small w (sub_queue.subset member)
  · intro w member
    obtain ⟨known, saved⟩ := waiting.process w (sub_queue.subset member)
    rw [procIdForDesc_congr agree rfl rfl, savedSp_congr agree]
    exact ⟨known, saved⟩
  · have frames := waiting.frames.sublist sub_queue
    unfold d1At at frames ⊢
    simp only [savedSp_congr agree]
    exact frames

end Woken

/-- The frame of the process woken is none of those still waiting. -/
theorem frames_apart {k : Kernel} {slot node : Nat} {front back ready : List Nat}
    (waiting : Waiting k slot (front ++ node :: back) ready) {w : Nat} (member : w ∈ front ++ back) :
    d1At k node + 4 ≤ d1At k w ∨ d1At k w + 4 ≤ d1At k node := by
  have symmetric : Std.Symm (fun a b => d1At k a + 4 ≤ d1At k b ∨ d1At k b + 4 ≤ d1At k a) := ⟨fun _ _ => Or.symm⟩
  refine waiting.frames.forall (by simp) (sub_queue.subset member) ?_
  rintro rfl
  exact node_not_mem waiting member

theorem int32_mod (value : Nat) : int32 (value % 4294967296) = int32 value := by
  unfold int32
  rw [Nat.mod_mod]
  push_cast
  rw [Int.emod_emod]

/-- The event takes the value the next round goes by. -/
def moved (k : Kernel) (slot : Nat) (front : List Nat) (node value : Nat) : Kernel :=
  (woken k slot front node value).setEvent slot
    { (woken k slot front node value).events slot with
      value := eventAddSaturating value (int16 (k.events slot).incW) }

theorem moved_slot (k : Kernel) (slot : Nat) (front : List Nat) (node value : Nat) :
    (moved k slot front node value).events slot =
      { (woken k slot front node value).events slot with
        value := eventAddSaturating value (int16 (k.events slot).incW) } := if_pos rfl

theorem woken_incW (k : Kernel) (slot : Nat) (front : List Nat) (node value : Nat) :
    ((woken k slot front node value).events slot).incW = (k.events slot).incW := by
  unfold woken Kernel.eventTakeOut Kernel.setEvent
  dsimp only
  rw [if_pos rfl]
  split <;> split <;> rfl

theorem moved_waiting {k : Kernel} {slot node value : Nat} {front back ready : List Nat}
    (waiting : Waiting k slot (front ++ node :: back) ready) :
    Waiting (moved k slot front node value) slot (front ++ back) (ready ++ [node]) := by
  obtain ⟨chain, tail, lined, apart, small, process, frames⟩ := @wake k slot node value front back ready waiting
  refine ⟨?_, ?_, lined, apart, small, process, frames⟩
  · rw [moved_slot]
    exact chain
  · rw [moved_slot]
    exact tail

/-! ### The rounds of a signal -/

/-- What rounds leave of an event, its queue, the ready queue and the frames of those woken. -/
structure Served (k : Kernel) (slot : Nat) (ready : List Nat) (served : List (Nat × Int)) (final : Int) (rest : List Nat)
    (k' : Kernel) : Prop where
  chain : Linked (nextOf k'.desc) 0 (k'.events slot).qNext rest
  tail : (k'.events slot).qPrev = rest.getLast?.getD 0
  lined : Queue k'.desc readyQ (ready ++ served.map Prod.fst)
  value : int32 (k'.events slot).value = final
  told : ∀ w i, (w, i) ∈ served → int32 (k'.ram.getU32 (d1At k w)) = i

/-- The signal loop of `Q9K_EventSignalCommon`. -/
theorem signalRounds_served {k : Kernel} {slot value : Nat} {queue ready : List Nat} (n : Nat)
    (waiting : Waiting k slot queue ready) (here : int32 (k.events slot).value = int32 value) :
    ∃ served final rest, Rounds (Fits k) (advance k slot) (int32 value) queue served final rest ∧ served.length ≤ n ∧
      (served.length < n → ∀ b ∈ rest, ¬ Fits k final b) ∧
      Served k slot ready served final rest (k.signalRounds slot value n) ∧
      ∀ x, (∀ w ∈ queue, x < d1At k w ∨ d1At k w + 4 ≤ x) → (k.signalRounds slot value n).ram x = k.ram x := by
  induction n generalizing k value queue ready with
  | zero =>
    refine ⟨[], int32 value, queue, .stop _ _, le_refl _, nofun, ⟨waiting.chain, waiting.tail, ?_, here, nofun⟩, fun _ _ => rfl⟩
    rw [List.map_nil, List.append_nil]
    exact waiting.lined
  | succ n ih =>
    rw [Kernel.signalRounds]
    unfold Kernel.eventDequeueInRange
    rcases dequeueWalk_first slot value waiting.chain waiting.short with ⟨nobody, none⟩ | ⟨front, node, back, is, before, fits, found⟩
    · rw [none]
      dsimp only
      rw [if_pos rfl]
      refine ⟨[], int32 value, queue, .stop _ _, Nat.zero_le _, fun _ => nobody,
        ⟨waiting.chain, waiting.tail, ?_, here, nofun⟩, fun _ _ => rfl⟩
      rw [List.map_nil, List.append_nil]
      exact waiting.lined
    · subst is
      have live : node ≠ 0 := waiting.chain.ne_null (by simp)
      have agree : Agree (fun o => ¬ QueueOff o) k.desc (moved k slot front node value).desc :=
        woken_agree k slot front node value
      have incW : ((k.eventTakeOut slot (front.getLast?.getD 0) node).events slot).incW = (k.events slot).incW :=
        woken_incW k slot front node value
      have next : int32 (eventAddSaturating value (int16 (k.events slot).incW)) = advance k slot (int32 value) := by
        obtain ⟨low, high⟩ := int16_range (k.events slot).incW
        exact int32_addSaturating value (by omega) (by omega)
      have d1Same : d1At (moved k slot front node value) = d1At k := by
        funext w
        unfold d1At
        rw [savedSp_congr agree]
      have advanceSame : advance (moved k slot front node value) slot = advance k slot := by
        funext i
        unfold advance
        rw [moved_slot, woken_incW]
      rw [found]
      dsimp only
      rw [if_neg live, eventWakeOne_eq waiting, incW]
      show ∃ served final rest, _ ∧ _ ∧ _ ∧ Served _ _ _ _ _ _ ((moved k slot front node value).signalRounds slot _ n) ∧ _
      have now : int32 ((moved k slot front node value).events slot).value =
          int32 (eventAddSaturating value (int16 (k.events slot).incW)) := by rw [moved_slot]
      obtain ⟨served, final, rest, rounds, few, done, ⟨chain, tail, lined, last, told⟩, frame⟩ :=
        ih (moved_waiting waiting) now
      rw [fits_congr agree, advanceSame, next] at rounds
      rw [fits_congr agree] at done
      rw [d1Same] at told frame
      have mine : int32 (((moved k slot front node value).signalRounds slot
          (eventAddSaturating value (int16 (k.events slot).incW)) n).ram.getU32 (d1At k node)) = int32 value := by
        rw [Mem.getU32_congr (fun x low high => frame x (by
          intro w member
          have apart := frames_apart waiting member
          omega))]
        show int32 ((k.ram.setU32 (d1At k node) value).getU32 (d1At k node)) = _
        rw [Mem.getU32_setU32, int32_mod]
      refine ⟨(node, int32 value) :: served, final, rest, .serve before fits rounds, Nat.succ_le_succ few,
        fun more => done (Nat.lt_of_succ_lt_succ more), ⟨chain, tail, ?_, last, ?_⟩, ?_⟩
      · rw [List.map_cons, List.append_cons]
        exact lined
      · intro w i member
        rcases List.mem_cons.mp member with same | later
        · obtain ⟨rfl, rfl⟩ := Prod.mk.inj same
          exact mine
        · exact told w i later
      · intro x apart
        refine (frame x (fun w member => apart w (sub_queue.subset member))).trans ?_
        exact Mem.setU32_outside _ _ (apart node (by simp))

/-! ### The calls -/

/-- Ev$Signl, Ev$Set and Ev$SetR. -/
inductive Op where
  | signal
  | set (value : UInt32)
  | setRelative (delta : UInt32)

def Op.call (k : Kernel) (id : Nat) (wakeAll : Bool) : Op → Except Nat Nat × Kernel
  | .signal => k.eventSignal id wakeAll
  | .set value => k.eventSet id value.toNat wakeAll
  | .setRelative delta => k.eventSetRelative id (int32 delta.toNat) wakeAll

/-- The value the event is to take. -/
def Op.value (k : Kernel) (slot : Nat) : Op → Int
  | .signal => saturate (int32 (k.events slot).value + int16 (k.events slot).incS)
  | .set value => int32 value.toNat
  | .setRelative delta => saturate (int32 (k.events slot).value + int32 delta.toNat)

/-- The first process that fits is woken, with the MS bit one after another until none fits; the
value has moved on by one increment for each. -/
def Signalled (k : Kernel) (slot : Nat) (v : Int) (wakeAll : Bool) (queue ready : List Nat) (k' : Kernel) : Prop :=
  ∃ served final rest, Rounds (Fits k) (advance k slot) v queue served final rest ∧
    final = (advance k slot)^[served.length] v ∧
    (if wakeAll then ∀ b ∈ rest, ¬ Fits k final b
      else served.length ≤ 1 ∧ (served = [] → ∀ b ∈ queue, ¬ Fits k v b)) ∧
    Served k slot ready served final rest k'

/-- Not more processes are due than the loop has rounds. -/
def Few (k : Kernel) (slot : Nat) (v : Int) (queue : List Nat) : Prop :=
  ∃ served final rest, Rounds (Fits k) (advance k slot) v queue served final rest ∧ (∀ b ∈ rest, ¬ Fits k final b) ∧
    served.length ≤ eventSlots * 4 + 1

/-- The event with its new value, before anybody is woken. -/
def stored (k : Kernel) (slot v : Nat) : Kernel := k.setEvent slot { k.events slot with value := v }

theorem stored_waiting {k : Kernel} {slot : Nat} {queue ready : List Nat} (waiting : Waiting k slot queue ready) (v : Nat) :
    Waiting (stored k slot v) slot queue ready := by
  have slotted : (stored k slot v).events slot = { k.events slot with value := v } := if_pos rfl
  obtain ⟨chain, tail, lined, apart, small, process, frames⟩ := waiting
  refine ⟨?_, ?_, lined, apart, small, process, frames⟩
  · rw [slotted]
    exact chain
  · rw [slotted]
    exact tail

theorem eventSignalCommon_eq {k : Kernel} {id slot : Nat} (found : k.eventFindById id = some slot) (v : Nat) (wakeAll : Bool) :
    (k.eventSignalCommon id v false wakeAll).2 =
      (stored k slot v).signalRounds slot v (if wakeAll then eventSlots * 4 + 1 else 1) := by
  unfold Kernel.eventSignalCommon
  rw [found]
  rfl

theorem Op.call_eq {k : Kernel} {id slot : Nat} (found : k.eventFindById id = some slot) (wakeAll : Bool) (op : Op) :
    ∃ v, int32 v = op.value k slot ∧
      (op.call k id wakeAll).2 = (stored k slot v).signalRounds slot v (if wakeAll then eventSlots * 4 + 1 else 1) := by
  cases op with
  | signal =>
    obtain ⟨low, high⟩ := int16_range (k.events slot).incS
    refine ⟨_, int32_addSaturating _ (by omega) (by omega), ?_⟩
    unfold Op.call Kernel.eventSignal
    rw [found]
    exact eventSignalCommon_eq found _ wakeAll
  | set value => exact ⟨_, rfl, eventSignalCommon_eq found _ wakeAll⟩
  | setRelative delta =>
    obtain ⟨low, high⟩ := int32_range delta.toNat
    refine ⟨_, int32_addSaturating _ low high, ?_⟩
    unfold Op.call Kernel.eventSetRelative
    rw [found]
    exact eventSignalCommon_eq found _ wakeAll

/-- What a call does: rounds until nobody fits or all rounds are used up. -/
theorem Op.call_served {k : Kernel} {id slot : Nat} {queue ready : List Nat} (found : k.eventFindById id = some slot)
    (waiting : Waiting k slot queue ready) (wakeAll : Bool) (op : Op) :
    ∃ served final rest, Rounds (Fits k) (advance k slot) (op.value k slot) queue served final rest ∧
      served.length ≤ (if wakeAll then eventSlots * 4 + 1 else 1) ∧
      (served.length < (if wakeAll then eventSlots * 4 + 1 else 1) → ∀ b ∈ rest, ¬ Fits k final b) ∧
      Served k slot ready served final rest (op.call k id wakeAll).2 := by
  obtain ⟨v, is, made⟩ := op.call_eq found wakeAll
  have slotted : (stored k slot v).events slot = { k.events slot with value := v } := if_pos rfl
  have now : int32 ((stored k slot v).events slot).value = int32 v := by rw [slotted]
  obtain ⟨served, final, rest, rounds, few, done, ⟨chain, tail, lined, value, told⟩, -⟩ :=
    signalRounds_served (if wakeAll then eventSlots * 4 + 1 else 1) (stored_waiting waiting v) now
  have advanceSame : advance (stored k slot v) slot = advance k slot := by
    funext i
    unfold advance
    rw [slotted]
  rw [advanceSame, is] at rounds
  rw [made]
  exact ⟨served, final, rest, rounds, few, done, ⟨chain, tail, lined, value, told⟩⟩

/-- Whoever is due is woken, in order and with the right values, exactly when the loop has rounds
enough for all who are due. -/
theorem event_wakes_iff {k : Kernel} {id slot : Nat} {queue ready : List Nat} (found : k.eventFindById id = some slot)
    (waiting : Waiting k slot queue ready) (wakeAll : Bool) (op : Op) :
    Signalled k slot (op.value k slot) wakeAll queue ready (op.call k id wakeAll).2 ↔
      (wakeAll = true → Few k slot (op.value k slot) queue) := by
  obtain ⟨served, final, rest, rounds, few, done, result⟩ := op.call_served found waiting wakeAll
  cases wakeAll with
  | false =>
    refine iff_of_true ⟨served, final, rest, rounds, rounds.value, ⟨few, ?_⟩, result⟩ nofun
    rintro rfl
    have nobody := done (by decide)
    cases rounds
    exact nobody
  | true =>
    have few : served.length ≤ eventSlots * 4 + 1 := few
    constructor
    · rintro ⟨served', final', rest', rounds', -, nobody, result'⟩ -
      refine ⟨served', final', rest', rounds', nobody, ?_⟩
      have same := result.chain.unique result'.chain
      have lengths := rounds.length
      have lengths' := rounds'.length
      rw [same] at lengths
      omega
    · intro enough
      obtain ⟨served', final', rest', rounds', nobody', few'⟩ := enough rfl
      refine ⟨served, final, rest, rounds, rounds.value, ?_, result⟩
      by_cases early : served.length < eventSlots * 4 + 1
      · exact done early
      · obtain ⟨shorter, equal⟩ := rounds'.longest nobody' rounds
        obtain ⟨-, rfl, rfl⟩ := equal (by omega)
        exact nobody'

/-! ### A crowd on one event -/

/-- The descriptors of the pool at 0x100000. -/
def crowdAt (i : Nat) : Nat := 0x100000 + i * Desc.size

def crowdNext (n b : Nat) : Nat := if b + Desc.size < crowdAt n then b + Desc.size else 0

/-- A sentinel of an empty queue. -/
def loopMem : Mem := (((Kernel.zeroed 0 0).ram.setU32 Desc.next readyQ).setU32 Desc.prev readyQ)

/-- A process that waits for the value 0 with a frame at the address of its descriptor. -/
def waiterMem (next b : Nat) : Mem :=
  (((Kernel.zeroed 0 0).ram.setU32 Desc.savedSp b).setU8 Desc.state stateActive).setU32 Desc.next next

def crowd (n : Nat) : Kernel :=
  { Kernel.zeroed 0x100000 n with
    desc := fun b => if b = readyQ then loopMem else waiterMem (crowdNext n b) b
    events := fun i => if i = 0 then ⟨1, [], 0, 0, 0, 0, crowdAt 0, crowdAt (n - 1)⟩ else ⟨0, [], 0, 0, 0, 0, 0, 0⟩ }

def crowdIds (n : Nat) : List Nat := (List.range n).map crowdAt

theorem crowdAt_ne (i : Nat) : crowdAt i ≠ readyQ := by
  unfold crowdAt readyQ
  omega

section Crowd
variable {n : Nat}

theorem crowd_desc (i : Nat) : (crowd n).desc (crowdAt i) = waiterMem (crowdNext n (crowdAt i)) (crowdAt i) :=
  if_neg (crowdAt_ne i)

theorem crowd_get32 (i : Nat) {o : Nat} (apart : o + 4 ≤ Desc.savedSp ∨ Desc.prev ≤ o) :
    (crowd n).desc.get32 (crowdAt i) o = 0 := by
  unfold Heap.get32
  rw [crowd_desc, waiterMem]
  simp only [Desc.savedSp, Desc.prev] at apart
  simp only [Desc.savedSp, Desc.state, Desc.next]
  rw [Mem.getU32_setU32_apart _ _ (by omega), Mem.getU32_setU8_apart _ _ (by omega), Mem.getU32_setU32_apart _ _ (by omega)]
  simp [Mem.getU32, Mem.getU16, Mem.getU8, Kernel.zeroed]

theorem crowd_fits_iff (v : Int) (i : Nat) : Fits (crowd n) v (crowdAt i) ↔ v = 0 := by
  have zero : int32 0 = 0 := by decide
  unfold Fits
  rw [crowd_get32 i (by decide), crowd_get32 i (by decide), zero]
  omega

theorem crowd_fits (i : Nat) : Fits (crowd n) 0 (crowdAt i) := (crowd_fits_iff 0 i).mpr rfl

theorem crowd_advance : advance (crowd n) 0 0 = 0 := by
  show saturate (0 + int16 0) = 0
  decide

theorem crowd_next (fits : crowdAt n < 4294967296) (i : Nat) : nextOf (crowd n).desc (crowdAt i) = crowdNext n (crowdAt i) := by
  unfold nextOf Heap.get32
  rw [crowd_desc, waiterMem]
  refine Mem.getU32_setU32_of_lt _ _ ?_
  unfold crowdNext
  split <;> omega

theorem crowdAt_lt (fits : crowdAt n < 4294967296) {i : Nat} (inside : i < n) : crowdAt i < 4294967296 := by
  unfold crowdAt at fits ⊢
  have := Nat.mul_le_mul_right Desc.size inside.le
  omega

theorem crowd_savedSp (fits : crowdAt n < 4294967296) {i : Nat} (inside : i < n) :
    (crowd n).desc.get32 (crowdAt i) Desc.savedSp = crowdAt i := by
  unfold Heap.get32
  rw [crowd_desc, waiterMem, Mem.getU32_setU32_apart _ _ (by decide), Mem.getU32_setU8_apart _ _ (by decide)]
  exact Mem.getU32_setU32_of_lt _ _ (crowdAt_lt fits inside)

/-- The chain goes on from the `i`th process. -/
theorem crowd_linked (fits : crowdAt n < 4294967296) {i m : Nat} (all : i + (m + 1) = n) :
    Linked (nextOf (crowd n).desc) 0 (crowdAt i) ((List.range' i (m + 1)).map crowdAt) := by
  induction m generalizing i with
  | zero =>
    refine ⟨rfl, by unfold crowdAt; omega, ?_⟩
    show nextOf _ _ = 0
    rw [crowd_next fits, crowdNext, if_neg]
    subst all
    unfold crowdAt Desc.size
    omega
  | succ m ih =>
    rw [List.range'_succ, List.map_cons]
    refine ⟨rfl, by unfold crowdAt; omega, ?_⟩
    have onward : nextOf (crowd n).desc (crowdAt i) = crowdAt (i + 1) := by
      have step : crowdAt i + Desc.size = crowdAt (i + 1) := by
        unfold crowdAt
        ring
      rw [crowd_next fits, crowdNext, step, if_pos]
      unfold crowdAt Desc.size
      omega
    rw [onward]
    exact ih (by omega)

theorem crowd_lined : Queue (crowd n).desc readyQ [] := by
  have sentinel : (crowd n).desc readyQ = loopMem := by
    unfold crowd
    dsimp only
    rw [if_pos rfl]
  refine ⟨⟨?_, ?_⟩, List.nodup_singleton _⟩
  · unfold nextOf Heap.get32
    rw [sentinel]
    decide
  · unfold prevOf Heap.get32
    rw [sentinel]
    decide

theorem crowd_process {i : Nat} (inside : i < n) (few : n < 65536) : (crowd n).procIdForDesc (crowdAt i) ≠ 0 := by
  have base : (crowd n).poolBase = 0x100000 := rfl
  have count : (crowd n).poolCount = n := rfl
  have allocated : (crowd n).procIsAllocated (crowdAt i) = true := by
    have letter : (crowd n).desc.get8 (crowdAt i) Desc.state = stateActive := by
      unfold Heap.get8
      rw [crowd_desc, waiterMem, Mem.getU8_setU32_apart _ _ (by decide), Mem.getU8_setU8]
      decide
    unfold Kernel.procIsAllocated
    rw [letter]
    decide
  unfold Kernel.procIdForDesc
  rw [base, count, allocated, if_neg (by unfold crowdAt; omega)]
  unfold crowdAt Desc.size
  rw [if_neg (by simp; omega)]
  omega

theorem crowd_waiting (fits : crowdAt n < 4294967296) (somebody : 0 < n) (few : n < 65536) :
    Waiting (crowd n) 0 (crowdIds n) [] := by
  have member : ∀ {w}, w ∈ crowdIds n → ∃ i < n, crowdAt i = w := by
    intro w inside
    simpa [crowdIds] using inside
  refine ⟨?_, ?_, crowd_lined, ?_, ?_, ?_, ?_⟩
  · obtain ⟨m, rfl⟩ := Nat.exists_eq_add_of_lt somebody
    rw [crowdIds, List.range_eq_range']
    exact crowd_linked fits (by omega)
  · rw [crowdIds, List.getLast?_map, List.getLast?_range, if_neg (by omega)]
    rfl
  · intro w inside
    obtain ⟨i, -, rfl⟩ := member inside
    simpa using crowdAt_ne i
  · intro w inside
    obtain ⟨i, less, rfl⟩ := member inside
    exact crowdAt_lt fits less
  · intro w inside
    obtain ⟨i, less, rfl⟩ := member inside
    rw [crowd_savedSp fits less]
    exact ⟨crowd_process less few, by unfold crowdAt; omega⟩
  · unfold crowdIds
    rw [List.pairwise_map]
    refine List.Pairwise.imp_of_mem ?_ List.pairwise_lt_range
    intro a b left right less
    rw [d1At, d1At, crowd_savedSp fits (List.mem_range.mp left), crowd_savedSp fits (List.mem_range.mp right)]
    unfold crowdAt Desc.size
    omega

theorem crowd_rounds : Rounds (Fits (crowd n)) (advance (crowd n) 0) 0 (crowdIds n) ((crowdIds n).map fun w => (w, 0)) 0 [] := by
  refine Rounds.everybody ?_ crowd_advance
  intro w inside
  obtain ⟨i, -, rfl⟩ := List.mem_map.mp inside
  exact crowd_fits i

end Crowd

/-- Two processes are both woken. -/
theorem event_wakes_both : Signalled (crowd 2) 0 0 true (crowdIds 2) [] ((Op.set 0).call (crowd 2) 0x10000 true).2 :=
  (event_wakes_iff (by decide) (crowd_waiting (by decide) (by decide) (by decide)) true (.set 0)).mpr
    (fun _ => ⟨_, _, _, crowd_rounds, nofun, by decide⟩)

/-- Of 66 processes the last one stays, though the value suits it. -/
theorem event_wakes_not_all : ¬ ∀ (k : Kernel) (id slot : Nat) (queue ready : List Nat) (wakeAll : Bool) (op : Op),
    k.eventFindById id = some slot → Waiting k slot queue ready →
      Signalled k slot (op.value k slot) wakeAll queue ready (op.call k id wakeAll).2 := by
  intro all
  have found : (crowd 66).eventFindById 0x10000 = some 0 := by decide
  have waiting := @crowd_waiting 66 (by decide) (by decide) (by decide)
  obtain ⟨served, final, rest, rounds, is, nobody, result⟩ := all _ _ _ _ _ true (.set 0) found waiting
  obtain ⟨served', final', rest', rounds', few, -, result'⟩ := Op.call_served found waiting true (.set 0)
  have same := result.chain.unique result'.chain
  have still : final = 0 := by
    have start : (Op.set 0).value (crowd 66) 0 = 0 := by decide
    rw [is, start]
    exact Function.iterate_fixed crowd_advance _
  have gone : rest = [] := by
    refine List.eq_nil_iff_forall_not_mem.mpr (fun w inside => ?_)
    obtain ⟨i, -, rfl⟩ := List.mem_map.mp (rounds.sublist.subset inside)
    apply (show ∀ b ∈ rest, ¬ Fits (crowd 66) final b from nobody) _ inside
    rw [still]
    exact crowd_fits i
  have lengths := rounds'.length
  rw [← same, gone] at lengths
  have total : (crowdIds 66).length = 66 := by decide
  have few : served'.length ≤ 65 := few
  simp only [List.length_nil] at lengths
  omega

/-! ### Ev$Pulse beside Ev$Set -/

/-- The pulse makes the same processes ready in the same order and with the same values as Ev$Set,
and the event has its value back. -/
structure PulseLikeSet (k : Kernel) (slot : Nat) (queue : List Nat) (pulsed set : Kernel) : Prop where
  ready : ∀ nodes, Queue pulsed.desc readyQ nodes ↔ Queue set.desc readyQ nodes
  told : ∀ w ∈ queue, pulsed.ram.getU32 (d1At k w) = set.ram.getU32 (d1At k w)
  back : (pulsed.events slot).value = (k.events slot).value

/-- The pulse wakes nobody. -/
theorem eventPulse_eq {k : Kernel} {id slot : Nat} (found : k.eventFindById id = some slot) (v : Nat) (wakeAll : Bool) :
    (k.eventPulse id v wakeAll).2 = k := by
  unfold Kernel.eventPulse Kernel.eventSignalCommon
  rw [found]
  dsimp only
  rw [if_pos rfl]
  have same : ∀ i, ((stored k slot v).setEvent slot
      { (stored k slot v).events slot with value := (k.events slot).value }).events i = k.events i := by
    intro i
    unfold stored Kernel.setEvent
    dsimp only
    split
    · next here =>
      rw [if_pos rfl, here]
    · rfl
  exact congrArg (fun e => { k with events := e }) (funext same)

theorem signalRounds_nobody {k : Kernel} {slot value : Nat} {queue ready : List Nat} (waiting : Waiting k slot queue ready)
    (nobody : ∀ w ∈ queue, ¬ Fits k (int32 value) w) (n : Nat) : k.signalRounds slot value n = k := by
  cases n with
  | zero => rfl
  | succ n =>
    rw [Kernel.signalRounds]
    unfold Kernel.eventDequeueInRange
    rcases dequeueWalk_first slot value waiting.chain waiting.short with ⟨-, none⟩ | ⟨front, node, back, rfl, -, fits, -⟩
    · rw [none]
      dsimp only
      rw [if_pos rfl]
    · exact absurd fits (nobody node (by simp))

/-- Where the two leave the same ready queue, nobody was due. -/
theorem pulse_nobody {k : Kernel} {id slot : Nat} {queue ready : List Nat} (found : k.eventFindById id = some slot)
    (waiting : Waiting k slot queue ready) (v : UInt32) (wakeAll : Bool)
    (same : PulseLikeSet k slot queue (k.eventPulse id v.toNat wakeAll).2 (k.eventSet id v.toNat wakeAll).2) :
    ∀ w ∈ queue, ¬ Fits k (int32 v.toNat) w := by
  obtain ⟨served, final, rest, rounds, -, done, result⟩ := Op.call_served found waiting wakeAll (.set v)
  have lined := (same.ready ready).mp (by
    rw [eventPulse_eq found]
    exact waiting.lined)
  have none : served = [] := by
    have equal := result.lined.unique lined
    simpa using equal
  subst none
  have early : 0 < (if wakeAll then eventSlots * 4 + 1 else 1) := by
    cases wakeAll <;> decide
  have nobody := done early
  cases rounds
  exact nobody

/-- The pulse does what Ev$Set does exactly when nobody is due. -/
theorem pulse_wakes_iff {k : Kernel} {id slot : Nat} {queue ready : List Nat} (found : k.eventFindById id = some slot)
    (waiting : Waiting k slot queue ready) (v : UInt32) (wakeAll : Bool) :
    PulseLikeSet k slot queue (k.eventPulse id v.toNat wakeAll).2 (k.eventSet id v.toNat wakeAll).2 ↔
      ∀ w ∈ queue, ¬ Fits k (int32 v.toNat) w := by
  refine ⟨pulse_nobody found waiting v wakeAll, fun nobody => ?_⟩
  have set : (k.eventSet id v.toNat wakeAll).2 = stored k slot v.toNat := by
    unfold Kernel.eventSet
    rw [eventSignalCommon_eq found]
    exact signalRounds_nobody (stored_waiting waiting _) nobody _
  rw [set, eventPulse_eq found]
  exact ⟨fun _ => Iff.rfl, fun _ _ => rfl, rfl⟩

/-- Two processes wait for 0, and the value 5 suits neither. -/
theorem pulse_wakes_nobody : PulseLikeSet (crowd 2) 0 (crowdIds 2) ((crowd 2).eventPulse 0x10000 5 true).2
    ((crowd 2).eventSet 0x10000 5 true).2 :=
  (pulse_wakes_iff (by decide) (crowd_waiting (by decide) (by decide) (by decide)) 5 true).mpr (by
    intro w inside fits
    obtain ⟨i, -, rfl⟩ := List.mem_map.mp inside
    exact absurd ((crowd_fits_iff _ i).mp fits) (by decide))

/-- A process waits for 0, and the pulse with 0 leaves it waiting. -/
theorem pulse_misses : ¬ ∀ (k : Kernel) (id slot : Nat) (queue ready : List Nat) (v : UInt32) (wakeAll : Bool),
    k.eventFindById id = some slot → Waiting k slot queue ready →
      PulseLikeSet k slot queue (k.eventPulse id v.toNat wakeAll).2 (k.eventSet id v.toNat wakeAll).2 := by
  intro all
  have found : (crowd 1).eventFindById 0x10000 = some 0 := by decide
  have waiting := @crowd_waiting 1 (by decide) (by decide) (by decide)
  exact pulse_nobody found waiting 0 false (all _ _ _ _ _ 0 false found waiting) (crowdAt 0) (by decide) (crowd_fits 0)

end Q9OS.Wake

import Mathlib.Tactic
import Q9OS.Lib.Chain
import Q9OS.Process.EventIdentity
import Q9OS.Process.Queues
import Q9OS.Process.Tick

/-!
# Waiting processes of events

Runs of F$Event calls and time slices. A process that waits is in the queue of
the event whose ID it named, until a signal takes it out.
-/

namespace Q9OS

/-- The kernel with the processes that wait for events, in the order they came, and the ID each
one waits on. -/
structure Attended where
  kernel : Kernel
  waits : List (Nat × Nat)

/-- Those that wait on the table entry `slot`. -/
def queueOf (slot : Nat) (waits : List (Nat × Nat)) : List Nat :=
  (waits.filter fun w => w.2 % 65536 = slot).map Prod.fst

def without (gone : List Nat) (waits : List (Nat × Nat)) : List (Nat × Nat) := waits.filter fun w => w.1 ∉ gone

theorem queueOf_append (slot p id : Nat) (waits : List (Nat × Nat)) :
    queueOf slot (waits ++ [(p, id)]) = if id % 65536 = slot then queueOf slot waits ++ [p] else queueOf slot waits := by
  unfold queueOf
  rw [List.filter_append, List.map_append]
  split
  · next here => simp [here]
  · next other => simp [other]

theorem queueOf_without (slot : Nat) (gone : List Nat) (waits : List (Nat × Nat)) :
    queueOf slot (without gone waits) = (queueOf slot waits).filter fun p => p ∉ gone := by
  unfold queueOf without
  rw [List.filter_map, List.filter_filter, List.filter_filter]
  congr 1
  apply List.filter_congr
  intro w _
  simp [Bool.and_comm]

theorem without_cons (a : Nat) (gone : List Nat) (waits : List (Nat × Nat)) :
    without gone (without [a] waits) = without (a :: gone) waits := by
  unfold without
  rw [List.filter_filter]
  apply List.filter_congr
  intro w _
  simp [Bool.and_comm]

theorem queueOf_sub (slot : Nat) (waits : List (Nat × Nat)) :
    (queueOf slot waits).Sublist (waits.map Prod.fst) :=
  List.filter_sublist.map _

theorem mem_queueOf {slot p : Nat} {waits : List (Nat × Nat)} (member : p ∈ queueOf slot waits) :
    ∃ id, (p, id) ∈ waits ∧ id % 65536 = slot := by
  obtain ⟨⟨q, id⟩, within, rfl⟩ := List.mem_map.mp member
  obtain ⟨inside, here⟩ := List.mem_filter.mp within
  exact ⟨id, inside, of_decide_eq_true here⟩

/-- Two entries of one process are one. -/
theorem waits_unique {waits : List (Nat × Nat)} (nodup : (waits.map Prod.fst).Nodup) {p id id' : Nat}
    (one : (p, id) ∈ waits) (two : (p, id') ∈ waits) : id = id' :=
  (Prod.mk.inj (List.inj_on_of_nodup_map nodup one two rfl)).2

theorem filter_middle {front back : List Nat} {node : Nat} (nodup : (front ++ node :: back).Nodup) :
    ((front ++ node :: back).filter fun p => p ∉ [node]) = front ++ back := by
  rw [List.nodup_middle, List.nodup_cons, List.mem_append, not_or] at nodup
  obtain ⟨⟨before, after⟩, -⟩ := nodup
  rw [List.filter_append, List.filter_cons_of_neg (by simp)]
  congr 1
  · refine List.filter_eq_self.mpr (fun c member => ?_)
    have other : c ≠ node := fun same => before (same ▸ member)
    simp [other]
  · refine List.filter_eq_self.mpr (fun c member => ?_)
    have other : c ≠ node := fun same => after (same ▸ member)
    simp [other]

/-! ### The queues of the table -/

/-- Ready and waiting processes and those in `loose`, which no queue holds, are all different,
and every waiting process is in the queue of its event. -/
structure Held (k : Kernel) (waits : List (Nat × Nat)) (loose ready : List Nat) : Prop where
  queue : Queue k.desc readyQ ready
  apart : (readyQ :: (loose ++ (ready ++ waits.map Prod.fst))).Nodup
  real : ∀ a ∈ loose ++ (ready ++ waits.map Prod.fst), a ≠ 0 ∧ a < 4294967296
  heads : ∀ slot, slot < eventSlots → Linked (nextOf k.desc) 0 (k.events slot).qNext (queueOf slot waits)
  tails : ∀ slot, slot < eventSlots → (k.events slot).qPrev = (queueOf slot waits).getLast?.getD 0
  known : ∀ w ∈ waits, k.eventFindById w.2 = some (w.2 % 65536)

theorem eventFindById_congr {k k' : Kernel} (ids : ∀ i, (k'.events i).id = (k.events i).id) (id : Nat) :
    k'.eventFindById id = k.eventFindById id := by
  unfold Kernel.eventFindById
  dsimp only
  rw [ids]

theorem eventFindById_low {k : Kernel} {id slot : Nat} (found : k.eventFindById id = some slot) :
    slot = id % 65536 ∧ slot < eventSlots := by
  unfold Kernel.eventFindById at found
  dsimp only at found
  split_ifs at found with high
  exact ⟨(Option.some.inj found).symm, by rw [← Option.some.inj found]; omega⟩

variable {k k' : Kernel} {waits : List (Nat × Nat)} {loose ready : List Nat}

namespace Held

theorem waitsNodup (held : Held k waits loose ready) : (waits.map Prod.fst).Nodup :=
  (List.nodup_append.mp (List.nodup_append.mp (List.nodup_cons.mp held.apart).2).2.1).2.1

theorem queueNodup (held : Held k waits loose ready) (slot : Nat) : (queueOf slot waits).Nodup :=
  held.waitsNodup.sublist (queueOf_sub slot waits)

/-- A waiting process is not ready. -/
theorem outside (held : Held k waits loose ready) {p : Nat} (member : p ∈ waits.map Prod.fst) : p ∉ readyQ :: ready := by
  obtain ⟨sentinel, rest⟩ := List.nodup_cons.mp held.apart
  obtain ⟨-, -, apart⟩ := List.nodup_append.mp (List.nodup_append.mp rest).2.1
  intro inside
  rcases List.mem_cons.mp inside with rfl | among
  · exact sentinel (List.mem_append_right _ (List.mem_append_right _ member))
  · exact apart p among p member rfl

theorem outside_queue (held : Held k waits loose ready) {slot p : Nat} (member : p ∈ queueOf slot waits) :
    p ∉ readyQ :: ready :=
  held.outside ((queueOf_sub slot waits).subset member)

/-- A loose process is in no queue. -/
theorem unqueued (held : Held k waits loose ready) {p : Nat} (member : p ∈ loose) :
    p ∉ readyQ :: ready ∧ p ∉ waits.map Prod.fst := by
  obtain ⟨sentinel, rest⟩ := List.nodup_cons.mp held.apart
  have apart := (List.nodup_append.mp rest).2.2
  rw [List.mem_cons, not_or]
  refine ⟨⟨fun same => ?_, fun within => ?_⟩, fun within => ?_⟩
  · exact sentinel (List.mem_append_left _ (same ▸ member))
  · exact apart p member p (List.mem_append_left _ within) rfl
  · exact apart p member p (List.mem_append_right _ within) rfl

/-- Nothing the queues depend on changes. -/
theorem congr (held : Held k waits loose ready) (desc : k'.desc = k.desc)
    (events : ∀ i, (k'.events i).id = (k.events i).id ∧ (k'.events i).qNext = (k.events i).qNext ∧
      (k'.events i).qPrev = (k.events i).qPrev) : Held k' waits loose ready := by
  obtain ⟨queue, apart, real, heads, tails, known⟩ := held
  refine ⟨by rw [desc]; exact queue, apart, real, fun slot low => ?_, fun slot low => ?_, fun w member => ?_⟩
  · rw [desc, (events slot).2.1]
    exact heads slot low
  · rw [(events slot).2.2]
    exact tails slot low
  · rw [eventFindById_congr (fun i => (events i).1)]
    exact known w member

theorem setEvent (held : Held k waits loose ready) {slot : Nat} {entry : EventSlot} (id : entry.id = (k.events slot).id)
    (head : entry.qNext = (k.events slot).qNext) (tail : entry.qPrev = (k.events slot).qPrev) :
    Held (k.setEvent slot entry) waits loose ready := by
  refine held.congr rfl (fun i => ?_)
  show EventSlot.id (if i = slot then entry else k.events i) = _ ∧
    EventSlot.qNext (if i = slot then entry else k.events i) = _ ∧
    EventSlot.qPrev (if i = slot then entry else k.events i) = _
  split
  · next same =>
    rw [same]
    exact ⟨id, head, tail⟩
  · exact ⟨rfl, rfl, rfl⟩

end Held

/-! ### A process leaves the queue of its event -/

theorem dequeueWalk_cases {slot value fuel prev node : Nat} {l : List Nat} (chain : Linked (nextOf k.desc) 0 node l) :
    k.dequeueWalk slot value fuel prev node = (0, k) ∨
      ∃ front n back, l = front ++ n :: back ∧
        k.dequeueWalk slot value fuel prev node = (n, k.eventTakeOut slot (front.getLast?.getD prev) n) := by
  induction fuel generalizing prev node l with
  | zero => exact Or.inl rfl
  | succ fuel ih =>
    rw [Kernel.dequeueWalk]
    cases l with
    | nil =>
      rw [if_pos (show node = 0 from chain)]
      exact Or.inl rfl
    | cons n rest =>
      obtain ⟨rfl, live, onward⟩ := chain
      rw [if_neg live]
      split
      · exact Or.inr ⟨[], node, rest, rfl, rfl⟩
      · rcases ih onward with none | ⟨front, n, back, rfl, found⟩
        · exact Or.inl none
        · refine Or.inr ⟨node :: front, n, back, rfl, ?_⟩
          rw [List.getLast?_cons, Option.getD_some]
          exact found

theorem eventTakeOut_next {slot prev node c : Nat} (off : prev ≠ 0 → c ≠ prev) (other : c ≠ node) :
    nextOf (k.eventTakeOut slot prev node).desc c = nextOf k.desc c := by
  unfold Kernel.eventTakeOut Kernel.setEvent
  dsimp only
  rw [nextOf_setNext _ _ _ _ (by decide), if_neg other]
  split
  · rfl
  · next some => rw [nextOf_setNext _ _ _ _ (k.desc.get32_lt _ _), if_neg (off some)]

theorem eventTakeOut_prev (slot prev node c : Nat) :
    prevOf (k.eventTakeOut slot prev node).desc c = prevOf k.desc c := by
  unfold Kernel.eventTakeOut Kernel.setEvent
  dsimp only
  rw [prevOf_setNext]
  split
  · rfl
  · rw [prevOf_setNext]

theorem eventTakeOut_events (slot prev node i : Nat) (other : i ≠ slot) :
    (k.eventTakeOut slot prev node).events i = k.events i := if_neg other

/-- Head and tail of a queue that loses `node`. -/
theorem eventTakeOut_slot (slot prev node : Nat) :
    ((k.eventTakeOut slot prev node).events slot).qNext =
        (if prev = 0 then nextOf k.desc node else (k.events slot).qNext) ∧
      ((k.eventTakeOut slot prev node).events slot).qPrev =
        if nextOf k.desc node = 0 then prev else (k.events slot).qPrev := by
  unfold Kernel.eventTakeOut Kernel.setEvent nextOf
  dsimp only
  rw [if_pos rfl]
  split <;> split <;> exact ⟨rfl, rfl⟩

/-- A chain without one of its nodes. -/
theorem takeOut_linked {slot node : Nat} {front back : List Nat}
    (chain : Linked (nextOf k.desc) 0 (k.events slot).qNext (front ++ node :: back))
    (tail : (k.events slot).qPrev = (front ++ node :: back).getLast?.getD 0) :
    Linked (nextOf (k.eventTakeOut slot (front.getLast?.getD 0) node).desc) 0
        ((k.eventTakeOut slot (front.getLast?.getD 0) node).events slot).qNext (front ++ back) ∧
      ((k.eventTakeOut slot (front.getLast?.getD 0) node).events slot).qPrev = (front ++ back).getLast?.getD 0 := by
  obtain ⟨head, last⟩ := eventTakeOut_slot (k := k) slot (front.getLast?.getD 0) node
  have nodup := chain.nodup
  rw [List.nodup_middle, List.nodup_cons, List.mem_append, not_or, List.nodup_append] at nodup
  obtain ⟨⟨notFront, notBack⟩, frontNodup, backNodup, apart⟩ := nodup
  have rest : Linked (nextOf k.desc) 0 (nextOf k.desc node) back := chain.drop.2.2
  have ends : nextOf k.desc node = 0 ↔ back = [] := by
    constructor
    · intro zero
      rw [zero] at rest
      cases back with
      | nil => rfl
      | cons c more => exact absurd rest.1.symm rest.2.1
    · rintro rfl
      exact rest
  have newTail : (if nextOf k.desc node = 0 then front.getLast?.getD 0 else (k.events slot).qPrev) =
      (front ++ back).getLast?.getD 0 := by
    by_cases none : back = []
    · rw [if_pos (ends.mpr none), none, List.append_nil]
    · rw [if_neg (fun zero => none (ends.mp zero)), tail]
      obtain ⟨c, more, rfl⟩ := List.exists_cons_of_ne_nil none
      rw [List.getLast?_append, List.getLast?_append, List.getLast?_cons_cons]
  rw [head, last]
  refine ⟨?_, newTail⟩
  rcases List.eq_nil_or_concat front with rfl | ⟨front, p, rfl⟩
  · rw [List.getLast?_nil, Option.getD_none, if_pos rfl]
    refine rest.congr (fun c member => eventTakeOut_next (fun none => absurd rfl none) ?_)
    rintro rfl
    exact notBack member
  · rw [List.concat_eq_append] at *
    have whole : Linked (nextOf k.desc) 0 (k.events slot).qNext (front ++ p :: (node :: back)) := by
      simpa using chain
    have live : p ≠ 0 := chain.ne_null (List.mem_append_left _ (List.mem_append_right _ List.mem_cons_self))
    rw [List.getLast?_concat, Option.getD_some, if_neg live, List.append_assoc]
    have notP {c : Nat} (member : c ∈ back) : c ≠ p := fun same =>
      apart p (List.mem_append_right _ List.mem_cons_self) c member same.symm
    refine whole.replace (fun c member => ?_) ?_ (rest.congr (fun c member => ?_))
    · refine eventTakeOut_next (fun _ => ?_) (fun same => notFront (List.mem_append_left _ (same ▸ member)))
      exact (List.nodup_append.mp frontNodup).2.2 c member p List.mem_cons_self
    · unfold Kernel.eventTakeOut Kernel.setEvent
      dsimp only
      have other : p ≠ node := fun same => notFront (List.mem_append_right _ (same ▸ List.mem_cons_self))
      rw [nextOf_setNext _ _ _ _ (by decide), if_neg other, if_neg live,
        nextOf_setNext _ _ _ _ (k.desc.get32_lt _ _), if_pos rfl]
      rfl
    · exact eventTakeOut_next (fun _ => notP member) (fun same => notBack (same ▸ member))

namespace Held

/-- A process waits on one event. -/
theorem one_slot (held : Held k waits loose ready) {slot i c : Nat} (one : c ∈ queueOf i waits) (two : c ∈ queueOf slot waits) :
    i = slot := by
  obtain ⟨id, here, low⟩ := mem_queueOf one
  obtain ⟨id', there, low'⟩ := mem_queueOf two
  rw [← low, ← low', waits_unique held.waitsNodup here there]

theorem takeOut (held : Held k waits loose ready) {slot node : Nat} {front back : List Nat} (low : slot < eventSlots)
    (is : queueOf slot waits = front ++ node :: back) :
    Held (k.eventTakeOut slot (front.getLast?.getD 0) node) (without [node] waits) loose ready := by
  have nodup := held.queueNodup slot
  have chain := held.heads slot low
  have tail := held.tails slot low
  rw [is] at nodup chain tail
  obtain ⟨linked, last⟩ := takeOut_linked chain tail
  have member : node ∈ queueOf slot waits := by
    rw [is]
    exact List.mem_append_right _ List.mem_cons_self
  have prevIn (some : front.getLast?.getD 0 ≠ 0) : front.getLast?.getD 0 ∈ queueOf slot waits := by
    rw [is]
    refine List.mem_append_left _ ?_
    cases found : front.getLast? with
    | none => simp [found] at some
    | some p => exact List.mem_of_getLast? found
  have frame {c : Nat} (out : c ∉ queueOf slot waits) :
      nextOf (k.eventTakeOut slot (front.getLast?.getD 0) node).desc c = nextOf k.desc c :=
    eventTakeOut_next (fun some same => out (same ▸ prevIn some)) (fun same => out (same ▸ member))
  have others {i : Nat} (here : i ≠ slot) : ((queueOf i waits).filter fun p => p ∉ [node]) = queueOf i waits := by
    refine List.filter_eq_self.mpr (fun c within => ?_)
    have other : c ≠ node := fun same => here (held.one_slot within (same ▸ member))
    simp [other]
  have sub : ((without [node] waits).map Prod.fst).Sublist (waits.map Prod.fst) := List.filter_sublist.map _
  refine ⟨?_, ?_, ?_, fun i small => ?_, fun i small => ?_, fun w within => ?_⟩
  · refine Cyclic.congr held.queue (fun c inside => frame (fun within => ?_)) (fun c _ => eventTakeOut_prev _ _ _ _)
    exact held.outside_queue within inside
  · exact held.apart.sublist (((List.Sublist.append_left sub _).append_left _).cons_cons _)
  · intro a inside
    exact held.real a (((List.Sublist.append_left sub _).append_left _).subset inside)
  · rw [queueOf_without]
    by_cases here : i = slot
    · rw [here, is, filter_middle nodup]
      exact linked
    · rw [eventTakeOut_events _ _ _ _ here, others here]
      exact (held.heads i small).congr (fun c within => frame (fun also => here (held.one_slot within also)))
  · rw [queueOf_without]
    by_cases here : i = slot
    · rw [here, is, filter_middle nodup]
      exact last
    · rw [eventTakeOut_events _ _ _ _ here, others here]
      exact held.tails i small
  · rw [eventFindById_congr (k.eventTakeOut_settled _ _ _).id]
    exact held.known w (List.mem_of_mem_filter within)

end Held

/-! ### A process becomes ready -/

namespace Held

theorem ready_insert (held : Held k waits loose ready) {node : Nat} (other : node ∉ loose)
    (fresh : node ∉ readyQ :: ready) (idle : node ∉ waits.map Prod.fst) (real : node ≠ 0 ∧ node < 4294967296) :
    Held { k with desc := schedInsert k.desc node } waits loose (ready ++ [node]) := by
  have perm : (loose ++ (ready ++ [node] ++ waits.map Prod.fst)).Perm
      (node :: (loose ++ (ready ++ waits.map Prod.fst))) := by
    rw [List.append_assoc, List.singleton_append]
    exact (List.perm_middle.append_left loose).trans List.perm_middle
  refine ⟨held.queue.schedInsert real.2 fresh, ?_, fun a member => ?_, fun slot low => ?_, held.tails, held.known⟩
  · refine ((perm.cons readyQ).trans (List.Perm.swap node readyQ _)).nodup_iff.mpr ?_
    refine List.nodup_cons.mpr ⟨?_, held.apart⟩
    simp only [List.mem_cons, List.mem_append, not_or] at fresh ⊢
    exact ⟨fresh.1, other, fresh.2, idle⟩
  · rcases List.mem_cons.mp (perm.mem_iff.mp member) with rfl | rest
    · exact real
    · exact held.real a rest
  · refine (held.heads slot low).congr (fun c member => ?_)
    refine held.queue.schedInsert_outside real.2 (held.outside_queue member) ?_
    rintro rfl
    exact idle ((queueOf_sub slot waits).subset member)

/-- A process that was taken out of its queue. -/
theorem wakeOne (held : Held k waits loose ready) {node : Nat} (value : Nat) (other : node ∉ loose)
    (fresh : node ∉ readyQ :: ready) (idle : node ∉ waits.map Prod.fst) (real : node ≠ 0 ∧ node < 4294967296) :
    ∃ ready', Held (k.eventWakeOne node value) waits loose ready' := by
  unfold Kernel.eventWakeOne Kernel.procAProc
  dsimp only
  have answered : Held { k with ram := setFrameReg k.ram (k.desc.get32 node Desc.savedSp) frameRegD1 value } waits loose
      ready := held.congr rfl (fun _ => ⟨rfl, rfl, rfl⟩)
  split
  · exact ⟨ready, answered⟩
  · split
    · exact ⟨ready, answered⟩
    · exact ⟨ready ++ [node], answered.ready_insert other fresh idle real⟩

end Held

/-! ### Signals -/

/-- The processes a signal wakes, in order. -/
def Kernel.signalWoken (k : Kernel) (slot value : Nat) : Nat → List Nat
  | 0 => []
  | rounds + 1 =>
    match k.eventDequeueInRange slot value with
    | (waiter, k) =>
      if waiter = 0 then []
      else
        let incW := (k.events slot).incW
        let k := k.eventWakeOne waiter value
        let value := eventAddSaturating value (int16 incW)
        waiter :: signalWoken (k.setEvent slot { k.events slot with value := value }) slot value rounds

theorem without_nil (waits : List (Nat × Nat)) : without [] waits = waits := by simp [without]

theorem signalRounds_held (rounds : Nat) {slot value : Nat} (low : slot < eventSlots) (held : Held k waits loose ready) :
    ∃ ready', Held (k.signalRounds slot value rounds) (without (k.signalWoken slot value rounds) waits) loose ready' := by
  induction rounds generalizing k value waits ready with
  | zero =>
    rw [Kernel.signalRounds, Kernel.signalWoken, without_nil]
    exact ⟨ready, held⟩
  | succ rounds ih =>
    rw [Kernel.signalRounds, Kernel.signalWoken]
    unfold Kernel.eventDequeueInRange
    rcases dequeueWalk_cases (held.heads slot low) with none | ⟨front, node, back, is, found⟩
    · rw [none]
      dsimp only
      rw [if_pos rfl, if_pos rfl, without_nil]
      exact ⟨ready, held⟩
    · have member : node ∈ queueOf slot waits := by
        rw [is]
        exact List.mem_append_right _ List.mem_cons_self
      have within := (queueOf_sub slot waits).subset member
      have real := held.real node (List.mem_append_right _ (List.mem_append_right _ within))
      have other : node ∉ loose := fun inside => (held.unqueued inside).2 within
      have gone : node ∉ (without [node] waits).map Prod.fst := by
        intro still
        obtain ⟨w, inside, same⟩ := List.mem_map.mp still
        have kept := (List.mem_filter.mp inside).2
        simp [same] at kept
      rw [found]
      dsimp only
      rw [if_neg real.1, if_neg real.1, ← without_cons]
      obtain ⟨ready', woken⟩ := (held.takeOut low is).wakeOne value other (held.outside within) gone real
      exact ih (woken.setEvent rfl rfl rfl)

/-- The processes that Ev$Signl, Ev$Set and Ev$SetR wake. -/
def Kernel.signalledBy (k : Kernel) (id value : Nat) (wakeAll : Bool) : List Nat :=
  match k.eventFindById id with
  | none => []
  | some slot =>
    (k.setEvent slot { k.events slot with value := value }).signalWoken slot value
      (if wakeAll then eventSlots * 4 + 1 else 1)

theorem signalCommon_held (held : Held k waits loose ready) (id value : Nat) (wakeAll : Bool) :
    ∃ ready', Held (k.eventSignalCommon id value false wakeAll).2 (without (k.signalledBy id value wakeAll) waits)
      loose ready' := by
  unfold Kernel.eventSignalCommon Kernel.signalledBy
  cases found : k.eventFindById id with
  | none =>
    dsimp only
    rw [without_nil]
    exact ⟨ready, held⟩
  | some slot =>
    dsimp only
    rw [if_neg (by decide)]
    exact signalRounds_held _ (eventFindById_low found).2 (held.setEvent rfl rfl rfl)

/-! ### Waiting and time slices -/

theorem eventEnqueue_next {slot desc c : Nat} (fits : desc < 4294967296)
    (off : (k.events slot).qPrev ≠ 0 → c ≠ (k.events slot).qPrev) (other : c ≠ desc) :
    nextOf (k.eventEnqueue slot desc).desc c = nextOf k.desc c := by
  unfold Kernel.eventEnqueue Kernel.setEvent
  dsimp only
  split
  · show nextOf (k.desc.set32 desc Desc.next 0) c = _
    rw [nextOf_setNext _ _ _ _ (by decide), if_neg other]
  · next some =>
    show nextOf ((k.desc.set32 desc Desc.next 0).set32 (k.events slot).qPrev Desc.next desc) c = _
    rw [nextOf_setNext _ _ _ _ fits, if_neg (off some), nextOf_setNext _ _ _ _ (by decide), if_neg other]

theorem eventEnqueue_prev (slot desc c : Nat) : prevOf (k.eventEnqueue slot desc).desc c = prevOf k.desc c := by
  unfold Kernel.eventEnqueue Kernel.setEvent
  dsimp only
  split
  · exact prevOf_setNext _ _ _ _
  · exact (prevOf_setNext _ _ _ _).trans (prevOf_setNext _ _ _ _)

theorem eventEnqueue_events (slot desc i : Nat) (other : i ≠ slot) :
    (k.eventEnqueue slot desc).events i = k.events i := by
  unfold Kernel.eventEnqueue Kernel.setEvent
  dsimp only
  split <;> exact if_neg other

/-- A queue with one more process at its end. -/
theorem enqueue_linked {slot desc : Nat} {q : List Nat} (chain : Linked (nextOf k.desc) 0 (k.events slot).qNext q)
    (tail : (k.events slot).qPrev = q.getLast?.getD 0) (fresh : desc ∉ q) (live : desc ≠ 0)
    (fits : desc < 4294967296) :
    Linked (nextOf (k.eventEnqueue slot desc).desc) 0 ((k.eventEnqueue slot desc).events slot).qNext (q ++ [desc]) ∧
      ((k.eventEnqueue slot desc).events slot).qPrev = desc := by
  rcases List.eq_nil_or_concat q with rfl | ⟨front, p, rfl⟩
  · have none : (k.events slot).qPrev = 0 := tail
    unfold Kernel.eventEnqueue Kernel.setEvent
    dsimp only
    rw [if_pos none]
    dsimp only
    rw [if_pos rfl]
    refine ⟨⟨rfl, live, ?_⟩, rfl⟩
    show nextOf (k.desc.set32 desc Desc.next 0) desc = 0
    rw [nextOf_setNext _ _ _ _ (by decide), if_pos rfl]
  · rw [List.concat_eq_append] at *
    have some : (k.events slot).qPrev = p := by
      rw [tail, List.getLast?_concat]
      rfl
    have pLive : p ≠ 0 := chain.ne_null (List.mem_append_right _ List.mem_cons_self)
    have other : desc ≠ p := fun same => fresh (same ▸ List.mem_append_right _ List.mem_cons_self)
    have nodup := (List.nodup_append.mp chain.nodup).2.2
    have ends : nextOf (k.eventEnqueue slot desc).desc p = desc ∧ nextOf (k.eventEnqueue slot desc).desc desc = 0 := by
      unfold Kernel.eventEnqueue Kernel.setEvent
      dsimp only
      rw [some, if_neg pLive]
      show nextOf ((k.desc.set32 desc Desc.next 0).set32 p Desc.next desc) p = desc ∧
        nextOf ((k.desc.set32 desc Desc.next 0).set32 p Desc.next desc) desc = 0
      rw [nextOf_setNext _ _ _ _ fits, if_pos rfl, nextOf_setNext _ _ _ _ fits, if_neg other,
        nextOf_setNext _ _ _ _ (by decide), if_pos rfl]
      exact ⟨rfl, rfl⟩
    have entry : (k.eventEnqueue slot desc).events slot = { k.events slot with qPrev := desc } := by
      unfold Kernel.eventEnqueue Kernel.setEvent
      dsimp only
      rw [some, if_neg pLive]
      exact if_pos rfl
    rw [entry, List.append_assoc]
    refine ⟨chain.replace (fun c member => ?_) ends.1 ⟨rfl, live, ends.2⟩, rfl⟩
    refine eventEnqueue_next fits (fun _ => ?_) (fun same => fresh (same ▸ List.mem_append_left _ member))
    rw [some]
    exact nodup c member p List.mem_cons_self

namespace Held

/-- Fewer loose processes. -/
theorem loosen (held : Held k waits loose ready) {fewer : List Nat} (sub : fewer.Sublist loose) :
    Held k waits fewer ready := by
  obtain ⟨queue, apart, real, heads, tails, known⟩ := held
  refine ⟨queue, apart.sublist ((sub.append_right _).cons_cons _), fun a member => ?_, heads, tails, known⟩
  exact real a ((sub.append_right _).subset member)

theorem enqueue {p : Nat} (held : Held k waits (p :: loose) ready) {id slot : Nat}
    (found : k.eventFindById id = some slot) :
    Held (k.eventEnqueue slot p) (waits ++ [(p, id)]) loose ready := by
  obtain ⟨is, low⟩ := eventFindById_low found
  obtain ⟨notReady, notWaiting⟩ := held.unqueued List.mem_cons_self
  obtain ⟨live, fits⟩ := held.real p (List.mem_append_left _ List.mem_cons_self)
  have fresh : p ∉ queueOf slot waits := fun member => notWaiting ((queueOf_sub slot waits).subset member)
  obtain ⟨linked, last⟩ := enqueue_linked (held.heads slot low) (held.tails slot low) fresh live fits
  have tailIn (some : (k.events slot).qPrev ≠ 0) : (k.events slot).qPrev ∈ queueOf slot waits := by
    rw [held.tails slot low] at some ⊢
    cases ends : (queueOf slot waits).getLast? with
    | none => simp [ends] at some
    | some c => exact List.mem_of_getLast? ends
  have frame {c : Nat} (out : c ∉ queueOf slot waits) (other : c ≠ p) :
      nextOf (k.eventEnqueue slot p).desc c = nextOf k.desc c :=
    eventEnqueue_next fits (fun some same => out (same ▸ tailIn some)) other
  have perm : (loose ++ (ready ++ (waits ++ [(p, id)]).map Prod.fst)).Perm
      ((p :: loose) ++ (ready ++ waits.map Prod.fst)) := by
    rw [List.map_append, ← List.append_assoc, ← List.append_assoc, List.append_assoc loose, List.cons_append]
    exact List.perm_append_singleton _ _
  refine ⟨?_, (perm.cons _).nodup_iff.mpr held.apart, fun a member => held.real a (perm.mem_iff.mp member),
    fun i small => ?_, fun i small => ?_, fun w within => ?_⟩
  · refine Cyclic.congr held.queue (fun c inside => frame (fun within => ?_) (fun same => ?_))
      (fun c _ => eventEnqueue_prev _ _ _)
    · exact held.outside_queue within inside
    · exact notReady (same ▸ inside)
  · rw [queueOf_append]
    by_cases here : i = slot
    · rw [if_pos (is.symm.trans here.symm), here]
      exact linked
    · rw [if_neg (fun same => here (same.symm.trans is.symm)), eventEnqueue_events _ _ _ here]
      refine (held.heads i small).congr (fun c within => frame (fun also => here (held.one_slot within also)) ?_)
      rintro rfl
      exact notWaiting ((queueOf_sub i waits).subset within)
  · rw [queueOf_append]
    by_cases here : i = slot
    · rw [if_pos (is.symm.trans here.symm), here, last, List.getLast?_concat]
      rfl
    · rw [if_neg (fun same => here (same.symm.trans is.symm)), eventEnqueue_events _ _ _ here]
      exact held.tails i small
  · rw [eventFindById_congr (k.eventEnqueue_settled _ _).id]
    rcases List.mem_append.mp within with before | now
    · exact held.known w before
    · rw [List.mem_singleton.mp now]
      exact found.trans (congrArg some is)

/-- The process picked from the ready queue runs loose. -/
theorem pick (held : Held k waits loose ready) (minPty : Nat) :
    schedPickHighestAge k.desc minPty = (0, k.desc) ∨
      ∃ node h ready', schedPickHighestAge k.desc minPty = (node, h) ∧ node ≠ 0 ∧
        Held { k with desc := h } waits (node :: loose) ready' := by
  rcases held.queue.pick minPty with none | ⟨node, front, back, rfl, picked⟩
  · exact Or.inl none
  · have member : node ∈ front ++ node :: back := List.mem_append_right _ List.mem_cons_self
    have perm : ((node :: loose) ++ ((front ++ back) ++ waits.map Prod.fst)).Perm
        (loose ++ ((front ++ node :: back) ++ waits.map Prod.fst)) := by
      rw [List.append_assoc, List.append_assoc, List.cons_append, List.cons_append]
      exact List.perm_middle.symm.trans (List.perm_middle.symm.append_left loose)
    have real := held.real node (List.mem_append_right _ (List.mem_append_left _ member))
    refine Or.inr ⟨node, _, front ++ back, picked, real.1, held.queue.unlink, (perm.cons _).nodup_iff.mpr held.apart,
      fun a inside => held.real a (perm.mem_iff.mp inside), fun slot low => ?_, held.tails, held.known⟩
    refine (held.heads slot low).congr (fun c within => held.queue.unlink_outside member ?_)
    exact held.outside_queue within

end Held

/-! ### Calls -/

/-- Fields outside the links change. -/
theorem Held.fields (held : Held k waits loose ready) {h : Heap} (nexts : ∀ c, nextOf h c = nextOf k.desc c)
    (prevs : ∀ c, prevOf h c = prevOf k.desc c) : Held { k with desc := h } waits loose ready := by
  obtain ⟨queue, apart, real, heads, tails, known⟩ := held
  exact ⟨queue.agree nexts prevs, apart, real, fun slot low => (heads slot low).congr (fun c _ => nexts c), tails,
    known⟩

/-- The running process gives way to the one picked. -/
theorem Held.runPicked (held : Held k waits [] ready) {picked : Nat × Heap}
    (is : schedPickHighestAge k.desc 0 = picked) (some : picked.1 ≠ 0) :
    ∃ ready', Held (k.runPicked picked).2 waits [(k.runPicked picked).2.proc] ready' := by
  rcases held.pick 0 with none | ⟨node, h, ready', found, -, held'⟩
  · rw [none] at is
    rw [← is] at some
    exact absurd rfl some
  · rw [found] at is
    subst is
    unfold Kernel.runPicked
    rw [if_pos some]
    exact ⟨ready', held'.congr rfl (fun _ => ⟨rfl, rfl, rfl⟩)⟩

/-- The caller goes to the end of the queue, and another process runs. -/
theorem waitEnqueue_held (held : Held k waits [k.proc] ready) {id lo hi : Nat}
    (picked : (k.eventWaitEnqueue id lo hi).1 ≠ 0) :
    ∃ ready', Held (k.eventWaitEnqueue id lo hi).2 (waits ++ [(k.proc, id)]) [(k.eventWaitEnqueue id lo hi).2.proc]
      ready' := by
  have live := (held.real k.proc (List.mem_append_left _ List.mem_cons_self)).1
  unfold Kernel.eventWaitEnqueue at picked ⊢
  cases found : k.eventFindById id with
  | none =>
    rw [found] at picked
    exact absurd rfl picked
  | some slot =>
    rw [found] at picked
    dsimp only at picked ⊢
    rw [if_neg live, Kernel.schedFirstPick_eq] at picked ⊢
    have ranged : Held { k with desc := (k.desc.set32 k.proc Desc.evMin lo).set32 k.proc Desc.evMax hi } waits [k.proc]
        ready := by
      refine held.fields (fun c => ?_) (fun c => ?_)
      · exact (Heap.get32_set32_off _ _ _ _ (by decide)).trans (Heap.get32_set32_off _ _ _ _ (by decide))
      · exact (Heap.get32_set32_off _ _ _ _ (by decide)).trans (Heap.get32_set32_off _ _ _ _ (by decide))
    refine (ranged.enqueue found).runPicked rfl (fun none => picked ?_)
    unfold Kernel.runPicked
    rw [if_neg (not_not.mpr none)]

theorem wait_held (held : Held k waits [k.proc] ready) {id lo hi sp : Nat}
    (waited : k.sysEventWait id lo hi sp = some k') :
    ∃ ready', Held k' (if (k.eventWaitCheck id lo hi).1 = .ok none then waits ++ [(k.proc, id)] else waits)
      [k'.proc] ready' := by
  unfold Kernel.sysEventWait at waited
  split at waited
  · next blocks =>
    rw [if_pos blocks]
    have saved : Held (k.saveSp sp) waits [(k.saveSp sp).proc] ready :=
      held.fields (fun c => Heap.get32_set32_off _ _ _ _ (by decide)) (fun c => Heap.get32_set32_off _ _ _ _ (by decide))
    dsimp only at waited
    split at waited
    · cases waited
    · next picked =>
      obtain rfl := Option.some.inj waited
      exact waitEnqueue_held saved picked
  · next answered =>
    obtain rfl := Option.some.inj waited
    rw [if_neg (fun blocks => answered blocks)]
    unfold Kernel.eventWaitCheck
    cases k.eventFindById id with
    | none => exact ⟨ready, held⟩
    | some slot =>
      dsimp only
      split
      · exact ⟨ready, held.setEvent rfl rfl rfl⟩
      · exact ⟨ready, held⟩

/-- What the end of a time slice does with the process it picked. -/
def Kernel.switchPicked (k : Kernel) (picked : Nat × Heap) : Kernel :=
  let sched := { k.sched with slice := schedTslice }
  if picked.1 = 0 then { k with desc := picked.2, sched := sched }
  else
    let state := picked.2.get8 k.proc Desc.state
    let h := if k.proc ≠ 0 ∧ state ≠ stateZombie ∧ state ≠ stateIdle then schedInsert picked.2 k.proc else picked.2
    { k with desc := h, sched := sched, proc := picked.1 }

theorem switch_held (held : Held k waits [k.proc] ready) :
    ∃ ready', Held k.schedSwitch waits [k.schedSwitch.proc] ready' := by
  have switched : k.schedSwitch = k.switchPicked (schedPickHighestAge k.desc k.sched.minPty) := by
    rw [Kernel.schedSwitch, Kernel.switchPicked]
  rw [switched]
  rcases held.pick k.sched.minPty with none | ⟨node, h, ready', found, live, held'⟩
  · rw [none]
    exact ⟨ready, held.congr rfl (fun _ => ⟨rfl, rfl, rfl⟩)⟩
  · rw [found]
    unfold Kernel.switchPicked
    dsimp only
    rw [if_neg live]
    have runs : Held { k with desc := h } waits [node] ready' := held'.loosen (by simp)
    split
    · obtain ⟨notReady, notWaiting⟩ := held'.unqueued (List.mem_cons_of_mem _ List.mem_cons_self)
      have real := held'.real k.proc (List.mem_append_left _ (List.mem_cons_of_mem _ List.mem_cons_self))
      have other : k.proc ∉ [node] := by
        have nodup := (List.nodup_append.mp (List.nodup_cons.mp held'.apart).2).1
        intro same
        rw [List.mem_singleton.mp same] at nodup
        simp at nodup
      exact ⟨_, (runs.ready_insert other notReady notWaiting real).congr rfl (fun _ => ⟨rfl, rfl, rfl⟩)⟩
    · exact ⟨ready', runs.congr rfl (fun _ => ⟨rfl, rfl, rfl⟩)⟩

/-- Nobody waits on a free entry of the table. -/
theorem Held.free_unattended (held : Held k waits loose ready) {slot : Nat} (free : (k.events slot).id = 0) {w : Nat × Nat}
    (member : w ∈ waits) : w.2 % 65536 ≠ slot := by
  intro here
  have found := held.known w member
  unfold Kernel.eventFindById at found
  dsimp only at found
  rw [here, free] at found
  simp at found

/-- An entry nobody waits on is made or unmade. -/
theorem Held.replace (held : Held k waits loose ready) {slot : Nat} {entry : EventSlot}
    (empty : ∀ w ∈ waits, w.2 % 65536 ≠ slot) (head : entry.qNext = 0) (tail : entry.qPrev = 0) :
    Held (k.setEvent slot entry) waits loose ready := by
  have none : queueOf slot waits = [] := by
    unfold queueOf
    rw [List.filter_eq_nil_iff.mpr (fun w member => by simpa using empty w member)]
    rfl
  have other (i : Nat) (off : i ≠ slot) : (k.setEvent slot entry).events i = k.events i := if_neg off
  have here : (k.setEvent slot entry).events slot = entry := if_pos rfl
  obtain ⟨queue, apart, real, heads, tails, known⟩ := held
  refine ⟨queue, apart, real, fun i low => ?_, fun i low => ?_, fun w member => ?_⟩
  · by_cases same : i = slot
    · rw [same, here, none, head]
      rfl
    · rw [other i same]
      exact heads i low
  · by_cases same : i = slot
    · rw [same, here, none, tail]
      rfl
    · rw [other i same]
      exact tails i low
  · have found := known w member
    unfold Kernel.eventFindById at found ⊢
    dsimp only at found ⊢
    rw [other _ (empty w member)]
    exact found

theorem create_held (held : Held k waits loose ready) (nameAddr value incW incS : Nat) :
    Held (k.eventCreate nameAddr value incW incS).2 waits loose ready := by
  unfold Kernel.eventCreate
  dsimp only
  split
  · exact held
  · split
    · exact held
    · cases found : k.eventFreeSlot with
      | none => exact held
      | some slot =>
        have free := (Kernel.eventFreeSlot_some found).2
        have counted : Held { k with eventNextId := Kernel.nextSerial k.eventNextId } waits loose ready :=
          held.congr rfl (fun _ => ⟨rfl, rfl, rfl⟩)
        exact counted.replace (fun w member => held.free_unattended free member) rfl rfl

/-- Ev$Delet finds an event that no link holds only when nobody waits for it. -/
def DeletesIdle (k : Kernel) (nameAddr : Nat) : Prop :=
  ∀ slot, k.eventFindByName nameAddr = some slot → (k.events slot).link = 0 → (k.events slot).qNext = 0

theorem delete_held (held : Held k waits loose ready) {nameAddr : Nat} (idle : DeletesIdle k nameAddr) :
    Held (k.eventDelete nameAddr).2 waits loose ready := by
  unfold Kernel.eventDelete
  split
  · exact held
  · cases found : k.eventFindByName nameAddr with
    | none => exact held
    | some slot =>
      have low := (Kernel.eventFindByName_some found).1
      dsimp only
      split
      · exact held
      · next linked =>
        have head := idle slot found (not_not.mp linked)
        have chain := held.heads slot low
        rw [head] at chain
        have none : queueOf slot waits = [] := chain.unique rfl
        have tail := held.tails slot low
        rw [none] at tail
        refine held.replace (fun w member here => ?_) head tail
        have within : w.1 ∈ queueOf slot waits :=
          List.mem_map_of_mem (List.mem_filter.mpr ⟨member, by simpa using here⟩)
        rw [none] at within
        cases within

theorem link_held (held : Held k waits loose ready) (nameAddr : Nat) :
    Held (k.eventLink nameAddr).2 waits loose ready := by
  unfold Kernel.eventLink
  split
  · exact held
  · cases k.eventFindByName nameAddr with
    | none => exact held
    | some slot => exact held.setEvent rfl rfl rfl

theorem unlink_held (held : Held k waits loose ready) (id : Nat) : Held (k.eventUnlink id).2 waits loose ready := by
  unfold Kernel.eventUnlink
  cases k.eventFindById id with
  | none => exact held
  | some slot =>
    dsimp only
    split
    · exact held.setEvent rfl rfl rfl
    · exact held

theorem pulse_held (held : Held k waits loose ready) (id value : Nat) (wakeAll : Bool) :
    Held (k.eventPulse id value wakeAll).2 waits loose ready := by
  unfold Kernel.eventPulse Kernel.eventSignalCommon
  cases k.eventFindById id with
  | none => exact held
  | some slot =>
    dsimp only
    rw [if_pos rfl]
    have stored : Held (k.setEvent slot { k.events slot with value := value }) waits loose ready :=
      held.setEvent rfl rfl rfl
    exact stored.setEvent rfl rfl rfl

/-! ### Only waiting changes the running process -/

theorem dequeueWalk_proc (slot value fuel prev node : Nat) :
    (k.dequeueWalk slot value fuel prev node).2.proc = k.proc := by
  induction fuel generalizing prev node with
  | zero => rfl
  | succ fuel ih =>
    rw [Kernel.dequeueWalk]
    split_ifs
    · rfl
    · rfl
    · exact ih _ _

theorem eventWakeOne_proc (waiter value : Nat) : (k.eventWakeOne waiter value).proc = k.proc := by
  unfold Kernel.eventWakeOne Kernel.procAProc
  dsimp only
  split_ifs <;> rfl

theorem signalRounds_proc (rounds slot value : Nat) (k : Kernel) : (k.signalRounds slot value rounds).proc = k.proc := by
  induction rounds generalizing k value with
  | zero => rfl
  | succ rounds ih =>
    have taken := dequeueWalk_proc (k := k) slot value queueLimit 0 (k.events slot).qNext
    rw [Kernel.signalRounds]
    dsimp only [Kernel.eventDequeueInRange]
    split
    · exact taken
    · rw [ih]
      exact (eventWakeOne_proc _ _).trans taken

theorem signalCommon_proc (k : Kernel) (id value : Nat) (restore wakeAll : Bool) :
    (k.eventSignalCommon id value restore wakeAll).2.proc = k.proc := by
  unfold Kernel.eventSignalCommon
  cases k.eventFindById id with
  | none => rfl
  | some slot =>
    dsimp only
    split
    · rfl
    · exact signalRounds_proc _ _ _ _

theorem eventCall_proc {op : EventOp} (called : k.eventCall op = some k')
    (stays : ∀ id lo hi sp, op ≠ .wait id lo hi sp) : k'.proc = k.proc := by
  cases op with
  | create nameAddr value incW incS =>
    obtain rfl := Option.some.inj called
    unfold Kernel.eventCreate
    dsimp only
    split
    · rfl
    · split
      · rfl
      · cases k.eventFreeSlot <;> rfl
  | delete nameAddr =>
    obtain rfl := Option.some.inj called
    unfold Kernel.eventDelete
    split
    · rfl
    · cases k.eventFindByName nameAddr with
      | none => rfl
      | some slot =>
        dsimp only
        split <;> rfl
  | link nameAddr =>
    obtain rfl := Option.some.inj called
    unfold Kernel.eventLink
    split
    · rfl
    · cases k.eventFindByName nameAddr <;> rfl
  | unlink id =>
    obtain rfl := Option.some.inj called
    unfold Kernel.eventUnlink
    cases k.eventFindById id with
    | none => rfl
    | some slot =>
      dsimp only
      split <;> rfl
  | read id =>
    obtain rfl := Option.some.inj called
    rfl
  | wait id lo hi sp => exact absurd rfl (stays id lo hi sp)
  | signal id wakeAll =>
    obtain rfl := Option.some.inj called
    unfold Kernel.eventSignal
    cases k.eventFindById id with
    | none => rfl
    | some slot => exact signalCommon_proc _ _ _ _ _
  | set id value wakeAll =>
    obtain rfl := Option.some.inj called
    exact signalCommon_proc _ _ _ _ _
  | setRelative id delta wakeAll =>
    obtain rfl := Option.some.inj called
    unfold Kernel.eventSetRelative
    cases k.eventFindById id with
    | none => rfl
    | some slot => exact signalCommon_proc _ _ _ _ _
  | pulse id value wakeAll =>
    obtain rfl := Option.some.inj called
    exact signalCommon_proc _ _ _ _ _

/-! ### Runs -/

/-- A call of the running process, which finds `ram`, or the end of a time slice. -/
inductive Turn where
  | call (ram : Mem) (op : EventOp)
  | switch

namespace Attended

/-- Who waits after a call. -/
def waitsAfter (k : Kernel) (waits : List (Nat × Nat)) : EventOp → List (Nat × Nat)
  | .wait id lo hi _ => if (k.eventWaitCheck id lo hi).1 = .ok none then waits ++ [(k.proc, id)] else waits
  | .signal id wakeAll =>
    match k.eventFindById id with
    | none => waits
    | some slot =>
      without (k.signalledBy id (eventAddSaturating (k.events slot).value (int16 (k.events slot).incS)) wakeAll) waits
  | .set id value wakeAll => without (k.signalledBy id value wakeAll) waits
  | .setRelative id delta wakeAll =>
    match k.eventFindById id with
    | none => waits
    | some slot => without (k.signalledBy id (eventAddSaturating (k.events slot).value delta) wakeAll) waits
  | _ => waits

def step (s : Attended) : Turn → Option Attended
  | .call ram op =>
    let k := { s.kernel with ram := ram }
    (k.eventCall op).map fun k' => ⟨k', waitsAfter k s.waits op⟩
  | .switch => some ⟨s.kernel.schedSwitch, s.waits⟩

/-- No event is deleted while a process waits for it. -/
def Idle (s : Attended) : Turn → Prop
  | .call ram (.delete nameAddr) => DeletesIdle { s.kernel with ram := ram } nameAddr
  | _ => True

/-- The invariant of runs. -/
def Kept (s : Attended) : Prop := ∃ ready, Held s.kernel s.waits [s.kernel.proc] ready

theorem call_held (held : Held k waits loose ready) {op : EventOp}
    (idle : ∀ nameAddr, op = .delete nameAddr → DeletesIdle k nameAddr) (called : k.eventCall op = some k')
    (stays : ∀ id lo hi sp, op ≠ .wait id lo hi sp) : ∃ ready', Held k' (waitsAfter k waits op) loose ready' := by
  cases op with
  | create nameAddr value incW incS =>
    obtain rfl := Option.some.inj called
    exact ⟨ready, create_held held _ _ _ _⟩
  | delete nameAddr =>
    obtain rfl := Option.some.inj called
    exact ⟨ready, delete_held held (idle nameAddr rfl)⟩
  | link nameAddr =>
    obtain rfl := Option.some.inj called
    exact ⟨ready, link_held held _⟩
  | unlink id =>
    obtain rfl := Option.some.inj called
    exact ⟨ready, unlink_held held _⟩
  | read id =>
    obtain rfl := Option.some.inj called
    exact ⟨ready, held⟩
  | wait id lo hi sp => exact absurd rfl (stays id lo hi sp)
  | signal id wakeAll =>
    obtain rfl := Option.some.inj called
    unfold Kernel.eventSignal waitsAfter
    dsimp only
    cases k.eventFindById id with
    | none => exact ⟨ready, held⟩
    | some slot => exact signalCommon_held held _ _ _
  | set id value wakeAll =>
    obtain rfl := Option.some.inj called
    exact signalCommon_held held _ _ _
  | setRelative id delta wakeAll =>
    obtain rfl := Option.some.inj called
    unfold Kernel.eventSetRelative waitsAfter
    dsimp only
    cases k.eventFindById id with
    | none => exact ⟨ready, held⟩
    | some slot => exact signalCommon_held held _ _ _
  | pulse id value wakeAll =>
    obtain rfl := Option.some.inj called
    exact ⟨ready, pulse_held held _ _ _⟩

theorem step_kept {s s' : Attended} {turn : Turn} (kept : Kept s) (idle : Idle s turn)
    (stepped : s.step turn = some s') : Kept s' := by
  obtain ⟨ready, held⟩ := kept
  cases turn with
  | switch =>
    obtain rfl := Option.some.inj stepped
    exact switch_held held
  | call ram op =>
    obtain ⟨k', called, rfl⟩ := Option.map_eq_some_iff.mp stepped
    have placed : Held { s.kernel with ram := ram } s.waits [s.kernel.proc] ready :=
      held.congr rfl (fun _ => ⟨rfl, rfl, rfl⟩)
    by_cases waits : ∃ id lo hi sp, op = .wait id lo hi sp
    · obtain ⟨id, lo, hi, sp, rfl⟩ := waits
      exact wait_held placed called
    · have stays (id lo hi sp : Nat) : op ≠ .wait id lo hi sp := fun is => waits ⟨id, lo, hi, sp, is⟩
      have proc : k'.proc = s.kernel.proc := eventCall_proc (k := { s.kernel with ram := ram }) called stays
      unfold Kept
      dsimp only
      rw [proc]
      refine call_held placed (fun nameAddr is => ?_) called stays
      subst is
      exact idle

/-- Nobody waits yet; the running process is not in the ready queue. -/
def Start (s : Attended) (ready : List Nat) : Prop :=
  s.waits = [] ∧ Queue s.kernel.desc readyQ ready ∧ (readyQ :: s.kernel.proc :: ready).Nodup ∧
    (∀ a ∈ s.kernel.proc :: ready, a ≠ 0 ∧ a < 4294967296) ∧
    ∀ i, (s.kernel.events i).qNext = 0 ∧ (s.kernel.events i).qPrev = 0

/-- The ID a process waits on names an event, and the process is in the queue of that event. -/
def Reachable (k : Kernel) (p id : Nat) : Prop :=
  ∃ slot nodes, k.eventFindById id = some slot ∧ Linked (nextOf k.desc) 0 (k.events slot).qNext nodes ∧
    (k.events slot).qPrev = nodes.getLast?.getD 0 ∧ p ∈ nodes

/-- Every waiting process stays reachable as long as no event is deleted under a waiter. -/
theorem waiters_stay_reachable {s s' : Attended} {ready : List Nat} {turns : List Turn} (start : Start s ready)
    (meets : RunMeets step Idle s turns) (ran : run step s turns = some s') :
    ∀ p id, (p, id) ∈ s'.waits → Reachable s'.kernel p id := by
  obtain ⟨none, queue, nodup, real, empty⟩ := start
  have kept : Kept s := by
    refine ⟨ready, queue, ?_, ?_, fun slot _ => ?_, fun slot _ => ?_, fun w member => ?_⟩
    · rw [none]
      simpa using nodup
    · rw [none]
      simpa using real
    · rw [none]
      exact (empty slot).1
    · rw [none]
      exact (empty slot).2
    · rw [none] at member
      cases member
  obtain ⟨ready', held⟩ : Kept s' :=
    run_invariant (fun _ _ _ kept idle stepped => step_kept kept idle stepped) kept meets ran
  intro p id member
  have found := held.known (p, id) member
  obtain ⟨-, low⟩ := eventFindById_low found
  exact ⟨id % 65536, queueOf (id % 65536) s'.waits, found, held.heads _ low, held.tails _ low,
    List.mem_map_of_mem (List.mem_filter.mpr ⟨member, by simp⟩)⟩

/-! ### An event deleted under its waiter -/

/-- Two processes, the second one ready, and the name `a` at address 1. -/
def pair : Attended :=
  let h : Heap := fun _ _ => 0
  let h := (h.set32 readyQ Desc.next 0x10400).set32 readyQ Desc.prev 0x10400
  let h := (h.set32 0x10400 Desc.next readyQ).set32 0x10400 Desc.prev readyQ
  ⟨{ Kernel.zeroed 0x10000 2 with desc := h, proc := 0x10000 }, []⟩

def nameA : Mem := fun x => if x = 1 then 0x61 else 0

/-- The first process creates the event and waits for the value 5. -/
def waitTurns : List Turn := [.call nameA (.create 1 0 0 0), .call nameA (.wait 0x10000 5 5 0x8000)]

/-- The second one gives up the link of the first and deletes the event. -/
def deleteTurns : List Turn := [.call nameA (.unlink 0x10000), .call nameA (.delete 1)]

theorem pair_start : Start pair [0x10400] := by
  refine ⟨rfl, ⟨⟨by decide, by decide, by decide, by decide⟩, by decide⟩, by decide, ?_, fun _ => ⟨rfl, rfl⟩⟩
  decide

theorem pair_waits : (run step pair waitTurns).map (fun s => s.waits) = some [(0x10000, 0x10000)] := by decide +kernel

theorem pair_deletes : (run step pair (waitTurns ++ deleteTurns)).map
    (fun s => (s.waits, s.kernel.eventFindById 0x10000)) = some ([(0x10000, 0x10000)], none) := by decide +kernel

/-- The event is gone, and the process still waits for it. -/
theorem waiter_stranded :
    ¬ ∀ (s s' : Attended) (ready : List Nat) (turns : List Turn), Start s ready → run step s turns = some s' →
      ∀ p id, (p, id) ∈ s'.waits → Reachable s'.kernel p id := by
  intro claim
  obtain ⟨s', ran, is⟩ := Option.map_eq_some_iff.mp pair_deletes
  obtain ⟨waits, gone⟩ := Prod.mk.inj is
  have member : (0x10000, 0x10000) ∈ s'.waits := by
    rw [waits]
    exact List.mem_cons_self
  obtain ⟨slot, -, found, -⟩ := claim pair s' _ _ pair_start ran _ _ member
  rw [gone] at found
  cases found

theorem waiters_stay_reachable_pair :
    ∃ s', run step pair waitTurns = some s' ∧ (0x10000, 0x10000) ∈ s'.waits ∧ Reachable s'.kernel 0x10000 0x10000 := by
  obtain ⟨s', ran, waits⟩ := Option.map_eq_some_iff.mp pair_waits
  have member : (0x10000, 0x10000) ∈ s'.waits := by
    rw [waits]
    exact List.mem_cons_self
  have meets : RunMeets step Idle pair waitTurns := ⟨trivial, fun _ _ => ⟨trivial, fun _ _ => trivial⟩⟩
  exact ⟨s', ran, member, waiters_stay_reachable pair_start meets ran _ _ member⟩

end Attended

end Q9OS

import Q9OS.Lib.Fifo
import Q9OS.Lib.Run
import Q9OS.Process.Wake

/-!
# Semaphores

The queue of `q9kernel_sema.c` over runs of F$Sema calls, beside the list of
the processes that blocked and of those made ready.
-/

namespace Q9OS

open Heap

namespace Semaphore

/-! ### Calls and histories -/

/-- The processes a change of the ready queue puts behind those that were there. -/
def madeReady (k k' : Kernel) : List Nat := (ringNodes k'.desc readyQ).drop (ringNodes k.desc readyQ).length

inductive Event where
  /-- The running process blocks in F$Sema P, its frame at `sp`. -/
  | wait (sp : Nat)
  /-- F$Sema V. -/
  | signal
  /-- The system goes on until it is in the state `k`. -/
  | meanwhile (k : Kernel)

/-- The kernel beside those who blocked and those made ready, in order. -/
structure State where
  kernel : Kernel
  blocked : List Nat
  woken : List Nat

def step (sema : Nat) (s : State) : Event → Option State
  | .wait sp => some { s with kernel := (s.kernel.sysSemaWait sema sp).2, blocked := s.blocked ++ [s.kernel.proc] }
  | .signal =>
    let k := (s.kernel.sysSemaSignal sema).2
    some { s with kernel := k, woken := s.woken ++ madeReady s.kernel k }
  | .meanwhile k => some { s with kernel := k }

/-! ### Well-formed queues -/

/-- The queue in the semaphore's cells. -/
structure Lined (k : Kernel) (sema : Nat) (queue : List Nat) : Prop where
  fifo : Fifo (nextOf k.desc) 0 (k.ram.getU32 (sema + Sema.qNext)) (k.ram.getU32 (sema + Sema.qPrev)) queue
  length : k.ram.getU32 (sema + Sema.length) = queue.length

/-- Those in the queue are processes with a frame. -/
def Processes (k : Kernel) (queue : List Nat) : Prop :=
  ∀ w ∈ queue, k.procIdForDesc w ≠ 0 ∧ k.desc.get32 w Desc.savedSp ≠ 0 ∧ w < 4294967296

/-- Nobody waits and is ready or runs at once. The idle process has its own state letter. -/
structure Placed (k : Kernel) (queue ready : List Nat) : Prop where
  lined : Queue k.desc readyQ ready
  apart : ∀ w ∈ queue, w ∉ readyQ :: ready
  running : k.proc ∉ readyQ :: (ready ++ queue) ∧ k.proc < 4294967296
  idle : k.idleProc ∉ readyQ :: (ready ++ queue) ∧ k.idleProc < 4294967296 ∧ k.procIsAllocated k.idleProc = false

/-- What goes on between two calls leaves the semaphore and those who wait there alone. -/
def Aside (sema : Nat) (k k' : Kernel) : Prop :=
  (∀ x, sema + Sema.qNext ≤ x → x < sema + Sema.length + 4 → k'.ram x = k.ram x) ∧
    ∀ queue, Lined k sema queue → (∀ w ∈ queue, nextOf k'.desc w = nextOf k.desc w) ∧ Processes k' queue ∧
      ∃ ready, Placed k' queue ready

/-- Who blocks is a process, its frame is not at 0. -/
def Calls (sema : Nat) (s : State) : Event → Prop
  | .wait sp => s.kernel.procIdForDesc s.kernel.proc ≠ 0 ∧ 0 < sp ∧ sp < 4294967296
  | .signal => True
  | .meanwhile k => Aside sema s.kernel k

/-- First blocked, first ready; a V makes the first one in the queue ready. -/
structure Fair (sema : Nat) (s : State) (queue : List Nat) : Prop where
  order : s.blocked = s.woken ++ queue
  length : s.kernel.ram.getU32 (sema + Sema.length) = queue.length
  head : s.kernel.ram.getU32 (sema + Sema.qNext) = 0 ↔ queue = []
  tail : s.kernel.ram.getU32 (sema + Sema.qPrev) = 0 ↔ queue = []
  next : madeReady s.kernel (s.kernel.sysSemaSignal sema).2 = queue.take 1

/-! ### A process blocks -/

theorem allocated_of_id {k : Kernel} {w : Nat} (known : k.procIdForDesc w ≠ 0) : k.procIsAllocated w = true := by
  unfold Kernel.procIdForDesc at known
  split at known
  · exact absurd rfl known
  · dsimp only at known
    split at known
    · exact absurd rfl known
    · next inside =>
      simp only [not_or, not_not] at inside
      exact inside.2.2

theorem pooled_of_id {k : Kernel} {w : Nat} (known : k.procIdForDesc w ≠ 0) : w ≠ 0 := by
  rintro rfl
  unfold Kernel.procIdForDesc at known
  simp only [ne_eq] at known
  apply known
  split
  · rfl
  · next low => exact absurd (by omega) low

theorem id_of_allocated {k k' : Kernel} {w : Nat} (known : k.procIdForDesc w ≠ 0) (base : k'.poolBase = k.poolBase)
    (count : k'.poolCount = k.poolCount) (allocated : k'.procIsAllocated w = true) : k'.procIdForDesc w ≠ 0 := by
  have before := allocated_of_id known
  unfold Kernel.procIdForDesc at known ⊢
  rw [base, count, allocated]
  rw [before] at known
  exact known

/-- The kernel with the running process behind the queue, before the next one is picked. -/
def enqueued (k : Kernel) (sema sp : Nat) : Kernel :=
  let k' := (k.saveSp sp).semaEnqueue sema k.proc
  { k' with desc := k'.desc.set8 k.proc Desc.state stateSema }

section Enqueued
variable {k : Kernel} {sema sp : Nat} {queue ready : List Nat}

theorem enqueued_fields : (enqueued k sema sp).poolBase = k.poolBase ∧ (enqueued k sema sp).poolCount = k.poolCount ∧
    (enqueued k sema sp).idleProc = k.idleProc := by
  unfold enqueued Kernel.semaEnqueue Kernel.saveSp
  exact ⟨rfl, rfl, rfl⟩

theorem sysSemaWait_eq (given : sema ≠ 0) (live : k.proc ≠ 0) :
    (k.sysSemaWait sema sp).2 = Kernel.switchTo (enqueued k sema sp).schedFirstPick := by
  unfold Kernel.sysSemaWait
  rw [if_neg (by simp [given, live])]
  rfl

theorem enqueued_next (fits : k.proc < 4294967296) (c : Nat) :
    nextOf (enqueued k sema sp).desc c =
      if k.ram.getU32 (sema + Sema.qPrev) ≠ 0 ∧ c = k.ram.getU32 (sema + Sema.qPrev) then k.proc
      else if c = k.proc then 0 else nextOf k.desc c := by
  have saved : nextOf (k.desc.set32 k.proc Desc.savedSp sp) c = nextOf k.desc c := get32_set32_off _ _ _ _ (by decide)
  have letter : ∀ h : Heap, nextOf (h.set8 k.proc Desc.state stateSema) c = nextOf h c :=
    fun h => get32_set8_off _ _ _ _ (by decide)
  unfold enqueued Kernel.semaEnqueue Kernel.saveSp
  dsimp only
  rw [letter]
  by_cases none : k.ram.getU32 (sema + Sema.qPrev) = 0
  · rw [if_pos none, if_neg (fun both => both.1 none), nextOf_setNext _ _ _ _ (by decide), saved]
  · rw [if_neg none, nextOf_setNext _ _ _ _ fits, nextOf_setNext _ _ _ _ (by decide), saved]
    simp [none]

theorem enqueued_prev (c : Nat) : prevOf (enqueued k sema sp).desc c = prevOf k.desc c := by
  have saved : prevOf (k.desc.set32 k.proc Desc.savedSp sp) c = prevOf k.desc c := get32_set32_off _ _ _ _ (by decide)
  have letter : ∀ h : Heap, prevOf (h.set8 k.proc Desc.state stateSema) c = prevOf h c :=
    fun h => get32_set8_off _ _ _ _ (by decide)
  unfold enqueued Kernel.semaEnqueue Kernel.saveSp
  dsimp only
  rw [letter]
  split
  · rw [prevOf_setNext, saved]
  · rw [prevOf_setNext, prevOf_setNext, saved]

/-- A field outside the links, the saved stack pointer and the state letter. -/
theorem enqueued_savedSp (fits : sp < 4294967296) (w : Nat) :
    (enqueued k sema sp).desc.get32 w Desc.savedSp = if w = k.proc then sp else k.desc.get32 w Desc.savedSp := by
  have saved : (k.desc.set32 k.proc Desc.savedSp sp).get32 w Desc.savedSp =
      if w = k.proc then sp else k.desc.get32 w Desc.savedSp := by
    split
    · next same => rw [same, get32_set32_of_lt _ _ _ fits]
    · next other => exact get32_set32_block _ _ _ _ other
  have letter : ∀ h : Heap, (h.set8 k.proc Desc.state stateSema).get32 w Desc.savedSp = h.get32 w Desc.savedSp :=
    fun h => get32_set8_off _ _ _ _ (by decide)
  have link : ∀ (h : Heap) (b v : Nat), (h.set32 b Desc.next v).get32 w Desc.savedSp = h.get32 w Desc.savedSp :=
    fun h b v => get32_set32_off _ _ _ _ (by decide)
  rw [← saved]
  unfold enqueued Kernel.semaEnqueue Kernel.saveSp
  dsimp only
  rw [letter]
  split
  · rw [link]
  · rw [link, link]

theorem enqueued_letter {w : Nat} (other : w ≠ k.proc) :
    (enqueued k sema sp).desc.get8 w Desc.state = k.desc.get8 w Desc.state := by
  have word : ∀ (h : Heap) (b o v : Nat), o + 4 ≤ Desc.state ∨ Desc.state < o →
      (h.set32 b o v).get8 w Desc.state = h.get8 w Desc.state := fun h b o v apart => get8_set32_off _ _ _ _ (by omega)
  unfold enqueued Kernel.semaEnqueue Kernel.saveSp
  dsimp only
  rw [get8_set8_block _ _ _ _ other]
  split
  · rw [word _ _ _ _ (by decide), word _ _ _ _ (by decide)]
  · rw [word _ _ _ _ (by decide), word _ _ _ _ (by decide), word _ _ _ _ (by decide)]

theorem enqueued_allocated {w : Nat} (allocated : k.procIsAllocated w = true) :
    (enqueued k sema sp).procIsAllocated w = true := by
  unfold Kernel.procIsAllocated at allocated ⊢
  by_cases own : w = k.proc
  · subst own
    have letter : (enqueued k sema sp).desc.get8 k.proc Desc.state = stateSema := by
      unfold enqueued
      exact get8_set8 _ _ _ _
    rw [letter]
    decide
  · rw [enqueued_letter own]
    exact allocated

theorem short (lined : Lined k sema queue) (processes : Processes k queue) : queue.length < 4294967296 := by
  have nodup : (0 :: queue).Nodup :=
    List.nodup_cons.mpr ⟨fun zero => lined.fifo.chain.ne_null zero rfl, lined.fifo.chain.nodup⟩
  exact length_le_of_small nodup (by
    intro a member
    rcases List.mem_cons.mp member with rfl | later
    · decide
    · exact (processes a later).2.2)

/-- The cells of the semaphore are written one after another. -/
theorem enqueued_ram (k : Kernel) (sema sp : Nat) : ∃ first second : Mem,
    first = (if k.ram.getU32 (sema + Sema.qPrev) = 0 then k.ram.setU32 (sema + Sema.qNext) k.proc else k.ram) ∧
      second = first.setU32 (sema + Sema.qPrev) k.proc ∧
      (enqueued k sema sp).ram = second.setU32 (sema + Sema.length) (second.getU32 (sema + Sema.length) + 1) :=
  ⟨_, _, rfl, rfl, rfl⟩

theorem enqueued_lined (lined : Lined k sema queue) (fits : k.proc < 4294967296) (live : k.proc ≠ 0) (fresh : k.proc ∉ queue)
    (room : queue.length + 1 < 4294967296) : Lined (enqueued k sema sp) sema (queue ++ [k.proc]) := by
  obtain ⟨fifo, length⟩ := lined
  obtain ⟨first, second, is, rfl, ram⟩ := enqueued_ram k sema sp
  have head : first.getU32 (sema + Sema.qNext) =
      if k.ram.getU32 (sema + Sema.qPrev) = 0 then k.proc else k.ram.getU32 (sema + Sema.qNext) := by
    rw [is]
    split
    · exact Mem.getU32_setU32_of_lt _ _ fits
    · rfl
  have count : first.getU32 (sema + Sema.length) = queue.length := by
    rw [is, ← length]
    split
    · exact Mem.getU32_setU32_apart _ _ (by simp [Sema.qNext, Sema.length])
    · rfl
  refine ⟨?_, ?_⟩
  · rw [ram, Mem.getU32_setU32_apart _ _ (by simp [Sema.qNext, Sema.length]),
      Mem.getU32_setU32_apart _ _ (by simp [Sema.qNext, Sema.qPrev]), head,
      Mem.getU32_setU32_apart _ _ (by simp [Sema.qPrev, Sema.length]), Mem.getU32_setU32_of_lt _ _ fits]
    refine fifo.push live fresh ?_ (fun none => if_pos none) (fun some_tail => ⟨if_neg some_tail, ?_⟩) ?_
    · rw [enqueued_next fits, if_neg, if_pos rfl]
      rintro ⟨some_tail, same⟩
      exact fresh (same ▸ fifo.tail_mem some_tail)
    · rw [enqueued_next fits, if_pos ⟨some_tail, rfl⟩]
    · intro a member other
      rw [enqueued_next fits, if_neg (fun both => other both.2), if_neg]
      rintro rfl
      exact fresh member
  · rw [ram, Mem.getU32_setU32, Mem.getU32_setU32_apart _ _ (by simp [Sema.qPrev, Sema.length]), count,
      Nat.mod_eq_of_lt room]
    simp

theorem enqueued_processes (processes : Processes k queue) (caller : k.procIdForDesc k.proc ≠ 0) (fits : k.proc < 4294967296)
    (pos : 0 < sp) (small : sp < 4294967296) : Processes (enqueued k sema sp) (queue ++ [k.proc]) := by
  have known : ∀ w, k.procIdForDesc w ≠ 0 → (enqueued k sema sp).procIdForDesc w ≠ 0 := fun w known =>
    id_of_allocated known enqueued_fields.1 enqueued_fields.2.1 (enqueued_allocated (allocated_of_id known))
  intro w member
  rw [enqueued_savedSp small]
  rcases List.mem_append.mp member with inside | last
  · obtain ⟨id, saved, low⟩ := processes w inside
    refine ⟨known w id, ?_, low⟩
    split
    · omega
    · exact saved
  · obtain rfl := List.mem_singleton.mp last
    rw [if_pos rfl]
    exact ⟨known _ caller, by omega, fits⟩

theorem enqueued_outside (lined : Lined k sema queue) (fits : k.proc < 4294967296) {c : Nat} (out : c ∉ queue ++ [k.proc]) :
    nextOf (enqueued k sema sp).desc c = nextOf k.desc c := by
  simp only [List.mem_append, List.mem_singleton, not_or] at out
  rw [enqueued_next fits, if_neg, if_neg out.2]
  rintro ⟨some_tail, rfl⟩
  exact out.1 (lined.fifo.tail_mem some_tail)

end Enqueued

/-! ### The next one runs -/

section Picked
variable {k : Kernel} {sema : Nat} {queue ready : List Nat}

theorem procIsAllocated_agree {k' : Kernel} (agree : Agree (fun o => ¬ QueueOff o) k.desc k'.desc) (w : Nat) :
    k'.procIsAllocated w = k.procIsAllocated w := by
  unfold Kernel.procIsAllocated
  rw [agree.get8 w (by unfold QueueOff LinkOff Desc.state; omega)]

theorem Processes.agree {k' : Kernel} (processes : Processes k queue) (agree : Agree (fun o => ¬ QueueOff o) k.desc k'.desc)
    (base : k'.poolBase = k.poolBase) (count : k'.poolCount = k.poolCount) : Processes k' queue := by
  intro w member
  obtain ⟨known, saved, low⟩ := processes w member
  rw [Wake.procIdForDesc_congr agree base count, Wake.savedSp_congr agree]
  exact ⟨known, saved, low⟩

theorem picked (lined : Lined k sema queue) (processes : Processes k queue) (queued : Queue k.desc readyQ ready)
    (apart : ∀ w ∈ queue, w ∉ readyQ :: ready)
    (idle : k.idleProc ∉ readyQ :: (ready ++ queue) ∧ k.idleProc < 4294967296 ∧ k.procIsAllocated k.idleProc = false) :
    Lined (Kernel.switchTo k.schedFirstPick) sema queue ∧ Processes (Kernel.switchTo k.schedFirstPick) queue ∧
      ∃ ready', Placed (Kernel.switchTo k.schedFirstPick) queue ready' := by
  unfold Kernel.schedFirstPick Kernel.switchTo
  rcases pick_cases queued 0 with none | ⟨node, front, back, live, rfl, found⟩
  · rw [none]
    simp only [ne_eq, not_true_eq_false, if_false]
    exact ⟨⟨lined.fifo, lined.length⟩, processes, ready, queued, apart, ⟨idle.1, idle.2.1⟩, idle⟩
  · rw [found]
    simp only [ne_eq, live, not_false_eq_true, if_true]
    have member : node ∈ front ++ node :: back := by simp
    have sub : (front ++ back).Sublist (front ++ node :: back) := Wake.sub_queue
    have agree : Agree (fun o => ¬ QueueOff o) k.desc (listUnlink k.desc node) :=
      (listUnlink_agree k.desc node).weaken (fun _ outside link => outside (.inl link))
    have nodup := queued.nodup
    refine ⟨⟨lined.fifo.congr ?_, lined.length⟩, processes.agree agree rfl rfl, front ++ back, queued.unlink, ?_, ⟨?_, ?_⟩, ?_⟩
    · exact fun w inside => queued.unlink_outside member (apart w inside)
    · intro w inside within
      exact apart w inside ((sub.cons_cons _).subset within)
    · have fresh : node ∉ queue := fun inside => apart node inside (List.mem_cons_of_mem _ member)
      rw [← List.cons_append, List.nodup_middle, List.nodup_cons, List.cons_append] at nodup
      rw [← List.cons_append, List.mem_append, not_or]
      exact ⟨nodup.1, fresh⟩
    · exact queued.small member
    · obtain ⟨out, low, free⟩ := idle
      refine ⟨fun within => out (((sub.append_right queue).cons_cons _).subset within), low, ?_⟩
      exact (procIsAllocated_agree agree _).trans free

end Picked

/-! ### V -/

section Signalled
variable {k : Kernel} {sema w : Nat} {queue rest ready : List Nat}

theorem signal_none (given : sema ≠ 0) (lined : Lined k sema []) : (k.sysSemaSignal sema).2 = k := by
  have head := lined.fifo.head_iff.mpr rfl
  have none : k.semaDequeue sema = (0, k) := by
    unfold Kernel.semaDequeue
    exact if_pos head
  unfold Kernel.sysSemaSignal
  rw [if_neg given, none]
  dsimp only
  rw [if_pos rfl]

/-- The kernel with `w`, the first waiting process, out of the queue. -/
def dequeued (k : Kernel) (sema w : Nat) : Kernel :=
  let ram := k.ram.setU32 (sema + Sema.qNext) (nextOf k.desc w)
  let ram := if nextOf k.desc w = 0 then ram.setU32 (sema + Sema.qPrev) 0 else ram
  let ram := ram.setU32 (sema + Sema.length) (ram.getU32 (sema + Sema.length) - 1)
  { k with desc := k.desc.set32 w Desc.next 0, ram := ram }

theorem semaDequeue_eq (lined : Lined k sema (w :: rest)) : k.semaDequeue sema = (w, dequeued k sema w) := by
  obtain ⟨head, live⟩ := lined.fifo.head_eq
  unfold Kernel.semaDequeue
  dsimp only
  rw [head, if_neg live]
  rfl

theorem dequeued_ram (k : Kernel) (sema w : Nat) : ∃ first second : Mem,
    first = k.ram.setU32 (sema + Sema.qNext) (nextOf k.desc w) ∧
      second = (if nextOf k.desc w = 0 then first.setU32 (sema + Sema.qPrev) 0 else first) ∧
      (dequeued k sema w).ram = second.setU32 (sema + Sema.length) (second.getU32 (sema + Sema.length) - 1) :=
  ⟨_, _, rfl, rfl, rfl⟩

theorem dequeued_lined (lined : Lined k sema (w :: rest)) : Lined (dequeued k sema w) sema rest := by
  have nodup := lined.fifo.chain.nodup
  obtain ⟨first, second, rfl, is, ram⟩ := dequeued_ram k sema w
  have desc : (dequeued k sema w).desc = k.desc.set32 w Desc.next 0 := rfl
  obtain ⟨fifo, length⟩ := lined
  have is_head : k.ram.getU32 (sema + Sema.qNext) = w := fifo.head_eq.1
  rw [is_head] at fifo
  have head : second.getU32 (sema + Sema.qNext) = nextOf k.desc w := by
    rw [is]
    split
    · rw [Mem.getU32_setU32_apart _ _ (by simp [Sema.qNext, Sema.qPrev])]
      exact Mem.getU32_setU32_of_lt _ _ (nextOf_lt _ _)
    · exact Mem.getU32_setU32_of_lt _ _ (nextOf_lt _ _)
  have tail : second.getU32 (sema + Sema.qPrev) =
      if nextOf k.desc w = 0 then 0 else k.ram.getU32 (sema + Sema.qPrev) := by
    rw [is]
    split
    · exact Mem.getU32_setU32_of_lt _ _ (by decide)
    · exact Mem.getU32_setU32_apart _ _ (by simp [Sema.qNext, Sema.qPrev])
  have count : second.getU32 (sema + Sema.length) = rest.length + 1 := by
    have before : k.ram.getU32 (sema + Sema.length) = rest.length + 1 := length
    rw [is, ← before]
    split
    · rw [Mem.getU32_setU32_apart _ _ (by simp [Sema.qPrev, Sema.length]),
        Mem.getU32_setU32_apart _ _ (by simp [Sema.qNext, Sema.length])]
    · exact Mem.getU32_setU32_apart _ _ (by simp [Sema.qNext, Sema.length])
  have bound := second.getU32_lt (sema + Sema.length)
  refine ⟨?_, ?_⟩
  · rw [ram, Mem.getU32_setU32_apart _ _ (by simp [Sema.qNext, Sema.length]),
      Mem.getU32_setU32_apart _ _ (by simp [Sema.qPrev, Sema.length]), head, tail, desc]
    refine fifo.pop.congr (fun c member => ?_)
    rw [nextOf_setNext _ _ _ _ (by decide), if_neg]
    rintro rfl
    exact (List.nodup_cons.mp nodup).1 member
  · rw [ram, Mem.getU32_setU32, count]
    omega

theorem signal_some (given : sema ≠ 0) (lined : Lined k sema (w :: rest)) (processes : Processes k (w :: rest)) :
    (k.sysSemaSignal sema).2 = { dequeued k sema w with desc := schedInsert (dequeued k sema w).desc w } := by
  obtain ⟨-, live⟩ := lined.fifo.head_eq
  obtain ⟨known, saved, -⟩ := processes w List.mem_cons_self
  have agree : Agree (fun o => ¬ QueueOff o) k.desc (dequeued k sema w).desc := by
    exact Agree.rfl.set32 _ _ (fun x outside => by unfold QueueOff LinkOff at outside; unfold Desc.next; omega)
  have known' : (dequeued k sema w).procIdForDesc w ≠ 0 := by
    rw [Wake.procIdForDesc_congr agree rfl rfl]
    exact known
  have saved' : (dequeued k sema w).desc.get32 w Desc.savedSp ≠ 0 := by
    rw [Wake.savedSp_congr agree]
    exact saved
  unfold Kernel.sysSemaSignal
  rw [if_neg given, semaDequeue_eq lined]
  dsimp only
  rw [if_neg live]
  unfold Kernel.procAProc
  rw [if_neg (by simp [live, known']), if_neg saved']

/-- The first one in the queue becomes ready behind all others. -/
theorem signal_served (given : sema ≠ 0) (lined : Lined k sema (w :: rest)) (processes : Processes k (w :: rest))
    (placed : Placed k (w :: rest) ready) : Lined (k.sysSemaSignal sema).2 sema rest ∧
      Processes (k.sysSemaSignal sema).2 rest ∧ Placed (k.sysSemaSignal sema).2 rest (ready ++ [w]) := by
  rw [signal_some given lined processes]
  have desc : (dequeued k sema w).desc = k.desc.set32 w Desc.next 0 := rfl
  have shorter := dequeued_lined lined
  obtain ⟨known, saved, low⟩ := processes w List.mem_cons_self
  obtain ⟨queued, apart, running, idle⟩ := placed
  have fresh := apart w List.mem_cons_self
  have notRest : w ∉ rest := (List.nodup_cons.mp lined.fifo.chain.nodup).1
  have others : ∀ c, c ≠ w → nextOf (dequeued k sema w).desc c = nextOf k.desc c := by
    intro c other
    rw [desc, nextOf_setNext _ _ _ _ (by decide), if_neg other]
  have queued' : Queue (dequeued k sema w).desc readyQ ready := by
    refine queued.congr (fun c inside => others c ?_) (fun c _ => by rw [desc, prevOf_setNext])
    rintro rfl
    exact fresh inside
  have agree : Agree (fun o => ¬ QueueOff o) k.desc (schedInsert (dequeued k sema w).desc w) := by
    refine Agree.trans ?_ (schedInsert_agree _ _)
    rw [desc]
    exact Agree.rfl.set32 _ _ (fun x outside => by unfold QueueOff LinkOff at outside; unfold Desc.next; omega)
  have rearranged : ∀ c, c ∈ readyQ :: (ready ++ [w] ++ rest) ↔ c ∈ readyQ :: (ready ++ w :: rest) := by
    intro c
    simp
  refine ⟨⟨shorter.fifo.congr ?_, shorter.length⟩, ?_, ?_⟩
  · intro c inside
    have other : c ≠ w := by
      rintro rfl
      exact notRest inside
    exact queued'.schedInsert_outside low (apart c (List.mem_cons_of_mem _ inside)) other
  · have later : Processes k rest := fun c inside => processes c (List.mem_cons_of_mem _ inside)
    exact later.agree agree rfl rfl
  · refine ⟨queued'.schedInsert low fresh, ?_, ?_, ?_⟩
    · intro c inside within
      have out := apart c (List.mem_cons_of_mem _ inside)
      simp only [List.mem_cons, List.mem_append, List.not_mem_nil, or_false, not_or] at within out
      rcases within with same | old | rfl
      · exact out.1 same
      · exact out.2 old
      · exact notRest inside
    · rw [rearranged]
      exact running
    · rw [rearranged]
      obtain ⟨out, low, free⟩ := idle
      exact ⟨out, low, (procIsAllocated_agree agree _).trans free⟩

end Signalled

/-! ### Runs -/

/-- What every call keeps. -/
structure Held (sema : Nat) (s : State) (queue : List Nat) : Prop where
  lined : Lined s.kernel sema queue
  processes : Processes s.kernel queue
  placed : ∃ ready, Placed s.kernel queue ready
  order : s.blocked = s.woken ++ queue

section Runs
variable {sema : Nat} {s s' : State} {queue : List Nat}

theorem madeReady_self {k : Kernel} : madeReady k k = [] := List.drop_eq_nil_of_le (le_refl _)

theorem madeReady_served {k k' : Kernel} {ready : List Nat} {w : Nat} (before : Queue k.desc readyQ ready)
    (after : Queue k'.desc readyQ (ready ++ [w])) : madeReady k k' = [w] := by
  unfold madeReady
  rw [before.ringNodes (by decide), after.ringNodes (by decide)]
  simp

theorem Held.madeReady (given : sema ≠ 0) (held : Held sema s queue) :
    madeReady s.kernel (s.kernel.sysSemaSignal sema).2 = queue.take 1 := by
  obtain ⟨lined, processes, ⟨ready, placed⟩, -⟩ := held
  cases queue with
  | nil =>
    rw [signal_none given lined]
    exact madeReady_self
  | cons w rest => exact madeReady_served placed.lined (signal_served given lined processes placed).2.2.lined

theorem Held.fair (given : sema ≠ 0) (held : Held sema s queue) : Fair sema s queue where
  order := held.order
  length := held.lined.length
  head := held.lined.fifo.head_iff
  tail := held.lined.fifo.tail_iff
  next := held.madeReady given

theorem Held.wait (given : sema ≠ 0) (held : Held sema s queue) {sp : Nat} (calls : Calls sema s (.wait sp)) :
    Held sema { s with kernel := (s.kernel.sysSemaWait sema sp).2, blocked := s.blocked ++ [s.kernel.proc] }
      (queue ++ [s.kernel.proc]) := by
  obtain ⟨lined, processes, ⟨ready, queued, apart, running, idle⟩, order⟩ := held
  obtain ⟨caller, pos, small⟩ := calls
  obtain ⟨out, fits⟩ := running
  have live := pooled_of_id caller
  have fresh : s.kernel.proc ∉ queue := fun inside => out (by simp [inside])
  have notReady : s.kernel.proc ∉ readyQ :: ready := by
    simp only [List.mem_cons, List.mem_append, not_or] at out ⊢
    tauto
  have room : queue.length + 1 < 4294967296 := by
    have nodup : (0 :: s.kernel.proc :: queue).Nodup := by
      refine List.nodup_cons.mpr ⟨?_, List.nodup_cons.mpr ⟨fresh, lined.fifo.chain.nodup⟩⟩
      simp only [List.mem_cons, not_or]
      exact ⟨live.symm, fun zero => lined.fifo.chain.ne_null zero rfl⟩
    have bound := length_le_of_small nodup (n := 4294967296) (by
      intro a member
      simp only [List.mem_cons] at member
      rcases member with rfl | rfl | inside
      · decide
      · exact fits
      · exact (processes a inside).2.2)
    simp only [List.length_cons] at bound
    omega
  have apart' : ∀ w ∈ queue ++ [s.kernel.proc], w ∉ readyQ :: ready := by
    intro w member
    rcases List.mem_append.mp member with inside | last
    · exact apart w inside
    · obtain rfl := List.mem_singleton.mp last
      exact notReady
  have queued' : Queue (enqueued s.kernel sema sp).desc readyQ ready := by
    refine queued.congr (fun c inside => enqueued_outside lined fits ?_) (fun c _ => enqueued_prev c)
    exact fun within => apart' c within inside
  have idle' : (enqueued s.kernel sema sp).idleProc ∉ readyQ :: (ready ++ (queue ++ [s.kernel.proc])) ∧
      (enqueued s.kernel sema sp).idleProc < 4294967296 ∧
      (enqueued s.kernel sema sp).procIsAllocated (enqueued s.kernel sema sp).idleProc = false := by
    obtain ⟨away, low, free⟩ := idle
    have other : s.kernel.idleProc ≠ s.kernel.proc := by
      intro same
      rw [same, allocated_of_id caller] at free
      cases free
    rw [enqueued_fields.2.2]
    refine ⟨?_, low, ?_⟩
    · simp only [List.mem_cons, List.mem_append, List.not_mem_nil, or_false, not_or] at away ⊢
      tauto
    · unfold Kernel.procIsAllocated at free ⊢
      rw [enqueued_letter other]
      exact free
  obtain ⟨lined', processes', placed'⟩ := picked (enqueued_lined lined fits live fresh room)
    (enqueued_processes processes caller fits pos small) queued' apart' idle'
  refine ⟨?_, ?_, ?_, ?_⟩
  · rw [sysSemaWait_eq given live]
    exact lined'
  · rw [sysSemaWait_eq given live]
    exact processes'
  · rw [sysSemaWait_eq given live]
    exact placed'
  · simp [order]

theorem Held.meanwhile (held : Held sema s queue) {k : Kernel} (calls : Calls sema s (.meanwhile k)) :
    Held sema { s with kernel := k } queue := by
  obtain ⟨lined, processes, -, order⟩ := held
  obtain ⟨cells, others⟩ := calls
  obtain ⟨links, processes', placed⟩ := others queue lined
  obtain ⟨fifo, length⟩ := lined
  have cell : ∀ o, Sema.qNext ≤ o → o ≤ Sema.length → k.ram.getU32 (sema + o) = s.kernel.ram.getU32 (sema + o) := by
    intro o low high
    exact Mem.getU32_congr (fun x from_o before => cells x (by omega) (by omega))
  refine ⟨⟨?_, ?_⟩, processes', placed, order⟩
  · show Fifo _ 0 (k.ram.getU32 _) (k.ram.getU32 _) queue
    rw [cell _ (by decide) (by decide), cell _ (by decide) (by decide)]
    exact fifo.congr links
  · exact (cell _ (by decide) (by decide)).trans length

theorem Held.step (given : sema ≠ 0) (held : Held sema s queue) {event : Event} (calls : Calls sema s event)
    (stepped : step sema s event = some s') : ∃ queue', Held sema s' queue' := by
  cases event with
  | wait sp =>
    obtain rfl := Option.some.inj stepped
    exact ⟨_, held.wait given calls⟩
  | signal =>
    obtain rfl := Option.some.inj stepped
    have made := held.madeReady given
    obtain ⟨lined, processes, ⟨ready, placed⟩, order⟩ := held
    cases queue with
    | nil =>
      refine ⟨[], ?_, ?_, ⟨ready, ?_⟩, ?_⟩
      · rw [signal_none given lined]
        exact lined
      · rw [signal_none given lined]
        exact processes
      · rw [signal_none given lined]
        exact placed
      · rw [order, made]
        simp
    | cons w rest =>
      obtain ⟨lined', processes', placed'⟩ := signal_served given lined processes placed
      refine ⟨rest, lined', processes', ⟨_, placed'⟩, ?_⟩
      rw [order, made]
      simp
  | meanwhile k =>
    obtain rfl := Option.some.inj stepped
    exact ⟨queue, held.meanwhile calls⟩

/-- Whoever blocked first is made ready first, over every run of calls on a semaphore whose queue is
empty at its start. -/
theorem semaphore_fifo {k : Kernel} {ready : List Nat} {events : List Event} (given : sema ≠ 0) (empty : Lined k sema [])
    (placed : Placed k [] ready) (calls : RunMeets (Semaphore.step sema) (Calls sema) ⟨k, [], []⟩ events)
    (ran : run (Semaphore.step sema) ⟨k, [], []⟩ events = some s) : ∃ queue, Fair sema s queue := by
  have start : ∃ queue, Held sema ⟨k, [], []⟩ queue := ⟨[], empty, nofun, ⟨ready, placed⟩, rfl⟩
  have keeps : ∀ s event s', (∃ queue, Held sema s queue) → Calls sema s event →
      Semaphore.step sema s event = some s' → ∃ queue, Held sema s' queue := by
    rintro s event s' ⟨queue, held⟩ met stepped
    exact held.step given met stepped
  obtain ⟨queue, held⟩ := run_invariant keeps start calls ran
  exact ⟨queue, held.fair given⟩

end Runs

/-- One process runs and one is ready, beside an idle one. -/
def pair : Kernel :=
  { Kernel.zeroed 0x100000 2 with
    proc := 0x100000
    idleProc := 0x2000
    desc := schedInsert
      (fun b => if b = readyQ then Wake.loopMem else if b = 0x2000 then fun _ => 0 else Wake.waiterMem 0 b) 0x100400 }

theorem pair_lined : Queue pair.desc readyQ [0x100400] := by
  have empty : Queue
      (fun b => if b = readyQ then Wake.loopMem else if b = 0x2000 then fun _ => 0 else Wake.waiterMem 0 b) readyQ [] :=
    ⟨⟨by decide, by decide⟩, List.nodup_singleton _⟩
  exact empty.schedInsert (by decide) (by decide)

/-- Two processes block, and the first of them becomes ready. -/
theorem semaphore_fifo_once : ∃ s, run (step 0x500) ⟨pair, [], []⟩ [.wait 0x800, .wait 0x900, .signal] = some s ∧
    s.woken = [0x100000] ∧ Fair 0x500 s [0x100400] := by
  have placed : Placed pair [] [0x100400] :=
    ⟨pair_lined, nofun, ⟨by decide, by decide⟩, ⟨by decide, by decide, by decide⟩⟩
  have calls : RunMeets (step 0x500) (Calls 0x500) ⟨pair, [], []⟩ [.wait 0x800, .wait 0x900, .signal] := by
    refine ⟨⟨by decide, by decide, by decide⟩, ?_⟩
    rintro _ ⟨⟩
    exact ⟨⟨by decide +kernel, by decide, by decide⟩, fun _ _ => ⟨trivial, fun _ _ => trivial⟩⟩
  have shown : (run (step 0x500) ⟨pair, [], []⟩ [.wait 0x800, .wait 0x900, .signal]).map (fun s => (s.blocked, s.woken)) =
      some ([0x100000, 0x100400], [0x100000]) := by decide +kernel
  obtain ⟨s, ran⟩ : ∃ s, run (step 0x500) ⟨pair, [], []⟩ [.wait 0x800, .wait 0x900, .signal] = some s := ⟨_, rfl⟩
  obtain ⟨queue, fair⟩ :=
    semaphore_fifo (by decide) ⟨⟨(by decide : pair.ram.getU32 _ = 0), by decide⟩, by decide⟩ placed calls ran
  rw [ran] at shown
  obtain ⟨blocked, woken⟩ := Prod.mk.inj (Option.some.inj shown)
  have order := fair.order
  rw [blocked, woken] at order
  obtain rfl : queue = [0x100400] := (List.cons.inj order).2.symm
  exact ⟨s, ran, woken, fair⟩

end Semaphore

end Q9OS

import Q9OS.Process.Sleep
import Q9OS.Process.Threshold
import Q9OS.Process.Ticks

/-!
# The scheduler at a tick

What `Q9K_SchedReschedule` does to the queues and the running process, and how
long F$Sleep lasts.
-/

namespace Q9OS.Ticks

open Heap

/-! ### One tick -/

/-- A ready and a sleep queue beside the running process, 0 for none. -/
structure Scheduled (k : Kernel) (ready sleep : List Nat) : Prop where
  rings : Rings k.desc ready sleep
  live : ∀ b ∈ ready ++ sleep, b ≠ 0
  running : k.proc ∉ readyQ :: sleepQ :: (ready ++ sleep) ∧ k.proc < 4294967296
  limit : k.sched.maxAge < 65536

/-- The kernel when those who wait have aged and those who sleep have counted. -/
def counted (k : Kernel) : Kernel := { k with desc := sleepQDecrementAll (schedAgeAll k.desc k.sched.maxAge) }

/-- The alarms of the tick move nobody. -/
structure Still (k : Kernel) (dev : Devices) : Prop where
  proc : ((counted k).alarmTick dev).proc = k.proc
  fields : Agree (fun o => WakeOff o ∨ o = Desc.priority) (counted k).desc ((counted k).alarmTick dev).desc

/-- Those ready when the switch is due. -/
def due (k : Kernel) (ready sleep : List Nat) : List Nat := ready ++ sleep.filter (fun n => Wakes k.desc n)

/-- Not a zombie, not the idle process. -/
def Living (k : Kernel) (n : Nat) : Prop := k.desc.get8 n Desc.state ≠ stateZombie ∧ k.desc.get8 n Desc.state ≠ stateIdle

instance (k : Kernel) (n : Nat) : Decidable (Living k n) := inferInstanceAs (Decidable (_ ∧ _))

/-- The previous process where it becomes ready again. -/
def returned (k : Kernel) : List Nat := if k.proc ≠ 0 ∧ Living k k.proc then [k.proc] else []

def Switches (k : Kernel) (nodes : List Nat) : Prop :=
  k.sched.noSwitch = 0 ∧ k.sched.slice = 0 ∧ ∃ n ∈ nodes, Eligible k.desc k.sched.minPty n

instance (k : Kernel) (nodes : List Nat) : Decidable (Switches k nodes) := inferInstanceAs (Decidable (_ ∧ _ ∧ _))

/-- What one tick does to `ready`, `sleep` and the running process. -/
structure Ticked (k k' : Kernel) (ready sleep ready' sleep' : List Nat) : Prop where
  sleepers : sleep' = sleep.filter (fun n => ¬ Wakes k.desc n)
  counted : ∀ n ∈ sleep', ticksOf k'.desc n = slept (ticksOf k.desc n)
  aged : ∀ n ∈ ready, ageOf k'.desc n = aged k.sched.maxAge (priorityOf k.desc n) (ageOf k.desc n)
  woken : ∀ n ∈ sleep, Wakes k.desc n → ageOf k'.desc n = priorityOf k.desc n
  stays : ¬ Switches k (due k ready sleep) → k'.proc = k.proc ∧ ready' = due k ready sleep
  switches : Switches k (due k ready sleep) → Oldest k'.desc k.sched.minPty (due k ready sleep) k'.proc ∧
    ready' = (due k ready sleep).erase k'.proc ++ returned k ∧
    ∀ n ∈ returned k, ageOf k'.desc n = priorityOf k.desc n
  conserved : (k'.proc :: (ready' ++ sleep')).Perm
    ((if Switches k (due k ready sleep) then returned k else [k.proc]) ++ (ready ++ sleep))
  living : (∀ n ∈ ready ++ sleep, Living k n) → ∀ n ∈ ready' ++ sleep', Living k' n

section Accounts
variable {k : Kernel} {dev : Devices} {ready sleep : List Nat}

/-- The state in which the time slice counts. -/
structure Accounted (k m : Kernel) (ready sleep : List Nat) : Prop where
  proc : m.proc = k.proc
  sched : m.sched = k.sched
  rings : Rings m.desc (due k ready sleep) (sleep.filter (fun n => ¬ Wakes k.desc n))
  counted : ∀ n ∈ sleep, ticksOf m.desc n = slept (ticksOf k.desc n)
  aged : ∀ n ∈ ready, ageOf m.desc n = aged k.sched.maxAge (priorityOf k.desc n) (ageOf k.desc n)
  woken : ∀ n ∈ sleep, Wakes k.desc n → ageOf m.desc n = priorityOf k.desc n
  priority : ∀ n, priorityOf m.desc n = priorityOf k.desc n
  letter : ∀ n, m.desc.get8 n Desc.state = k.desc.get8 n Desc.state ∨ (n ∈ sleep ∧ m.desc.get8 n Desc.state = stateActive)

theorem tickAccounts_eq (k : Kernel) (dev : Devices) : k.tickAccounts dev = ((counted k).alarmTick dev).clockTick := by
  unfold Kernel.tickAccounts counted
  rfl

theorem clockTick_desc (k : Kernel) : k.clockTick.desc = k.desc ∧ k.clockTick.proc = k.proc := ⟨rfl, rfl⟩

theorem Still.same (still : Still k dev) (n : Nat) :
    ageOf (k.tickAccounts dev).desc n = ageOf (counted k).desc n ∧
      ticksOf (k.tickAccounts dev).desc n = ticksOf (counted k).desc n ∧
      (k.tickAccounts dev).desc.get8 n Desc.state = (counted k).desc.get8 n Desc.state ∧
      priorityOf (k.tickAccounts dev).desc n = priorityOf (counted k).desc n ∧
      nextOf (k.tickAccounts dev).desc n = nextOf (counted k).desc n ∧
      prevOf (k.tickAccounts dev).desc n = prevOf (counted k).desc n := by
  have fields := still.fields
  rw [tickAccounts_eq, (clockTick_desc _).1]
  generalize (counted k).alarmTick dev = m at fields
  generalize (counted k).desc = h at fields ⊢
  refine ⟨fields.get16 n ?_, fields.get32 n ?_, fields.get8 n ?_, fields.get8 n (.inr rfl), fields.get32 n ?_, fields.get32 n ?_⟩
  · intro x low high
    unfold WakeOff QueueOff
    unfold Desc.age at low high
    omega
  · intro x low high
    unfold WakeOff
    unfold Desc.sleepTicks at low high
    omega
  · unfold WakeOff Desc.state
    omega
  · intro x low high
    unfold WakeOff QueueOff LinkOff
    unfold Desc.next at low high
    omega
  · intro x low high
    unfold WakeOff QueueOff LinkOff
    unfold Desc.prev at low high
    omega

theorem tickAccounts_accounted (scheduled : Scheduled k ready sleep) (still : Still k dev) :
    Accounted k (k.tickAccounts dev) ready sleep := by
  obtain ⟨rings, -, -, word⟩ := scheduled
  have aging := schedAgeAll_aged word rings.readyRing
  have rings₁ := rings.links aging.next aging.prev
  obtain ⟨rings₂, roused⟩ := sleepQDecrementAll_roused rings₁
  have wakes : ∀ n, Wakes (schedAgeAll k.desc k.sched.maxAge) n ↔ Wakes k.desc n := by
    intro n
    unfold Wakes
    rw [aging.ticks]
  have apart : ∀ n ∈ ready, n ∉ sleep := by
    intro n member within
    exact rings.disjoint (List.mem_cons_of_mem _ member) (List.mem_cons_of_mem _ within)
  have same := still.same
  have proc : (k.tickAccounts dev).proc = k.proc := by
    rw [tickAccounts_eq, (clockTick_desc _).2]
    exact still.proc
  have desc : (counted k).desc = sleepQDecrementAll (schedAgeAll k.desc k.sched.maxAge) := rfl
  simp only [wakes] at rings₂
  simp only [desc] at same
  generalize schedAgeAll k.desc k.sched.maxAge = h₁ at *
  generalize sleepQDecrementAll h₁ = h₂ at *
  refine ⟨proc, Threshold.tickAccounts_sched k dev, ?_, ?_, ?_, ?_, ?_, ?_⟩
  · exact rings₂.links (fun c => (same c).2.2.2.2.1) (fun c => (same c).2.2.2.2.2)
  · intro n member
    rw [(same n).2.1, ← aging.ticks]
    exact roused.counted n member
  · intro n member
    rw [(same n).1, ← aging.ages n member]
    exact (fields_same (roused.others n (apart n member))).1
  · intro n member last
    rw [(same n).1, ← aging.priority]
    exact (roused.woken n member ((wakes n).mpr last)).1
  · intro n
    rw [(same n).2.2.2.1, ← aging.priority]
    exact roused.priority n
  · intro n
    have letter : h₁.get8 n Desc.state = k.desc.get8 n Desc.state :=
      Mem.getU8_congr (aging.fields n _ (by decide))
    rw [(same n).2.2.1, ← letter]
    by_cases member : n ∈ sleep
    · by_cases last : Wakes k.desc n
      · exact .inr ⟨member, (roused.woken n member ((wakes n).mpr last)).2⟩
      · exact .inl (roused.asleep n member (fun w => last ((wakes n).mp w))).2
    · exact .inl (fields_same (roused.others n member)).2.2.1

end Accounts

theorem Oldest.congr {h h' : Heap} {minPty n : Nat} {nodes : List Nat} (oldest : Oldest h minPty nodes n)
    (same : ∀ b ∈ nodes, ageOf h' b = ageOf h b ∧ priorityOf h' b = priorityOf h b) : Oldest h' minPty nodes n := by
  obtain ⟨front, back, rfl, eligible, before, after⟩ := oldest
  have member : n ∈ front ++ n :: back := by simp
  unfold Eligible at *
  refine ⟨front, back, rfl, ?_, fun b inside fits => ?_, fun b inside fits => ?_⟩
  · rw [Eligible, (same n member).2]
    exact eligible
  · have there : b ∈ front ++ n :: back := List.mem_append_left _ inside
    rw [Eligible, (same b there).2] at fits
    rw [(same b there).1, (same n member).1]
    exact before b inside fits
  · have there : b ∈ front ++ n :: back := List.mem_append_right _ (List.mem_cons_of_mem _ inside)
    rw [Eligible, (same b there).2] at fits
    rw [(same b there).1, (same n member).1]
    exact after b inside fits

theorem due_perm (k : Kernel) (ready sleep : List Nat) :
    (due k ready sleep ++ sleep.filter (fun n => ¬ Wakes k.desc n)).Perm (ready ++ sleep) := by
  unfold due
  rw [List.append_assoc]
  refine List.Perm.append_left _ ?_
  have split := List.filter_append_perm (fun n => decide (Wakes k.desc n)) sleep
  simpa using split

section Tick
variable {k m k' : Kernel} {ready sleep : List Nat}

/-- No switch: everything is as the accounts left it. -/
theorem Accounted.stay (scheduled : Scheduled k ready sleep) (accounted : Accounted k m ready sleep) (desc : k'.desc = m.desc)
    (proc : k'.proc = m.proc) (maxAge : k'.sched.maxAge = m.sched.maxAge) (stays : ¬ Switches k (due k ready sleep)) :
    Scheduled k' (due k ready sleep) (sleep.filter (fun n => ¬ Wakes k.desc n)) ∧
      Ticked k k' ready sleep (due k ready sleep) (sleep.filter (fun n => ¬ Wakes k.desc n)) := by
  obtain ⟨same, sched, rings, ticks, ages, woken, priority, letter⟩ := accounted
  have perm := due_perm k ready sleep
  obtain ⟨-, live, running, word⟩ := scheduled
  refine ⟨⟨?_, fun b member => live b (perm.mem_iff.mp member), ?_, ?_⟩, ⟨rfl, ?_, ?_, ?_, fun _ => ⟨proc.trans same, rfl⟩,
    fun due => absurd due stays, ?_, ?_⟩⟩
  · rw [desc]
    exact rings
  · rw [proc, same]
    refine ⟨fun inside => running.1 ?_, running.2⟩
    simpa only [List.mem_cons, perm.mem_iff] using inside
  · rw [maxAge, sched]
    exact word
  · intro n member
    rw [desc]
    exact ticks n (List.mem_of_mem_filter member)
  · rw [desc]
    exact ages
  · rw [desc]
    exact woken
  · rw [proc, same, if_neg stays]
    exact perm.cons _
  · intro alive n member
    have before := alive n (perm.mem_iff.mp member)
    unfold Living at before ⊢
    rw [desc]
    rcases letter n with same | ⟨-, active⟩
    · rw [same]
      exact before
    · rw [active]
      decide

/-- The heap behind the switch: the process picked is out, the previous one in where it goes on. -/
def switchedHeap (h : Heap) (n p : Nat) (goes : Prop) [Decidable goes] : Heap :=
  if goes then schedInsert (listUnlink h n) p else listUnlink h n

theorem switchedHeap_fields (h : Heap) (n p : Nat) (goes : Prop) [Decidable goes] (b : Nat) :
    (goes → b ≠ p) → ageOf (switchedHeap h n p goes) b = ageOf h b ∧ ticksOf (switchedHeap h n p goes) b = ticksOf h b ∧
      (switchedHeap h n p goes).get8 b Desc.state = h.get8 b Desc.state ∧
      priorityOf (switchedHeap h n p goes) b = priorityOf h b := by
  intro other
  have out := fields_same (fun o outside => listUnlink_agree h n b o outside)
  unfold switchedHeap
  split
  · next inside =>
    have entered : ∀ o, ¬ LinkOff o → schedInsert (listUnlink h n) p b o = listUnlink h n b o := by
      intro o outside
      unfold schedInsert
      rw [listAppend_agree _ _ _ b o outside, set16_block _ _ _ (other inside)]
    obtain ⟨age, ticks, letter, priority⟩ := fields_same entered
    rw [age, ticks, letter, priority]
    exact out
  · exact out

theorem switchedHeap_congr {h : Heap} {n p : Nat} {goes goes' : Prop} [Decidable goes] [Decidable goes'] (same : goes ↔ goes') :
    switchedHeap h n p goes = switchedHeap h n p goes' := by
  unfold switchedHeap
  by_cases holds : goes
  · rw [if_pos holds, if_pos (same.mp holds)]
  · rw [if_neg holds, if_neg (fun other => holds (same.mpr other))]

theorem switchedHeap_rings {h : Heap} {n p : Nat} {front back rest : List Nat} (goes : Prop) [Decidable goes]
    (rings : Rings h (front ++ n :: back) rest) (fits : p < 4294967296)
    (out : p ∉ readyQ :: sleepQ :: (front ++ n :: back ++ rest)) :
    Rings (switchedHeap h n p goes) (front ++ back ++ if goes then [p] else []) rest := by
  have taken := rings.take
  unfold switchedHeap
  split
  · refine taken.enter fits (fun inside => out ?_)
    simp only [List.mem_cons, List.mem_append] at inside ⊢
    tauto
  · rw [List.append_nil]
    exact taken

theorem switchedHeap_age {h : Heap} {n p : Nat} {goes : Prop} [Decidable goes] (holds : goes) :
    ageOf (switchedHeap h n p goes) p = priorityOf h p := by
  unfold switchedHeap
  rw [if_pos holds, schedInsert_age]
  exact (fields_same (fun o outside => listUnlink_agree h n p o outside)).2.2.2

theorem switchedHeap_letter {h : Heap} {n p : Nat} {goes : Prop} [Decidable goes] (b : Nat) :
    (switchedHeap h n p goes).get8 b Desc.state = h.get8 b Desc.state := by
  have unlinked := (listUnlink_agree h n).get8 b (o := Desc.state) (by unfold LinkOff Desc.state; omega)
  unfold switchedHeap
  split
  · rw [(schedInsert_agree _ _).get8 b (by unfold QueueOff LinkOff Desc.state; omega), unlinked]
  · exact unlinked

/-- A switch to the oldest one. -/
theorem Accounted.switch (scheduled : Scheduled k ready sleep) (accounted : Accounted k m ready sleep) {n : Nat}
    (oldest : Oldest m.desc m.sched.minPty (due k ready sleep) n)
    (desc : k'.desc = switchedHeap m.desc n k.proc (k.proc ≠ 0 ∧ Living k k.proc)) (proc : k'.proc = n)
    (maxAge : k'.sched.maxAge = m.sched.maxAge) (switches : Switches k (due k ready sleep)) :
    Scheduled k' ((due k ready sleep).erase n ++ returned k) (sleep.filter (fun n => ¬ Wakes k.desc n)) ∧
      Ticked k k' ready sleep ((due k ready sleep).erase n ++ returned k) (sleep.filter (fun n => ¬ Wakes k.desc n)) := by
  have perm := due_perm k ready sleep
  obtain ⟨same, sched, rings, ticks, ages, woken, priority, letter⟩ := accounted
  obtain ⟨-, live, ⟨out, fits⟩, word⟩ := scheduled
  generalize is_due : due k ready sleep = nodes at *
  generalize is_rest : sleep.filter (fun n => ¬ Wakes k.desc n) = rest at *
  have outside : k.proc ∉ nodes ++ rest := by
    intro inside
    have member := perm.mem_iff.mp inside
    simp only [List.mem_cons, not_or] at out
    exact out.2.2 member
  have others : ∀ b ∈ nodes ++ rest, b ≠ k.proc := by
    rintro b inside rfl
    exact outside inside
  have kept := fun b (inside : b ∈ nodes ++ rest) => switchedHeap_fields m.desc n k.proc (k.proc ≠ 0 ∧ Living k k.proc) b
    (fun _ => others b inside)
  rw [← desc] at kept
  have oldest' : Oldest k'.desc k.sched.minPty nodes n := by
    rw [← sched]
    refine oldest.congr (fun b inside => ?_)
    obtain ⟨age, -, -, priority⟩ := kept b (List.mem_append_left _ inside)
    exact ⟨age, priority⟩
  obtain ⟨front, back, rfl, -⟩ := oldest
  have nodup := rings.readyRing.nodup
  have erased : (front ++ n :: back).erase n = front ++ back := by
    rw [← List.cons_append, List.nodup_middle, List.nodup_cons, List.cons_append] at nodup
    simp only [List.mem_cons, List.mem_append, not_or] at nodup
    rw [List.erase_append_right _ nodup.1.2.1, List.erase_cons_head]
  have member : n ∈ front ++ n :: back := by simp
  have rearranged : (n :: (front ++ back ++ returned k ++ rest)).Perm (returned k ++ (front ++ n :: back ++ rest)) := by
    have first : (n :: (front ++ back)).Perm (front ++ n :: back) := List.perm_middle.symm
    have second := (first.append_right (returned k)).append_right rest
    have swapped : (front ++ n :: back ++ returned k).Perm (returned k ++ (front ++ n :: back)) := List.perm_append_comm
    have third := swapped.append_right rest
    rw [List.append_assoc (returned k)] at third
    exact second.trans third
  have bounds : readyQ ∉ sleepQ :: (front ++ n :: back ++ rest) := (List.nodup_cons.mp rings.apart).1
  have whole : k.proc ∉ readyQ :: sleepQ :: (front ++ n :: back ++ rest) := by
    simp only [List.mem_cons, not_or] at out ⊢
    exact ⟨out.1, out.2.1, outside⟩
  have switched := switchedHeap_rings (k.proc ≠ 0 ∧ Living k k.proc) rings fits whole
  rw [← desc] at switched
  have back_in : ∀ b ∈ returned k, b = k.proc ∧ k.proc ≠ 0 ∧ Living k k.proc := by
    intro b inside
    unfold returned at inside
    split at inside
    · next goes => exact ⟨List.mem_singleton.mp inside, goes⟩
    · cases inside
  have asleep : ∀ b ∈ sleep, b ∈ front ++ n :: back ++ rest := fun b inside =>
    perm.mem_iff.mpr (List.mem_append_right _ inside)
  have waiting : ∀ b ∈ ready, b ∈ front ++ n :: back ++ rest := fun b inside =>
    perm.mem_iff.mpr (List.mem_append_left _ inside)
  have remains : ∀ b ∈ front ++ back ++ returned k ++ rest, b ∈ returned k ∨ b ∈ front ++ n :: back ++ rest := by
    intro b inside
    simp only [List.mem_append, List.mem_cons] at inside ⊢
    tauto
  rw [erased]
  refine ⟨⟨switched, ?_, ?_, ?_⟩, ⟨is_rest.symm, ?_, ?_, ?_, fun stays => ?_, fun _ => ⟨?_, ?_, ?_⟩, ?_, ?_⟩⟩
  · intro b inside
    rcases remains b inside with gone | old
    · obtain ⟨rfl, running, -⟩ := back_in b gone
      exact running
    · exact live b (perm.mem_iff.mp old)
  · rw [proc]
    refine ⟨?_, rings.readyRing.small member⟩
    have notSleep := rings.disjoint (List.mem_cons_of_mem _ member)
    have notReturned : n ∉ returned k := fun inside => others n (List.mem_append_left _ member) (back_in n inside).1
    rw [← List.cons_append, List.nodup_middle, List.nodup_cons] at nodup
    have notReady := nodup.1
    simp only [List.cons_append, List.mem_cons, List.mem_append, not_or] at notSleep notReady ⊢
    tauto
  · rw [maxAge, sched]
    exact word
  · intro b inside
    have old : b ∈ sleep := by
      rw [← is_rest] at inside
      exact List.mem_of_mem_filter inside
    rw [(kept b (asleep b old)).2.1]
    exact ticks b old
  · intro b inside
    rw [(kept b (waiting b inside)).1]
    exact ages b inside
  · intro b inside last
    rw [(kept b (asleep b inside)).1]
    exact woken b inside last
  · rw [is_due] at stays
    exact absurd switches stays
  · rw [is_due, proc]
    exact oldest'
  · rw [is_due, proc, erased]
  · intro b inside
    obtain ⟨rfl, goes⟩ := back_in b inside
    rw [desc, switchedHeap_age goes, priority]
  · rw [proc, is_due, if_pos switches]
    exact rearranged.trans (List.Perm.append_left _ perm)
  · intro alive b inside
    unfold Living
    rw [desc, switchedHeap_letter]
    have before : Living k b := by
      rcases remains b inside with gone | old
      · obtain ⟨rfl, -, lives⟩ := back_in b gone
        exact lives
      · exact alive b (perm.mem_iff.mp old)
    unfold Living at before
    rcases letter b with same | ⟨-, active⟩
    · rw [same]
      exact before
    · rw [active]
      decide

theorem Accounted.eligible (accounted : Accounted k m ready sleep) (minPty n : Nat) :
    Eligible m.desc minPty n ↔ Eligible k.desc minPty n := by
  unfold Eligible
  rw [accounted.priority]

theorem Accounted.running_living (accounted : Accounted k m ready sleep) (scheduled : Scheduled k ready sleep) :
    Living m k.proc ↔ Living k k.proc := by
  have out := scheduled.running.1
  simp only [List.mem_cons, List.mem_append, not_or] at out
  have letter := (accounted.letter k.proc).resolve_right (fun both => out.2.2.2 both.1)
  unfold Living
  rw [letter]

theorem schedSwitch_none {h : Heap} (picked : schedPickHighestAge m.desc m.sched.minPty = (0, h)) :
    m.schedSwitch = { m with desc := h, sched := { m.sched with slice := schedTslice } } := by
  unfold Kernel.schedSwitch
  rw [picked]
  rfl

theorem schedSwitch_some {n : Nat} (live : n ≠ 0)
    (picked : schedPickHighestAge m.desc m.sched.minPty = (n, listUnlink m.desc n)) :
    m.schedSwitch.desc = switchedHeap m.desc n m.proc (m.proc ≠ 0 ∧ Living m m.proc) ∧ m.schedSwitch.proc = n ∧
      m.schedSwitch.sched.maxAge = m.sched.maxAge := by
  have letter : (listUnlink m.desc n).get8 m.proc Desc.state = m.desc.get8 m.proc Desc.state :=
    (listUnlink_agree m.desc n).get8 m.proc (by unfold LinkOff Desc.state; omega)
  unfold Kernel.schedSwitch
  rw [picked]
  dsimp only
  rw [if_neg live, letter]
  exact ⟨rfl, rfl, rfl⟩

/-- One tick on well-formed queues leaves well-formed queues. -/
theorem tick_schedules {dev : Devices} (scheduled : Scheduled k ready sleep) (still : Still k dev) :
    ∃ ready' sleep', Scheduled (k.schedReschedule dev) ready' sleep' ∧
      Ticked k (k.schedReschedule dev) ready sleep ready' sleep' := by
  have accounted := tickAccounts_accounted scheduled still
  unfold Kernel.schedReschedule
  generalize k.tickAccounts dev = m at accounted
  have sched := accounted.sched
  have proc := accounted.proc
  unfold Kernel.sliceEnd
  by_cases masked : m.sched.noSwitch = 0
  · rw [if_neg (fun other => other masked)]
    by_cases slice : m.sched.slice = 0
    · rw [if_neg (by omega)]
      have live : ∀ b ∈ due k ready sleep, b ≠ 0 := fun b inside =>
        scheduled.live b ((due_perm k ready sleep).mem_iff.mp (List.mem_append_left _ inside))
      rcases @pick_oldest _ m.sched.minPty _ accounted.rings.readyRing live with ⟨nobody, none⟩ | ⟨n, some_one, oldest, found⟩
      · rw [schedSwitch_none none]
        refine ⟨_, _, accounted.stay scheduled rfl rfl rfl ?_⟩
        rintro ⟨-, -, b, inside, eligible⟩
        refine nobody b inside ((accounted.eligible _ b).mpr ?_)
        rw [sched]
        exact eligible
      · obtain ⟨desc, runs, maxAge⟩ := schedSwitch_some some_one found
        refine ⟨_, _, accounted.switch scheduled oldest ?_ runs maxAge ?_⟩
        · rw [desc, proc]
          exact switchedHeap_congr (and_congr_right fun _ => accounted.running_living scheduled)
        · obtain ⟨front, back, is, eligible, -⟩ := oldest
          refine ⟨sched ▸ masked, sched ▸ slice, n, by rw [is]; simp, ?_⟩
          rw [← sched]
          exact (accounted.eligible _ n).mp eligible
    · rw [if_pos (by omega)]
      refine ⟨_, _, accounted.stay scheduled rfl rfl rfl ?_⟩
      rintro ⟨-, last, -⟩
      rw [sched] at slice
      exact slice last
  · rw [if_pos masked]
    refine ⟨_, _, accounted.stay scheduled rfl rfl rfl ?_⟩
    rintro ⟨free, -⟩
    rw [sched] at masked
    exact masked free

end Tick

/-! ### How long F$Sleep lasts -/

/-- The queues around the tick with a process asleep that has `count` ticks to go. -/
def Asleep (p count : Nat) (k : Kernel) : Prop :=
  ∃ ready sleep, Scheduled k ready sleep ∧ p ∈ sleep ∧ ticksOf k.desc p = count

/-- The process is ready again, or runs. -/
def Awake (p : Nat) (k : Kernel) : Prop :=
  ∃ ready sleep, Scheduled k ready sleep ∧ p ∉ sleep ∧ (p ∈ ready ∨ p = k.proc)

inductive Event where
  | tick (dev : Devices)
  /-- The system goes on until it is in the state `k`. -/
  | meanwhile (k : Kernel)

def step (k : Kernel) : Event → Option Kernel
  | .tick dev => some (k.schedReschedule dev)
  | .meanwhile k' => some k'

def Event.ticks : List Event → Nat
  | [] => 0
  | .tick _ :: events => ticks events + 1
  | .meanwhile _ :: events => ticks events

/-- The alarms move nobody, and between two ticks nobody wakes `p` or changes its count. -/
def Calm (p : Nat) (k : Kernel) : Event → Prop
  | .tick dev => Still k dev
  | .meanwhile k' => ∀ count, Asleep p count k → Asleep p count k'

section Sleeping
variable {k k' : Kernel} {p count : Nat} {dev : Devices}

theorem Asleep.tick (asleep : Asleep p (count + 2) k) (still : Still k dev) (small : count + 2 < sleepInfinite) :
    Asleep p (count + 1) (k.schedReschedule dev) := by
  obtain ⟨ready, sleep, scheduled, member, ticks⟩ := asleep
  obtain ⟨ready', sleep', scheduled', ticked⟩ := tick_schedules scheduled still
  have stays : p ∈ sleep' := by
    rw [ticked.sleepers]
    refine List.mem_filter.mpr ⟨member, ?_⟩
    simp [Wakes, ticks]
  refine ⟨ready', sleep', scheduled', stays, ?_⟩
  rw [ticked.counted p stays, ticks, slept, if_neg (by omega)]
  omega

theorem Asleep.last (asleep : Asleep p 1 k) (still : Still k dev) : Awake p (k.schedReschedule dev) := by
  obtain ⟨ready, sleep, scheduled, member, ticks⟩ := asleep
  obtain ⟨ready', sleep', scheduled', ticked⟩ := tick_schedules scheduled still
  have wakes : Wakes k.desc p := ticks.le
  have inside : p ∈ due k ready sleep := List.mem_append_right _ (List.mem_filter.mpr ⟨member, by simpa using wakes⟩)
  refine ⟨ready', sleep', scheduled', ?_, ?_⟩
  · rw [ticked.sleepers]
    simp [wakes]
  · by_cases switches : Switches k (due k ready sleep)
    · obtain ⟨-, is, -⟩ := ticked.switches switches
      by_cases runs : p = (k.schedReschedule dev).proc
      · exact .inr runs
      · left
        rw [is]
        exact List.mem_append_left _ ((List.mem_erase_of_ne runs).mpr inside)
    · obtain ⟨-, is⟩ := ticked.stays switches
      left
      rw [is]
      exact inside

theorem Asleep.run {events : List Event} (asleep : Asleep p count k) (small : count < sleepInfinite)
    (calm : RunMeets step (Calm p) k events) (ran : run step k events = some k') (early : Event.ticks events < count) :
    Asleep p (count - Event.ticks events) k' := by
  induction events generalizing k count with
  | nil =>
    cases ran
    exact asleep
  | cons event events ih =>
    obtain ⟨mid, stepped, rest⟩ := run_cons ran
    obtain ⟨first, later⟩ := calm
    cases event with
    | tick dev =>
      obtain rfl := Option.some.inj stepped
      rw [Event.ticks] at early ⊢
      obtain ⟨c, rfl⟩ := Nat.exists_eq_add_of_le (show 2 ≤ count by omega)
      rw [Nat.add_comm] at asleep
      have next := ih (asleep.tick first (by omega)) (by omega) (later _ rfl) rest (by omega)
      rwa [show 2 + c - (Event.ticks events + 1) = c + 1 - Event.ticks events by omega]
    | meanwhile k'' =>
      obtain rfl := Option.some.inj stepped
      exact ih (first count asleep) small (later _ rfl) rest early

end Sleeping

theorem Rings.park {h : Heap} {ready sleep : List Nat} {n : Nat} (rings : Rings h ready sleep) (fits : n < 4294967296)
    (fresh : n ∉ readyQ :: sleepQ :: (ready ++ sleep)) : Rings (sleepQInsert h n) ready (sleep ++ [n]) := by
  have out : n ∉ readyQ :: ready ∧ n ∉ sleepQ :: sleep := by
    simp only [List.mem_cons, List.mem_append, not_or] at fresh ⊢
    tauto
  refine ⟨?_, rings.sleepRing.append (by decide) fits out.2, ?_⟩
  · refine rings.sleepRing.append_apart (by decide) fits rings.readyRing (fun c inside => ⟨rings.disjoint inside, ?_⟩)
    rintro rfl
    exact out.1 inside
  · have perm : (readyQ :: sleepQ :: (ready ++ (sleep ++ [n]))).Perm (n :: readyQ :: sleepQ :: (ready ++ sleep)) := by
      rw [← List.append_assoc, ← List.cons_append, ← List.cons_append]
      exact List.perm_append_singleton _ _
    exact perm.nodup_iff.mpr (List.nodup_cons.mpr ⟨fresh, rings.apart⟩)

/-- The heap when the caller of F$Sleep is asleep, before the next process is picked. -/
def parked (k : Kernel) (sp n : Nat) : Heap :=
  Kernel.sleepPark (Sleep.opened (k.saveSp sp) k.proc) k.proc n

section Call
variable {k : Kernel} {ready sleep : List Nat} {sp n : Nat}

theorem parked_eq (long : 2 ≤ n) : parked k sp n =
    sleepQInsert (((Sleep.opened (k.saveSp sp) k.proc).set8 k.proc Desc.state stateSleeping).set32 k.proc Desc.sleepTicks
      (n - 1)) k.proc := by
  unfold parked Kernel.sleepPark
  rw [if_neg (by omega), if_neg (by omega)]

theorem parked_rings (scheduled : Scheduled k ready sleep) (long : 2 ≤ n) :
    Rings (parked k sp n) ready (sleep ++ [k.proc]) := by
  rw [parked_eq long]
  refine Rings.park (scheduled.rings.links (fun c => ?_) (fun c => ?_)) scheduled.running.2 scheduled.running.1
  · exact (get32_set32_off _ _ _ _ (by decide)).trans ((get32_set8_off _ _ _ _ (by decide)).trans
      ((get32_set8_off _ _ _ _ (by decide)).trans (get32_set32_off _ _ _ _ (by decide))))
  · exact (get32_set32_off _ _ _ _ (by decide)).trans ((get32_set8_off _ _ _ _ (by decide)).trans
      ((get32_set8_off _ _ _ _ (by decide)).trans (get32_set32_off _ _ _ _ (by decide))))

theorem parked_ticks (long : 2 ≤ n) (small : n < 0x80000000) : ticksOf (parked k sp n) k.proc = n - 1 := by
  rw [parked_eq long]
  have linked := listAppend_agree (((Sleep.opened (k.saveSp sp) k.proc).set8 k.proc Desc.state stateSleeping).set32 k.proc
    Desc.sleepTicks (n - 1)) sleepQ k.proc
  refine (fields_same (fun o outside => linked k.proc o outside)).2.1.trans ?_
  exact get32_set32_of_lt _ _ _ (by omega)

theorem sysSleep_eq (quiet : k.desc.get16 k.proc Desc.signal = 0) (small : n < 0x80000000) :
    ∃ ram, k.sysSleep sp n = Kernel.switchTo { k.saveSp sp with ram := ram, desc := parked k sp n }.schedFirstPick := by
  have opened : (Sleep.opened (k.saveSp sp) k.proc).get16 k.proc Desc.signal = 0 := by
    rw [← quiet]
    exact (get16_set8_off _ _ _ _ (by decide)).trans (get16_set32_off _ _ _ _ (by decide))
  have ticks : Kernel.sleepTicksOf n = n := if_neg (by omega)
  unfold Kernel.sysSleep Kernel.procSleep
  dsimp only
  rw [if_neg (by rw [show ((k.saveSp sp).desc.set8 k.proc Desc.sigLvl 0) = Sleep.opened (k.saveSp sp) k.proc from rfl, opened]; simp),
    ticks]
  exact ⟨_, rfl⟩

/-- The caller of F$Sleep is in the sleep queue while another process runs. -/
theorem sysSleep_asleep (scheduled : Scheduled k ready sleep) (live : k.proc ≠ 0)
    (idle : k.idleProc ∉ k.proc :: readyQ :: sleepQ :: (ready ++ sleep) ∧ k.idleProc < 4294967296)
    (quiet : k.desc.get16 k.proc Desc.signal = 0) (long : 2 ≤ n) (small : n < 0x80000000) :
    Asleep k.proc (n - 1) (k.sysSleep sp n) := by
  obtain ⟨ram, is⟩ : ∃ ram, k.sysSleep sp n = _ := sysSleep_eq quiet small
  have rings : Rings (parked k sp n) ready (sleep ++ [k.proc]) := parked_rings scheduled long
  have ticks : ticksOf (parked k sp n) k.proc = n - 1 := parked_ticks long small
  obtain ⟨-, lives, -, word⟩ := scheduled
  have alive : ∀ b ∈ ready ++ (sleep ++ [k.proc]), b ≠ 0 := by
    intro b inside
    rw [← List.append_assoc] at inside
    rcases List.mem_append.mp inside with old | last
    · exact lives b old
    · obtain rfl := List.mem_singleton.mp last
      exact live
  rw [is]
  unfold Kernel.schedFirstPick Kernel.switchTo
  dsimp only
  rcases pick_cases rings.readyRing 0 with none | ⟨node, front, back, some_one, rfl, found⟩
  · rw [none]
    simp only [ne_eq, not_true_eq_false, if_false]
    refine ⟨ready, sleep ++ [k.proc], ⟨rings, alive, ⟨?_, idle.2⟩, word⟩, by simp, ticks⟩
    have out := idle.1
    show k.idleProc ∉ _
    simp only [List.mem_cons, List.mem_append, List.not_mem_nil, or_false, not_or] at out ⊢
    tauto
  · rw [found]
    simp only [ne_eq, some_one, not_false_eq_true, if_true]
    have member : node ∈ front ++ node :: back := by simp
    have sub : (front ++ back).Sublist (front ++ node :: back) := List.Sublist.append_left (List.sublist_cons_self _ _) _
    have nodup := rings.readyRing.nodup
    have notSleep := rings.disjoint (List.mem_cons_of_mem _ member)
    rw [← List.cons_append, List.nodup_middle, List.nodup_cons] at nodup
    have notReady := nodup.1
    refine ⟨front ++ back, sleep ++ [k.proc], ⟨rings.take, ?_, ⟨?_, rings.readyRing.small member⟩, word⟩, by simp, ?_⟩
    · intro b inside
      exact alive b ((sub.append_right _).subset inside)
    · simp only [List.cons_append, List.mem_cons, List.mem_append, not_or] at notSleep notReady ⊢
      tauto
    · exact (fields_same (fun o outside => listUnlink_agree _ node k.proc o outside)).2.1.trans ticks

end Call

/-- A process that sleeps `n` ticks. -/
structure Sleeps (k : Kernel) (ready sleep : List Nat) (n : Nat) : Prop where
  live : k.proc ≠ 0
  idle : k.idleProc ∉ k.proc :: readyQ :: sleepQ :: (ready ++ sleep) ∧ k.idleProc < 4294967296
  quiet : k.desc.get16 k.proc Desc.signal = 0
  long : 2 ≤ n
  small : n < 0x80000000

/-- What a tick does to the queues, and that F$Sleep(n) makes its caller ready at the tick before the
`n`th one and not earlier. -/
theorem tick_scheduling {k : Kernel} {ready sleep : List Nat} (scheduled : Scheduled k ready sleep) :
    (∀ dev, Still k dev → ∃ ready' sleep', Scheduled (k.schedReschedule dev) ready' sleep' ∧
      Ticked k (k.schedReschedule dev) ready sleep ready' sleep') ∧
    ∀ sp n events k', Sleeps k ready sleep n → RunMeets step (Calm k.proc) (k.sysSleep sp n) events →
      run step (k.sysSleep sp n) events = some k' →
        (Event.ticks events < n - 1 → Asleep k.proc (n - 1 - Event.ticks events) k') ∧
          ∀ dev, Event.ticks events + 1 = n - 1 → Still k' dev → Awake k.proc (k'.schedReschedule dev) := by
  refine ⟨fun dev still => tick_schedules scheduled still, fun sp n events k' sleeps calm ran => ?_⟩
  obtain ⟨live, idle, quiet, long, small⟩ := sleeps
  have asleep : Asleep k.proc (n - 1) (k.sysSleep sp n) := sysSleep_asleep scheduled live idle quiet long small
  have fits : n - 1 < sleepInfinite := by
    unfold sleepInfinite
    omega
  refine ⟨fun early => asleep.run fits calm ran early, fun dev last still => ?_⟩
  have nearly := asleep.run fits calm ran (by omega)
  rw [show n - 1 - Event.ticks events = 1 by omega] at nearly
  exact nearly.last still

/-! ### Without alarms -/

theorem alarmSteps_none {k : Kernel} (dev : Devices) {slots : List Nat} (free : ∀ i ∈ slots, (k.alarms.slots i).id = 0) :
    k.alarmSteps dev slots = k := by
  induction slots with
  | nil => rfl
  | cons i slots ih =>
    have first : k.alarmStep dev i = k := by
      unfold Kernel.alarmStep
      exact if_pos (free i List.mem_cons_self)
    rw [Kernel.alarmSteps, first]
    exact ih (fun j later => free j (List.mem_cons_of_mem _ later))

theorem setDesc_proc (k : Kernel) (h : Heap) : ({ k with desc := h } : Kernel).proc = k.proc := rfl

theorem setDesc_alarms (k : Kernel) (h : Heap) : ({ k with desc := h } : Kernel).alarms = k.alarms := rfl

theorem counted_proc (k : Kernel) : (counted k).proc = k.proc := setDesc_proc k _

theorem counted_alarms (k : Kernel) : (counted k).alarms = k.alarms := setDesc_alarms k _

theorem still_without_alarms {k : Kernel} (dev : Devices) (console : k.alarms.conPid = 0)
    (free : ∀ i ∈ List.range alarmSlots, (k.alarms.slots i).id = 0) : Still k dev := by
  have quiet : (counted k).conSSigTick dev = counted k := by
    unfold Kernel.conSSigTick
    rw [counted_alarms]
    exact if_pos (.inl console)
  have same : (counted k).alarmTick dev = counted k := by
    unfold Kernel.alarmTick
    rw [quiet]
    refine alarmSteps_none dev ?_
    rw [counted_alarms]
    exact free
  refine ⟨?_, ?_⟩
  · rw [same]
    exact counted_proc k
  · rw [same]
    exact Agree.rfl

theorem switched_alarms (k : Kernel) : (Kernel.switchTo k.schedFirstPick).alarms = k.alarms := by
  rw [Kernel.schedFirstPick_eq]
  obtain ⟨first, heap⟩ := schedPickHighestAge k.desc 0
  unfold Kernel.runPicked Kernel.switchTo
  cases k
  dsimp only
  split_ifs
  all_goals rfl

/-- Both queues empty. -/
def noOne : Heap := fun b =>
  if b = readyQ ∨ b = sleepQ then (Mem.setU32 (fun _ => 0) Desc.next b).setU32 Desc.prev b else fun _ => 0

theorem noOne_rings : Rings noOne [] [] := by
  have empty : ∀ s, s = readyQ ∨ s = sleepQ → Queue noOne s [] := by
    intro s sentinel
    have there : noOne s = (Mem.setU32 (fun _ => 0) Desc.next s).setU32 Desc.prev s := if_pos sentinel
    have small : s < 4294967296 := by
      rcases sentinel with rfl | rfl
      · decide
      · decide
    refine ⟨⟨?_, ?_⟩, List.nodup_singleton _⟩
    · unfold nextOf Heap.get32
      rw [there, Mem.getU32_setU32_apart _ _ (by decide)]
      exact Mem.getU32_setU32_of_lt _ _ small
    · unfold prevOf Heap.get32
      rw [there]
      exact Mem.getU32_setU32_of_lt _ _ small
  exact ⟨empty _ (.inl rfl), empty _ (.inr rfl), by decide⟩

/-- A running process and an idle one, a process that is ready and one that sleeps for five more ticks. -/
def nap : Kernel :=
  { Kernel.zeroed 0 0 with
    proc := 0x100000
    idleProc := 0x2000
    desc := sleepQInsert ((schedInsert noOne 0x3000).set32 0x4000 Desc.sleepTicks 5) 0x4000 }

theorem nap_scheduled : Scheduled nap [0x3000] [0x4000] := by
  have ready := noOne_rings.enter (n := 0x3000) (by decide) (by decide)
  have counted : Rings ((schedInsert noOne 0x3000).set32 0x4000 Desc.sleepTicks 5) [0x3000] [] :=
    ready.links (fun c => get32_set32_off _ _ _ _ (by decide)) (fun c => get32_set32_off _ _ _ _ (by decide))
  exact ⟨counted.park (by decide) (by decide), by decide, ⟨by decide, by decide⟩, by decide⟩

/-- Midnight, and nothing typed. -/
def midnight : Devices := ⟨⟨0, 0, 0, 1, 1, 0⟩, false⟩

/-- A tick takes one from the sleeper's count, and F$Sleep(2) ends at the first one. -/
theorem tick_scheduling_nap :
    (∃ ready', Scheduled (nap.schedReschedule midnight) ready' [0x4000]) ∧
      ticksOf (nap.schedReschedule midnight).desc 0x4000 = 4 ∧
      Awake 0x100000 ((nap.sysSleep 0x800 2).schedReschedule midnight) := by
  obtain ⟨tick, sleep⟩ := tick_scheduling nap_scheduled
  obtain ⟨ready', sleep', scheduled, ticked⟩ := tick midnight (still_without_alarms midnight rfl (fun _ _ => rfl))
  have stays : sleep' = [0x4000] := ticked.sleepers.trans (by decide)
  have count := ticked.counted 0x4000 (by simp [stays])
  rw [stays] at scheduled
  refine ⟨⟨ready', scheduled⟩, count.trans (by decide), ?_⟩
  have sleeps : Sleeps nap [0x3000] [0x4000] 2 := ⟨by decide, ⟨by decide, by decide⟩, by decide, by decide, by decide⟩
  have still : Still (nap.sysSleep 0x800 2) midnight := by
    obtain ⟨ram, is⟩ : ∃ ram, nap.sysSleep 0x800 2 = _ := sysSleep_eq (by decide) (by decide)
    rw [is]
    refine still_without_alarms midnight ?_ (fun i _ => ?_)
    · rw [switched_alarms]
      rfl
    · rw [switched_alarms]
      rfl
  exact (sleep 0x800 2 [] _ sleeps trivial rfl).2 midnight rfl still

end Q9OS.Ticks

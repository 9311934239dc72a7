import Q9OS.Process.Rings

/-!
# Ageing, counting and choosing

The three walks of the scheduler on the ready and the sleep queue as lists.
-/

namespace Q9OS.Ticks

open Heap

/-! ### Fields -/

def ageOf (h : Heap) (n : Nat) : Nat := h.get16 n Desc.age

def priorityOf (h : Heap) (n : Nat) : Nat := h.get8 n Desc.priority

def ticksOf (h : Heap) (n : Nat) : Nat := h.get32 n Desc.sleepTicks

/-- A waiting process grows older by one up to 0xFFFF; with a limit those below it up to the limit. -/
def aged (limit priority age : Nat) : Nat :=
  if limit = 0 then min (age + 1) 0xFFFF
  else if priority ≥ limit then age
  else if age < limit then age + 1
  else age

/-- The sleeper's last tick. -/
def Wakes (h : Heap) (n : Nat) : Prop := ticksOf h n ≤ 1

instance (h : Heap) (n : Nat) : Decidable (Wakes h n) := inferInstanceAs (Decidable (_ ≤ _))

def slept (ticks : Nat) : Nat := if ticks = sleepInfinite then ticks else ticks - 1

def Eligible (h : Heap) (minPty n : Nat) : Prop := minPty = 0 ∨ priorityOf h n ≥ minPty

instance (h : Heap) (minPty n : Nat) : Decidable (Eligible h minPty n) := inferInstanceAs (Decidable (_ ∨ _))

/-- The first of the oldest among those eligible. -/
def Oldest (h : Heap) (minPty : Nat) (nodes : List Nat) (n : Nat) : Prop :=
  ∃ front back, nodes = front ++ n :: back ∧ Eligible h minPty n ∧
    (∀ b ∈ front, Eligible h minPty b → ageOf h b < ageOf h n) ∧ (∀ b ∈ back, Eligible h minPty b → ageOf h b ≤ ageOf h n)

/-! ### Ageing -/

theorem ageNode_block (h : Heap) (limit n : Nat) {b : Nat} (other : b ≠ n) : ageNode h limit n b = h b := by
  unfold ageNode
  split_ifs
  all_goals first
    | exact set16_block _ _ _ other
    | rfl

theorem ageNode_off (h : Heap) (limit n b : Nat) {o : Nat} (apart : o < Desc.age ∨ Desc.age + 2 ≤ o) :
    ageNode h limit n b o = h b o := by
  unfold ageNode
  split_ifs
  all_goals first
    | exact set16_off _ _ _ _ apart
    | rfl

theorem ageNode_age (h : Heap) {limit : Nat} (word : limit < 65536) (n : Nat) :
    ageOf (ageNode h limit n) n = aged limit (priorityOf h n) (ageOf h n) := by
  have below := h.get16_lt n Desc.age
  unfold ageNode aged ageOf priorityOf
  dsimp only
  split_ifs
  all_goals first
    | (rw [get16_set16]; omega)
    | omega

/-- What ageing leaves: other fields, other processes, and the new ages. -/
structure Aged (limit : Nat) (nodes : List Nat) (h h' : Heap) : Prop where
  fields : ∀ b o, o < Desc.age ∨ Desc.age + 2 ≤ o → h' b o = h b o
  others : ∀ b, b ∉ nodes → h' b = h b
  ages : ∀ n ∈ nodes, ageOf h' n = aged limit (priorityOf h n) (ageOf h n)

theorem Aged.next {limit : Nat} {nodes : List Nat} {h h' : Heap} (aging : Aged limit nodes h h') (c : Nat) :
    nextOf h' c = nextOf h c :=
  Mem.getU32_congr (fun x low high => aging.fields c x (by unfold Desc.next at low; unfold Desc.age; omega))

theorem Aged.prev {limit : Nat} {nodes : List Nat} {h h' : Heap} (aging : Aged limit nodes h h') (c : Nat) :
    prevOf h' c = prevOf h c :=
  Mem.getU32_congr (fun x low high => aging.fields c x (by unfold Desc.prev at low; unfold Desc.age; omega))

theorem Aged.priority {limit : Nat} {nodes : List Nat} {h h' : Heap} (aging : Aged limit nodes h h') (c : Nat) :
    priorityOf h' c = priorityOf h c :=
  Mem.getU8_congr (aging.fields c _ (by decide))

theorem Aged.ticks {limit : Nat} {nodes : List Nat} {h h' : Heap} (aging : Aged limit nodes h h') (c : Nat) :
    ticksOf h' c = ticksOf h c :=
  Mem.getU32_congr (fun x low high => aging.fields c x (by unfold Desc.sleepTicks at low; unfold Desc.age; omega))

theorem ageNode_aged (h : Heap) {limit : Nat} (word : limit < 65536) (n : Nat) : Aged limit [n] h (ageNode h limit n) where
  fields b o apart := ageNode_off h limit n b apart
  others b out := ageNode_block h limit n (by simpa using out)
  ages m member := by
    obtain rfl := List.mem_singleton.mp member
    exact ageNode_age h word m

theorem Aged.trans {limit n : Nat} {nodes : List Nat} {h h' h'' : Heap} (first : Aged limit [n] h h')
    (rest : Aged limit nodes h' h'') (fresh : n ∉ nodes) : Aged limit (n :: nodes) h h'' := by
  refine ⟨fun b o apart => (rest.fields b o apart).trans (first.fields b o apart), fun b out => ?_, fun m member => ?_⟩
  · simp only [List.mem_cons, not_or] at out
    rw [rest.others b out.2, first.others b (by simpa using out.1)]
  · rcases List.mem_cons.mp member with rfl | later
    · rw [← first.ages m List.mem_cons_self]
      unfold ageOf Heap.get16
      rw [rest.others m fresh]
    · have other : m ∉ [n] := by
        intro same
        exact fresh ((List.mem_singleton.mp same) ▸ later)
      rw [rest.ages m later, first.priority]
      unfold ageOf Heap.get16
      rw [first.others m other]

theorem ageWalk_aged {h : Heap} {limit a fuel : Nat} {nodes : List Nat} (word : limit < 65536)
    (strung : Strung (nextOf h) (prevOf h) a nodes readyQ) (nodup : (readyQ :: nodes).Nodup) (short : nodes.length < fuel) :
    Aged limit nodes h (ageWalk h limit fuel (nextOf h a)) := by
  induction nodes generalizing h a fuel with
  | nil =>
    obtain ⟨fuel, rfl⟩ := Nat.exists_eq_succ_of_ne_zero (show fuel ≠ 0 by omega)
    rw [ageWalk, if_pos strung.1]
    exact ⟨fun _ _ _ => rfl, fun _ _ => rfl, fun _ member => absurd member List.not_mem_nil⟩
  | cons c nodes ih =>
    obtain ⟨fuel, rfl⟩ := Nat.exists_eq_succ_of_ne_zero (show fuel ≠ 0 by omega)
    obtain ⟨forth, -, rest⟩ := strung
    simp only [List.nodup_cons, List.mem_cons, not_or, List.length_cons] at nodup short
    obtain ⟨⟨other, out⟩, fresh, nodup⟩ := nodup
    have first := ageNode_aged h word c
    rw [forth, ageWalk, if_neg (Ne.symm other)]
    have onward := rest.congr (fun d _ => first.next d) (fun d _ => first.prev d)
    exact first.trans (ih onward (List.nodup_cons.mpr ⟨out, nodup⟩) (by omega)) fresh

theorem schedAgeAll_aged {h : Heap} {limit : Nat} {ready : List Nat} (word : limit < 65536) (queue : Queue h readyQ ready) :
    Aged limit ready h (schedAgeAll h limit) :=
  ageWalk_aged word queue.strung queue.nodup (queue.short (by decide))

/-! ### Sleepers -/

/-- The ready and the sleep queue, no process in both. -/
structure Rings (h : Heap) (ready sleep : List Nat) : Prop where
  readyRing : Queue h readyQ ready
  sleepRing : Queue h sleepQ sleep
  apart : (readyQ :: sleepQ :: (ready ++ sleep)).Nodup

/-- What a tick writes to those who sleep. -/
structure Roused (nodes : List Nat) (h h' : Heap) : Prop where
  fields : Agree (fun o => ¬ WakeOff o) h h'
  others : ∀ b, b ∉ nodes → ∀ o, ¬ LinkOff o → h' b o = h b o
  counted : ∀ n ∈ nodes, ticksOf h' n = slept (ticksOf h n)
  woken : ∀ n ∈ nodes, Wakes h n → ageOf h' n = priorityOf h n ∧ h'.get8 n Desc.state = stateActive
  asleep : ∀ n ∈ nodes, ¬ Wakes h n → ageOf h' n = ageOf h n ∧ h'.get8 n Desc.state = h.get8 n Desc.state

theorem schedInsert_age (h : Heap) (n : Nat) : ageOf (schedInsert h n) n = priorityOf h n := by
  have linked := listAppend_agree (h.set16 n Desc.age (h.get8 n Desc.priority)) readyQ n
  have below := h.get8_lt n Desc.priority
  refine (linked.get16 n ?_).trans ?_
  · intro x low high
    unfold LinkOff
    unfold Desc.age at low high
    omega
  · rw [get16_set16]
    exact Nat.mod_eq_of_lt (by omega)

theorem sleepTick_eq (h : Heap) (n : Nat) :
    (Wakes h n ∧ sleepTick h n =
      schedInsert ((listUnlink (h.set32 n Desc.sleepTicks 0) n).set8 n Desc.state stateActive) n) ∨
    (¬ Wakes h n ∧ ticksOf h n = sleepInfinite ∧ sleepTick h n = h) ∨
    (¬ Wakes h n ∧ ticksOf h n ≠ sleepInfinite ∧ sleepTick h n = h.set32 n Desc.sleepTicks (ticksOf h n - 1)) := by
  unfold sleepTick Wakes ticksOf
  by_cases endless : h.get32 n Desc.sleepTicks = sleepInfinite
  · refine .inr (.inl ⟨?_, endless, if_pos endless⟩)
    rw [endless]
    decide
  · dsimp only
    rw [if_neg endless]
    by_cases last : h.get32 n Desc.sleepTicks - 1 = 0
    · rw [if_pos last, last]
      exact .inl ⟨by omega, rfl⟩
    · rw [if_neg last]
      exact .inr (.inr ⟨by omega, endless, rfl⟩)

/-- The parts of waking a sleeper leave one another's fields alone. -/
theorem sleepTick_roused (h : Heap) (n : Nat) : Roused [n] h (sleepTick h n) := by
  have below := h.get32_lt n Desc.sleepTicks
  rcases sleepTick_eq h n with ⟨wakes, is⟩ | ⟨stays, endless, is⟩ | ⟨stays, ends, is⟩
  · have inserted := schedInsert_agree ((listUnlink (h.set32 n Desc.sleepTicks 0) n).set8 n Desc.state stateActive) n
    have unlinked := listUnlink_agree (h.set32 n Desc.sleepTicks 0) n
    refine ⟨sleepTick_agree h n, ?_, ?_, ?_, fun m member stays => ?_⟩
    · intro b out o outside
      have other : b ≠ n := by simpa using out
      rw [is]
      unfold schedInsert
      rw [listAppend_agree _ _ _ b o outside, set16_block _ _ _ other, set8_block _ _ _ other, unlinked b o outside,
        set32_block _ _ _ other]
    · intro m member
      obtain rfl := List.mem_singleton.mp member
      rw [is]
      unfold ticksOf
      rw [inserted.get32 m (by intro x low high; unfold QueueOff LinkOff; unfold Desc.sleepTicks at low; omega),
        get32_set8_off _ _ _ _ (by decide),
        unlinked.get32 m (by intro x low high; unfold LinkOff; unfold Desc.sleepTicks at low; omega), get32_set32]
      unfold Wakes ticksOf at wakes
      unfold slept sleepInfinite
      rw [if_neg (by omega)]
      omega
    · intro m member _
      obtain rfl := List.mem_singleton.mp member
      rw [is, schedInsert_age, inserted.get8 m (by unfold QueueOff LinkOff Desc.state; omega), get8_set8]
      refine ⟨?_, rfl⟩
      unfold priorityOf
      rw [get8_set8_off _ _ _ _ (by decide), unlinked.get8 m (by unfold LinkOff Desc.priority; omega),
        get8_set32_off _ _ _ _ (by decide)]
    · obtain rfl := List.mem_singleton.mp member
      exact absurd wakes stays
  · rw [is]
    refine ⟨Agree.rfl, fun _ _ _ _ => rfl, fun m member => ?_, fun m member wakes => ?_, fun _ _ _ => ⟨rfl, rfl⟩⟩
    · obtain rfl := List.mem_singleton.mp member
      exact (if_pos endless).symm
    · obtain rfl := List.mem_singleton.mp member
      exact absurd wakes stays
  · have written := is
    rw [is]
    refine ⟨Agree.rfl.set32 _ _ ticks_apart, fun b out o _ => ?_, fun m member => ?_, fun m member wakes => ?_,
      fun m member _ => ⟨?_, ?_⟩⟩
    · rw [set32_block _ _ _ (by simpa using out)]
    · obtain rfl := List.mem_singleton.mp member
      unfold slept
      rw [if_neg ends]
      exact get32_set32_of_lt _ _ _ (by unfold ticksOf; omega)
    · obtain rfl := List.mem_singleton.mp member
      exact absurd wakes stays
    · exact get16_set32_off _ _ _ _ (by decide)
    · exact get8_set32_off _ _ _ _ (by decide)

theorem Rings.links {h h' : Heap} {ready sleep : List Nat} (rings : Rings h ready sleep)
    (nexts : ∀ c, nextOf h' c = nextOf h c) (prevs : ∀ c, prevOf h' c = prevOf h c) : Rings h' ready sleep :=
  ⟨rings.readyRing.agree nexts prevs, rings.sleepRing.agree nexts prevs, rings.apart⟩

section Rings
variable {h : Heap} {n : Nat} {ready sleep front back : List Nat}

/-- No node of the ready queue is one of the sleep queue. -/
theorem Rings.disjoint (rings : Rings h ready sleep) {c : Nat} (inside : c ∈ readyQ :: ready) : c ∉ sleepQ :: sleep := by
  have apart := rings.apart
  simp only [List.nodup_cons, List.nodup_append, List.mem_cons, List.mem_append, not_or] at apart
  obtain ⟨⟨sentinels, -, notReady⟩, ⟨notIn, notSleep⟩, -, -, separate⟩ := apart
  simp only [List.mem_cons, not_or] at inside ⊢
  rcases inside with rfl | member
  · exact ⟨sentinels, notReady⟩
  · refine ⟨?_, fun within => separate c member c within rfl⟩
    rintro rfl
    exact notIn member

theorem Rings.disjoint' (rings : Rings h ready sleep) {c : Nat} (inside : c ∈ sleepQ :: sleep) : c ∉ readyQ :: ready :=
  fun within => rings.disjoint within inside

theorem Rings.take (rings : Rings h (front ++ n :: back) sleep) : Rings (listUnlink h n) (front ++ back) sleep := by
  have member : n ∈ front ++ n :: back := by simp
  have apart := rings.readyRing.unlink_apart member rings.sleepRing (fun c inside => rings.disjoint' inside)
  refine ⟨rings.readyRing.unlink, apart, rings.apart.sublist ?_⟩
  have sub : (front ++ back).Sublist (front ++ n :: back) := List.Sublist.append_left (List.sublist_cons_self _ _) _
  exact ((sub.append_right sleep).cons_cons _).cons_cons _

theorem Rings.leave (rings : Rings h ready (front ++ n :: back)) : Rings (listUnlink h n) ready (front ++ back) := by
  have member : n ∈ front ++ n :: back := by simp
  have apart := rings.sleepRing.unlink_apart member rings.readyRing (fun c inside => rings.disjoint inside)
  refine ⟨apart, rings.sleepRing.unlink, rings.apart.sublist ?_⟩
  have sub : (front ++ back).Sublist (front ++ n :: back) := List.Sublist.append_left (List.sublist_cons_self _ _) _
  exact ((sub.append_left ready).cons_cons _).cons_cons _

theorem Rings.enter (rings : Rings h ready sleep) (fits : n < 4294967296) (fresh : n ∉ readyQ :: sleepQ :: (ready ++ sleep)) :
    Rings (schedInsert h n) (ready ++ [n]) sleep := by
  have aged := rings.links (nextOf_setAge h n (h.get8 n Desc.priority)) (prevOf_setAge _ _ _)
  have out : n ∉ readyQ :: ready ∧ n ∉ sleepQ :: sleep := by
    simp only [List.mem_cons, List.mem_append, not_or] at fresh ⊢
    tauto
  refine ⟨rings.readyRing.schedInsert fits out.1, ?_, ?_⟩
  · refine aged.readyRing.append_apart (by decide) fits aged.sleepRing (fun c inside => ⟨rings.disjoint' inside, ?_⟩)
    rintro rfl
    exact out.2 inside
  · have perm : (readyQ :: sleepQ :: (ready ++ [n] ++ sleep)).Perm (n :: readyQ :: sleepQ :: (ready ++ sleep)) := by
      rw [List.append_assoc, List.singleton_append]
      refine ((List.perm_middle.cons sleepQ).cons readyQ).trans ?_
      exact ((List.Perm.swap _ _ _).cons readyQ).trans (List.Perm.swap _ _ _)
    exact perm.nodup_iff.mpr (List.nodup_cons.mpr ⟨fresh, rings.apart⟩)

/-- A sleeper moves to the end of the ready queue. -/
theorem Rings.activate (rings : Rings h ready (front ++ n :: back)) :
    Rings (schedInsert ((listUnlink h n).set8 n Desc.state stateActive) n) (ready ++ [n]) (front ++ back) := by
  have marked : Rings ((listUnlink h n).set8 n Desc.state stateActive) ready (front ++ back) :=
    rings.leave.links (fun c => get32_set8_off _ _ _ _ (by decide)) (fun c => get32_set8_off _ _ _ _ (by decide))
  refine marked.enter (rings.sleepRing.small (by simp)) ?_
  have nodup := rings.apart
  have perm : (readyQ :: sleepQ :: (ready ++ (front ++ n :: back))).Perm (n :: readyQ :: sleepQ :: (ready ++ (front ++ back))) := by
    rw [← List.append_assoc, ← List.append_assoc]
    refine ((List.perm_middle.cons sleepQ).cons readyQ).trans ?_
    exact ((List.Perm.swap _ _ _).cons readyQ).trans (List.Perm.swap _ _ _)
  exact (List.nodup_cons.mp (perm.nodup_iff.mp nodup)).1

theorem sleepTick_rings (rings : Rings h ready (front ++ n :: back)) :
    (Wakes h n → Rings (sleepTick h n) (ready ++ [n]) (front ++ back)) ∧
      (¬ Wakes h n → Rings (sleepTick h n) ready (front ++ n :: back)) := by
  have counted : ∀ v, Rings (h.set32 n Desc.sleepTicks v) ready (front ++ n :: back) := fun v =>
    rings.links (fun c => get32_set32_off _ _ _ _ (by decide)) (fun c => get32_set32_off _ _ _ _ (by decide))
  rcases sleepTick_eq h n with ⟨wakes, is⟩ | ⟨stays, -, is⟩ | ⟨stays, -, is⟩
  · rw [is]
    exact ⟨fun _ => (counted 0).activate, fun stays => absurd wakes stays⟩
  · rw [is]
    exact ⟨fun wakes => absurd wakes stays, fun _ => rings⟩
  · rw [is]
    exact ⟨fun wakes => absurd wakes stays, fun _ => counted _⟩

end Rings

/-- The fields of a process whose bytes outside the links are the same. -/
theorem fields_same {h h' : Heap} {b : Nat} (same : ∀ o, ¬ LinkOff o → h' b o = h b o) :
    ageOf h' b = ageOf h b ∧ ticksOf h' b = ticksOf h b ∧ h'.get8 b Desc.state = h.get8 b Desc.state ∧
      priorityOf h' b = priorityOf h b := by
  refine ⟨Mem.getU16_congr (fun x low high => same x ?_), Mem.getU32_congr (fun x low high => same x ?_),
    Mem.getU8_congr (same _ ?_), Mem.getU8_congr (same _ ?_)⟩
  · unfold LinkOff
    unfold Desc.age at low high
    omega
  · unfold LinkOff
    unfold Desc.sleepTicks at low
    omega
  · unfold LinkOff Desc.state
    omega
  · unfold LinkOff Desc.priority
    omega

theorem Roused.priority {nodes : List Nat} {h h' : Heap} (roused : Roused nodes h h') (b : Nat) :
    priorityOf h' b = priorityOf h b :=
  roused.fields.get8 b (by unfold WakeOff QueueOff LinkOff Desc.priority; omega)

theorem Roused.trans {n : Nat} {nodes : List Nat} {h h' h'' : Heap} (first : Roused [n] h h') (rest : Roused nodes h' h'')
    (fresh : n ∉ nodes) : Roused (n :: nodes) h h'' := by
  have single : ∀ m, m ∈ nodes → m ∉ [n] := by
    intro m later same
    exact fresh (List.mem_singleton.mp same ▸ later)
  have early := fun m (later : m ∈ nodes) => fields_same (first.others m (single m later))
  obtain ⟨age, ticks, state, -⟩ := fields_same (rest.others n fresh)
  refine ⟨first.fields.trans rest.fields, fun b out o outside => ?_, fun m member => ?_, fun m member => ?_, fun m member => ?_⟩
  · simp only [List.mem_cons, not_or] at out
    rw [rest.others b out.2 o outside, first.others b (by simpa using out.1) o outside]
  · rcases List.mem_cons.mp member with rfl | later
    · rw [ticks, first.counted m List.mem_cons_self]
    · rw [rest.counted m later, (early m later).2.1]
  · rcases List.mem_cons.mp member with rfl | later
    · rw [age, state]
      exact first.woken m List.mem_cons_self
    · obtain ⟨-, ticks', -, priority⟩ := early m later
      have woken := rest.woken m later
      unfold Wakes at woken ⊢
      rw [ticks', priority] at woken
      exact woken
  · rcases List.mem_cons.mp member with rfl | later
    · rw [age, state]
      exact first.asleep m List.mem_cons_self
    · obtain ⟨age', ticks', state', -⟩ := early m later
      have asleep := rest.asleep m later
      unfold Wakes at asleep ⊢
      rw [ticks', age', state'] at asleep
      exact asleep

/-- The walk over the sleep queue, `front` behind it: each process on its last tick moves over. -/
theorem sleepWalk_roused {h : Heap} {ready front rest : List Nat} {fuel : Nat} (rings : Rings h ready (front ++ rest))
    (short : rest.length < fuel) :
    Rings (sleepWalk h fuel (rest.head?.getD sleepQ)) (ready ++ rest.filter (fun n => Wakes h n))
        (front ++ rest.filter (fun n => ¬ Wakes h n)) ∧
      Roused rest h (sleepWalk h fuel (rest.head?.getD sleepQ)) := by
  induction rest generalizing h ready front fuel with
  | nil =>
    obtain ⟨fuel, rfl⟩ := Nat.exists_eq_succ_of_ne_zero (show fuel ≠ 0 by omega)
    rw [sleepWalk, List.head?_nil, Option.getD_none, if_pos rfl]
    simp only [List.filter_nil, List.append_nil] at rings ⊢
    have none {p : Nat → Prop} : ∀ n ∈ [], p n := fun _ member => absurd member List.not_mem_nil
    exact ⟨rings, Agree.rfl, fun _ _ _ _ => rfl, none, none, none⟩
  | cons n rest ih =>
    obtain ⟨fuel, rfl⟩ := Nat.exists_eq_succ_of_ne_zero (show fuel ≠ 0 by omega)
    have nodup := rings.sleepRing.nodup
    have next : h.get32 n Desc.next = rest.head?.getD sleepQ := rings.sleepRing.next_eq
    have notSentinel : n ≠ sleepQ := by
      rintro rfl
      exact (List.nodup_cons.mp nodup).1 (by simp)
    have fresh : n ∉ rest := by
      have inner := (List.nodup_append.mp (List.nodup_cons.mp nodup).2).2.1
      exact (List.nodup_cons.mp inner).1
    have first := sleepTick_roused h n
    have same : ∀ m ∈ rest, (Wakes (sleepTick h n) m ↔ Wakes h m) := by
      intro m later
      have other : m ∉ [n] := by
        intro equal
        exact fresh (List.mem_singleton.mp equal ▸ later)
      unfold Wakes
      rw [(fields_same (first.others m other)).2.1]
    have wakers : rest.filter (fun m => Wakes (sleepTick h n) m) = rest.filter (fun m => Wakes h m) :=
      List.filter_congr (fun m later => by simp [same m later])
    have sleepers : rest.filter (fun m => ¬ Wakes (sleepTick h n) m) = rest.filter (fun m => ¬ Wakes h m) :=
      List.filter_congr (fun m later => by simp [same m later])
    rw [List.head?_cons, Option.getD_some, sleepWalk, if_neg notSentinel]
    dsimp only
    rw [next]
    rw [List.length_cons] at short
    obtain ⟨wakes, stays⟩ := sleepTick_rings rings
    by_cases last : Wakes h n
    · obtain ⟨rings', roused⟩ := ih (wakes last) (show rest.length < fuel by omega)
      refine ⟨?_, first.trans roused fresh⟩
      rw [wakers, sleepers, List.append_assoc, List.singleton_append] at rings'
      rw [List.filter_cons_of_pos (by simpa using last), List.filter_cons_of_neg (by simpa using last)]
      exact rings'
    · have kept := stays last
      rw [List.append_cons] at kept
      obtain ⟨rings', roused⟩ := ih kept (show rest.length < fuel by omega)
      refine ⟨?_, first.trans roused fresh⟩
      rw [wakers, sleepers, List.append_assoc, List.singleton_append] at rings'
      rw [List.filter_cons_of_neg (by simpa using last), List.filter_cons_of_pos (by simpa using last)]
      exact rings'

theorem sleepQDecrementAll_roused {h : Heap} {ready sleep : List Nat} (rings : Rings h ready sleep) :
    Rings (sleepQDecrementAll h) (ready ++ sleep.filter (fun n => Wakes h n)) (sleep.filter (fun n => ¬ Wakes h n)) ∧
      Roused sleep h (sleepQDecrementAll h) := by
  have first : h.get32 sleepQ Desc.next = sleep.head?.getD sleepQ := rings.sleepRing.strung.first_eq
  have whole : Rings h ready ([] ++ sleep) := rings
  unfold sleepQDecrementAll
  rw [first]
  exact sleepWalk_roused whole (rings.sleepRing.short (by decide))

/-! ### The choice -/

section Choice
variable {h : Heap} {minPty n : Nat} {nodes : List Nat}

theorem Oldest.later (oldest : Oldest h minPty nodes n) {c : Nat} (notOlder : Eligible h minPty c → ageOf h c ≤ ageOf h n) :
    Oldest h minPty (nodes ++ [c]) n := by
  obtain ⟨front, back, rfl, eligible, before, after⟩ := oldest
  refine ⟨front, back ++ [c], by simp, eligible, before, fun b member fits => ?_⟩
  rcases List.mem_append.mp member with inside | last
  · exact after b inside fits
  · obtain rfl := List.mem_singleton.mp last
    exact notOlder fits

theorem Oldest.best (oldest : Oldest h minPty nodes n) {b : Nat} (member : b ∈ nodes) (eligible : Eligible h minPty b) :
    ageOf h b ≤ ageOf h n := by
  obtain ⟨front, back, rfl, -, before, after⟩ := oldest
  simp only [List.mem_append, List.mem_cons] at member
  rcases member with early | rfl | late
  · exact (before b early eligible).le
  · exact le_refl _
  · exact after b late eligible

/-- The best of those the walk has met. -/
def Leads (h : Heap) (minPty : Nat) (met : List Nat) (best bestAge : Nat) : Prop :=
  (best = 0 ∧ ∀ b ∈ met, ¬ Eligible h minPty b) ∨ (best ≠ 0 ∧ Oldest h minPty met best ∧ bestAge = ageOf h best)

theorem Leads.better {met : List Nat} {best bestAge c : Nat} (leads : Leads h minPty met best bestAge) (live : c ≠ 0)
    (eligible : Eligible h minPty c) (older : best = 0 ∨ ageOf h c > bestAge) :
    Leads h minPty (met ++ [c]) c (ageOf h c) := by
  refine .inr ⟨live, ⟨met, [], rfl, eligible, fun b member fits => ?_, nofun⟩, rfl⟩
  rcases leads with ⟨-, nobody⟩ | ⟨some_best, oldest, rfl⟩
  · exact absurd fits (nobody b member)
  · have most := oldest.best member fits
    have := older.resolve_left some_best
    omega

theorem Leads.same {met : List Nat} {best bestAge c : Nat} (leads : Leads h minPty met best bestAge)
    (worse : ¬ (Eligible h minPty c ∧ (best = 0 ∨ ageOf h c > bestAge))) : Leads h minPty (met ++ [c]) best bestAge := by
  rcases leads with ⟨none, nobody⟩ | ⟨some_best, oldest, rfl⟩
  · refine .inl ⟨none, fun b member fits => ?_⟩
    rcases List.mem_append.mp member with inside | last
    · exact nobody b inside fits
    · obtain rfl := List.mem_singleton.mp last
      exact worse ⟨fits, .inl none⟩
  · refine .inr ⟨some_best, oldest.later (fun fits => ?_), rfl⟩
    by_contra older
    exact worse ⟨fits, .inr (by omega)⟩

theorem pickWalk_leads {met rest : List Nat} {a best bestAge fuel : Nat} (leads : Leads h minPty met best bestAge)
    (strung : Strung (nextOf h) (prevOf h) a rest readyQ) (out : readyQ ∉ rest) (live : ∀ b ∈ rest, b ≠ 0)
    (short : rest.length < fuel) : ∃ age, Leads h minPty (met ++ rest) (pickWalk h minPty fuel (nextOf h a) best bestAge) age := by
  induction rest generalizing met a best bestAge fuel with
  | nil =>
    obtain ⟨fuel, rfl⟩ := Nat.exists_eq_succ_of_ne_zero (show fuel ≠ 0 by omega)
    rw [pickWalk, if_pos strung.1, List.append_nil]
    exact ⟨bestAge, leads⟩
  | cons c rest ih =>
    obtain ⟨fuel, rfl⟩ := Nat.exists_eq_succ_of_ne_zero (show fuel ≠ 0 by omega)
    obtain ⟨forth, -, onward⟩ := strung
    simp only [List.mem_cons, not_or, List.length_cons] at out short
    rw [forth, pickWalk, if_neg (Ne.symm out.1), List.append_cons]
    dsimp only
    have others : ∀ b ∈ rest, b ≠ 0 := fun b later => live b (List.mem_cons_of_mem _ later)
    split
    · next better =>
      exact ih (leads.better (live c List.mem_cons_self) better.1 better.2) onward out.2 others (by omega)
    · next worse => exact ih (leads.same worse) onward out.2 others (by omega)

/-- Nobody is eligible, or the oldest one leaves the queue. -/
theorem pick_oldest (queue : Queue h readyQ nodes) (live : ∀ b ∈ nodes, b ≠ 0) :
    ((∀ b ∈ nodes, ¬ Eligible h minPty b) ∧ schedPickHighestAge h minPty = (0, h)) ∨
      ∃ n, n ≠ 0 ∧ Oldest h minPty nodes n ∧ schedPickHighestAge h minPty = (n, listUnlink h n) := by
  have start : Leads h minPty [] 0 0 := .inl ⟨rfl, nofun⟩
  obtain ⟨age, leads⟩ := pickWalk_leads start queue.strung (List.nodup_cons.mp queue.nodup).1 live (queue.short (by decide))
  rw [List.nil_append, nextOf] at leads
  unfold schedPickHighestAge
  generalize pickWalk h minPty queueLimit (h.get32 readyQ Desc.next) 0 0 = best at leads
  dsimp only
  rcases leads with ⟨rfl, nobody⟩ | ⟨some_best, oldest, -⟩
  · exact .inl ⟨nobody, rfl⟩
  · rw [if_pos some_best]
    exact .inr ⟨best, some_best, oldest, rfl⟩

end Choice

end Q9OS.Ticks

import Mathlib.Tactic
import Q9OS.Process.Module

/-!
# What the queue operations touch

Every operation on the queues writes link words, and some also the age, the
state letter and the sleep counter. All other offsets of all descriptors keep
their bytes, whatever the links point to.
-/

namespace Q9OS

open Heap

/-- The link words. -/
def LinkOff (o : Nat) : Prop := 0x30 ≤ o ∧ o < 0x38

/-- Link words and age. -/
def QueueOff (o : Nat) : Prop := LinkOff o ∨ (0x1A ≤ o ∧ o < 0x1C)

/-- What waking a sleeper writes. -/
def WakeOff (o : Nat) : Prop := QueueOff o ∨ o = 0x1D ∨ (0x1C4 ≤ o ∧ o < 0x1C8)

theorem listUnlink_agree (h : Heap) (node : Nat) : Agree (fun o => ¬ LinkOff o) h (listUnlink h node) := by
  apply Agree.set32
  · apply Agree.set32 Agree.rfl
    intro x outside
    simp only [LinkOff, Desc.next] at *
    omega
  · intro x outside
    simp only [LinkOff, Desc.prev] at *
    omega

theorem listAppend_agree (h : Heap) (sentinel node : Nat) :
    Agree (fun o => ¬ LinkOff o) h (listAppend h sentinel node) := by
  have next : ∀ x, ¬ LinkOff x → x < Desc.next ∨ Desc.next + 4 ≤ x := by
    intro x outside
    simp only [LinkOff, Desc.next] at *
    omega
  have prev : ∀ x, ¬ LinkOff x → x < Desc.prev ∨ Desc.prev + 4 ≤ x := by
    intro x outside
    simp only [LinkOff, Desc.prev] at *
    omega
  exact (((Agree.rfl.set32 _ _ next).set32 _ _ prev).set32 _ _ next).set32 _ _ prev

theorem age_apart : ∀ x, ¬ QueueOff x → x < Desc.age ∨ Desc.age + 2 ≤ x := by
  intro x outside
  simp only [QueueOff, LinkOff, Desc.age] at *
  omega

theorem schedInsert_agree (h : Heap) (desc : Nat) : Agree (fun o => ¬ QueueOff o) h (schedInsert h desc) :=
  (Agree.rfl.set16 _ _ age_apart).trans
    ((listAppend_agree _ _ _).weaken (fun _ outside link => outside (Or.inl link)))

theorem pick_agree (h : Heap) (minPty : Nat) :
    Agree (fun o => ¬ LinkOff o) h (schedPickHighestAge h minPty).2 := by
  unfold schedPickHighestAge
  dsimp only
  split
  · exact listUnlink_agree _ _
  · exact Agree.rfl

/-- What `schedFirstPick` does with the process it picked. -/
def Kernel.runPicked (k : Kernel) (picked : Nat × Heap) : Nat × Kernel :=
  if picked.1 ≠ 0 then
    (picked.1, { k with
      desc := picked.2, proc := picked.1, sched := { k.sched with minPty := 0, slice := schedTslice } })
  else (0, { k with desc := picked.2, sched := { k.sched with minPty := 0 } })

theorem Kernel.schedFirstPick_eq (k : Kernel) : k.schedFirstPick = k.runPicked (schedPickHighestAge k.desc 0) := by
  rw [Kernel.schedFirstPick, Kernel.runPicked]

theorem schedRemove_agree (h : Heap) (desc : Nat) : Agree (fun o => ¬ LinkOff o) h (schedRemove h desc) := by
  unfold schedRemove
  split
  · exact listUnlink_agree _ _
  · exact Agree.rfl

theorem activate_agree (h : Heap) (desc : Nat) :
    Agree (fun o => ¬ WakeOff o) h (schedInsert ((listUnlink h desc).set8 desc Desc.state stateActive) desc) := by
  have unlinked : Agree (fun o => ¬ WakeOff o) h (listUnlink h desc) :=
    (listUnlink_agree h desc).weaken (fun _ outside link => outside (Or.inl (Or.inl link)))
  have marked := unlinked.set8 desc stateActive (o := Desc.state)
    (fun x outside same => outside (Or.inr (Or.inl same)))
  exact marked.trans ((schedInsert_agree _ _).weaken (fun _ outside queue => outside (Or.inl queue)))

theorem schedWake_agree (h : Heap) (desc : Nat) : Agree (fun o => ¬ WakeOff o) h (schedWake h desc) := by
  unfold schedWake
  split
  · exact Agree.rfl
  · split
    · exact Agree.rfl
    · exact activate_agree h desc

theorem ticks_apart : ∀ x, ¬ WakeOff x → x < Desc.sleepTicks ∨ Desc.sleepTicks + 4 ≤ x := by
  intro x outside
  simp only [WakeOff, QueueOff, LinkOff, Desc.sleepTicks] at *
  omega

theorem sleepTick_agree (h : Heap) (node : Nat) : Agree (fun o => ¬ WakeOff o) h (sleepTick h node) := by
  unfold sleepTick
  dsimp only
  split
  · exact Agree.rfl
  · split
    · exact (Agree.rfl.set32 _ _ ticks_apart).trans (activate_agree _ _)
    · exact Agree.rfl.set32 _ _ ticks_apart

theorem sleepWalk_agree (fuel : Nat) (h : Heap) (node : Nat) :
    Agree (fun o => ¬ WakeOff o) h (sleepWalk h fuel node) := by
  induction fuel generalizing h node with
  | zero => exact Agree.rfl
  | succ fuel ih =>
    rw [sleepWalk]
    split
    · exact Agree.rfl
    · exact (sleepTick_agree h node).trans (ih _ _)

theorem ageNode_agree (h : Heap) (maxAge node : Nat) :
    Agree (fun o => ¬ QueueOff o) h (ageNode h maxAge node) := by
  have written : ∀ v, Agree (fun o => ¬ QueueOff o) h (h.set16 node Desc.age v) :=
    fun v => Agree.rfl.set16 _ _ age_apart
  unfold ageNode
  dsimp only
  split_ifs
  all_goals first
    | exact written _
    | exact Agree.rfl

theorem ageWalk_agree (fuel : Nat) (h : Heap) (maxAge node : Nat) :
    Agree (fun o => ¬ QueueOff o) h (ageWalk h maxAge fuel node) := by
  induction fuel generalizing h node with
  | zero => exact Agree.rfl
  | succ fuel ih =>
    rw [ageWalk]
    split
    · exact Agree.rfl
    · exact (ageNode_agree h maxAge node).trans (ih _ _)

theorem sleepPark_agree (h : Heap) (desc ticks : Nat) :
    Agree (fun o => ¬ WakeOff o) h (Kernel.sleepPark h desc ticks) := by
  have asleep : ∀ v, Agree (fun o => ¬ WakeOff o) h
      (sleepQInsert ((h.set8 desc Desc.state stateSleeping).set32 desc Desc.sleepTicks v) desc) := by
    intro v
    have here : Agree (fun o => ¬ WakeOff o) h h := Agree.rfl
    have marked := here.set8 desc stateSleeping (o := Desc.state)
      (fun x outside same => outside (Or.inr (Or.inl same)))
    exact (marked.set32 _ _ ticks_apart).trans
      ((listAppend_agree _ _ _).weaken (fun _ outside link => outside (Or.inl (Or.inl link))))
  unfold Kernel.sleepPark
  split
  · exact asleep _
  · split
    · exact (schedInsert_agree h desc).weaken (fun _ outside queue => outside (Or.inl queue))
    · exact asleep _

end Q9OS

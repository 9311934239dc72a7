import Mathlib.Tactic
import Q9OS.Lib.Run
import Q9OS.Process.Frame

/-!
# Private fields of a descriptor

Intercept depth, trap table, signal mask and wait range of a process, next to
the variables they would be if they did not share bytes. The trap table of
fifteen entries starts at the offset of the intercept depth, its first entry
also covers the wait range of events, its sixth the signal mask.
-/

namespace Q9OS.Fields

open Heap

/-! ### The fields as separate variables -/

structure TrapEntry where
  modPtr : Nat
  execEntry : Nat
  staticPtr : Nat
  deriving DecidableEq

structure Vars where
  trap : Nat → TrapEntry
  level : Nat
  range : Nat × Nat

structure State where
  kernel : Kernel
  vars : Nat → Vars

def State.setVars (s : State) (desc : Nat) (v : Vars) : Nat → Vars := fun d => if d = desc then v else s.vars d

/-- Delivered intercepts of a process that it has not returned from. -/
def outstanding (desc : Nat) : List Mark → Nat
  | [] => 0
  | .delivered d _ :: rest => outstanding desc rest + if d = desc then 1 else 0
  | .returned d :: rest => outstanding desc rest - if d = desc then 1 else 0

def trapEntry (h : Heap) (desc n : Nat) : TrapEntry :=
  ⟨h.get32 desc (Desc.trapSlot n + Desc.trapModPtr), h.get32 desc (Desc.trapSlot n + Desc.trapExecEntry),
    h.get32 desc (Desc.trapSlot n + Desc.trapStaticPtr)⟩

inductive Event where
  | tlink (trapNum memOverride namePtr : Nat)
  | icpt (vector dataPtr : Nat)
  | send (pid signal : Nat)
  | rte
  | sigMask (level : Nat)
  | sleep (sp ticks : Nat)
  | evWait (id minValue maxValue sp : Nat)
  | evSignal (id : Nat) (wakeAll : Bool)
  | evSet (id value : Nat) (wakeAll : Bool)
  | evSetRelative (id : Nat) (delta : Int) (wakeAll : Bool)
  | evPulse (id value : Nat) (wakeAll : Bool)
  | tick (dev : Devices) (sp mask : Nat)

/-- What F$TLink installs: what it reports, nothing when there is no name. -/
def linkedEntry (namePtr : Nat) (link : TrapLink) : TrapEntry :=
  if namePtr = 0 then ⟨0, 0, 0⟩ else ⟨link.modPtr, link.execEntry, link.staticPtr⟩

/-- The variables after F$TLink on trap `n`. -/
def linkedVars (v : Vars) (n namePtr : Nat) : Except Nat TrapLink → Vars
  | .error _ => v
  | .ok link => { v with trap := fun m => if m = n then linkedEntry namePtr link else v.trap m }

/-- Each call acts on the kernel and on the one variable of its caller that it is about. -/
def step (s : State) : Event → Option State
  | .tlink n memOverride namePtr =>
    match s.kernel.procTLink n memOverride namePtr with
    | (result, k) =>
      let p := s.kernel.proc
      some ⟨k, s.setVars p (linkedVars (s.vars p) n namePtr result)⟩
  | .icpt vector dataPtr => some { s with kernel := s.kernel.procIcpt vector dataPtr }
  | .send pid signal => some { s with kernel := (s.kernel.procSend pid signal).2 }
  | .rte => some { s with kernel := (s.kernel.icptReturn s.kernel.proc).2 }
  | .sigMask level =>
    let p := s.kernel.proc
    some ⟨(s.kernel.procSigMask level).2,
      s.setVars p { s.vars p with level := Kernel.maskLevel level (s.vars p).level }⟩
  | .sleep sp ticks =>
    let p := s.kernel.proc
    (s.kernel.sysSleep sp ticks).alive.map (fun k => ⟨k, s.setVars p { s.vars p with level := 0 }⟩)
  | .evWait id lo hi sp =>
    let p := s.kernel.proc
    if lo < 4294967296 ∧ hi < 4294967296 then
      match s.kernel.sysEventWait id lo hi sp with
      | none => none
      | some k =>
        match (s.kernel.eventWaitCheck id lo hi).1 with
        | .ok none => some ⟨k, s.setVars p { s.vars p with range := (lo, hi) }⟩
        | _ => some { s with kernel := k }
    else none
  | .evSignal id wakeAll => some { s with kernel := (s.kernel.eventSignal id wakeAll).2 }
  | .evSet id value wakeAll => some { s with kernel := (s.kernel.eventSet id value wakeAll).2 }
  | .evSetRelative id delta wakeAll => some { s with kernel := (s.kernel.eventSetRelative id delta wakeAll).2 }
  | .evPulse id value wakeAll => some { s with kernel := (s.kernel.eventPulse id value wakeAll).2 }
  | .tick dev sp mask => some { s with kernel := s.kernel.timerTick dev sp mask }

/-! ### Agreement of fields and variables -/

/-- F$RTE by `p` finds an intercept exactly when one is outstanding. A counter of
32 bits counts fewer than 2^32 of them. -/
def RteOk (s : State) (p : Nat) : Prop :=
  outstanding p s.kernel.marks < 4294967296 →
    ((s.kernel.icptReturn p).1 = .ok () ↔ 0 < outstanding p s.kernel.marks)

/-- The range a signalled event looks for in a waiter. -/
def waitRange (h : Heap) (p : Nat) : Nat × Nat := (h.get32 p Desc.evMin, h.get32 p Desc.evMax)

def RangeOk (s : State) (p : Nat) : Prop := waitRange s.kernel.desc p = (s.vars p).range

def LevelOk (s : State) (p : Nat) : Prop := s.kernel.desc.get8 p Desc.sigLvl = (s.vars p).level

def TrapOk (s : State) (p n : Nat) : Prop := trapEntry s.kernel.desc p n = (s.vars p).trap n

/-! ### Steps that leave the private fields of a process alone -/

/-- Trap table and sizes. -/
def Private (o : Nat) : Prop := 0x1CC ≤ o ∧ o < 0x2C0

/-- The bytes of the intercept depth. -/
def DepthOff (o : Nat) : Prop := 0x1CC ≤ o ∧ o < 0x1D0

/-- The private fields and the intercept vector. -/
def Watched (o : Nat) : Prop := Private o ∨ (0x28 ≤ o ∧ o < 0x2C)

def DepthOk (k : Kernel) (p : Nat) : Prop :=
  k.desc.get32 p Desc.icptDepth = outstanding p k.marks % 4294967296

/-- No private byte of `p` changes. -/
structure Still (p : Nat) (k k' : Kernel) : Prop where
  bytes : ∀ o, Private o → k'.desc p o = k.desc p o
  vector : k'.desc.get32 p Desc.sigVec = k.desc.get32 p Desc.sigVec
  count : outstanding p k'.marks = outstanding p k.marks

/-- No private byte of `p` changes but for the depth, which follows the deliveries. -/
structure Calm (p : Nat) (k k' : Kernel) : Prop where
  bytes : ∀ o, Private o → ¬ DepthOff o → k'.desc p o = k.desc p o
  vector : k'.desc.get32 p Desc.sigVec = k.desc.get32 p Desc.sigVec
  depth : DepthOk k p → DepthOk k' p

variable {p : Nat} {k k' k'' : Kernel}

namespace Still

theorem rfl : Still p k k := ⟨fun _ _ => Eq.refl _, Eq.refl _, Eq.refl _⟩

theorem trans (first : Still p k k') (second : Still p k' k'') : Still p k k'' :=
  ⟨fun o here => (second.bytes o here).trans (first.bytes o here), second.vector.trans first.vector,
    second.count.trans first.count⟩

theorem calm (still : Still p k k') : Calm p k k' where
  bytes o here _ := still.bytes o here
  vector := still.vector
  depth ok := by
    have same : k'.desc.get32 p Desc.icptDepth = k.desc.get32 p Desc.icptDepth :=
      Mem.getU32_congr (fun x low high => still.bytes x (by unfold Private Desc.icptDepth at *; omega))
    unfold DepthOk
    rw [same, still.count]
    exact ok

theorem of_agree (agree : Agree Watched k.desc k'.desc) (same : k'.marks = k.marks) : Still p k k' where
  bytes o here := agree p o (Or.inl here)
  vector := agree.get32 p (fun x low high => Or.inr (by unfold Desc.sigVec at *; omega))
  count := by rw [same]

theorem of_same (same : k'.desc = k.desc) (marks : k'.marks = k.marks) : Still p k k' :=
  of_agree (fun _ _ _ => by rw [same]) marks

end Still

namespace Calm

theorem rfl : Calm p k k := Still.rfl.calm

theorem trans (first : Calm p k k') (second : Calm p k' k'') : Calm p k k'' :=
  ⟨fun o here apart => (second.bytes o here apart).trans (first.bytes o here apart),
    second.vector.trans first.vector, fun ok => second.depth (first.depth ok)⟩

end Calm

theorem watched_wake {h h' : Heap} (agree : Agree (fun o => ¬ WakeOff o) h h') : Agree Watched h h' := by
  apply agree.weaken
  intro o here
  simp only [Watched, Private, WakeOff, QueueOff, LinkOff] at *
  omega

theorem watched_queue {h h' : Heap} (agree : Agree (fun o => ¬ QueueOff o) h h') : Agree Watched h h' :=
  watched_wake (agree.weaken (fun _ outside queue => outside (Or.inl queue)))

theorem watched_link {h h' : Heap} (agree : Agree (fun o => ¬ LinkOff o) h h') : Agree Watched h h' :=
  watched_queue (agree.weaken (fun _ outside link => outside (Or.inl link)))

theorem watched_savedSp (h : Heap) (b v : Nat) : Agree Watched h (h.set32 b Desc.savedSp v) := by
  apply Agree.rfl.set32
  intro x here
  simp only [Watched, Private, Desc.savedSp] at *
  omega

theorem watched_signal (h : Heap) (b v : Nat) : Agree Watched h (h.set16 b Desc.signal v) := by
  apply Agree.rfl.set16
  intro x here
  simp only [Watched, Private, Desc.signal] at *
  omega

/-! ### Delivery -/

theorem icptDeliver_calm (k : Kernel) (p d signal : Nat) : Calm p k (k.icptDeliver d signal) := by
  unfold Kernel.icptDeliver
  split
  · constructor
    · intro o here apart
      dsimp only
      rw [set16_off _ _ _ _ (by unfold Private Desc.signal at *; omega),
        set32_off _ _ _ _ (by unfold Private DepthOff Desc.icptDepth at *; omega),
        set32_off _ _ _ _ (by unfold Private Desc.savedSp at *; omega)]
    · dsimp only
      rw [get32_set16_off _ _ _ _ (by decide), get32_set32_off _ _ _ _ (by decide),
        get32_set32_off _ _ _ _ (by decide)]
    · intro ok
      unfold DepthOk at *
      dsimp only [outstanding]
      rw [get32_set16_off _ _ _ _ (by decide)]
      by_cases same : d = p
      · rw [same, get32_set32, get32_set32_off _ _ _ _ (by decide), if_pos rfl, ok]
        omega
      · rw [get32_set32_block _ _ _ _ (Ne.symm same), get32_set32_block _ _ _ _ (Ne.symm same), if_neg same]
        exact ok
  · exact Calm.rfl

/-- A delivery to another process, or to one without an intercept routine. -/
theorem icptDeliver_still (k : Kernel) {p d : Nat} (signal : Nat)
    (spared : d ≠ p ∨ k.desc.get32 p Desc.sigVec = 0) : Still p k (k.icptDeliver d signal) := by
  unfold Kernel.icptDeliver
  split
  · next ready =>
    have other : p ≠ d := by
      rintro rfl
      rcases spared with differ | none
      · exact differ rfl
      · simp [Kernel.icptReady, none] at ready
    constructor
    · intro o here
      dsimp only
      rw [set16_block _ _ _ other, set32_block _ _ _ other, set32_block _ _ _ other]
    · dsimp only
      rw [get32_set16_off _ _ _ _ (by decide), get32_set32_off _ _ _ _ (by decide),
        get32_set32_off _ _ _ _ (by decide)]
    · dsimp only [outstanding]
      rw [if_neg (Ne.symm other)]
      rfl
  · exact Still.rfl

theorem icptReturn_ok {p : Nat} (k : Kernel) (live : p ≠ 0) :
    (k.icptReturn p).1 = .ok () ↔ k.desc.get32 p Desc.icptDepth ≠ 0 := by
  by_cases none : k.desc.get32 p Desc.icptDepth = 0
  · have popped : k.icptPop p = (.error eBpAddr, k) := by
      rw [Kernel.icptPop, if_neg live]
      exact if_pos none
    have returned : k.icptReturn p = (.error eBpAddr, k) := by rw [Kernel.icptReturn, popped]
    rw [returned]
    simp [none]
  · obtain ⟨k', popped⟩ : ∃ k', k.icptPop p = (.ok (), k') := ⟨_, (if_neg live).trans (if_neg none)⟩
    obtain ⟨k'', returned⟩ : ∃ k'', k.icptReturn p = (.ok (), k'') := ⟨_, by rw [Kernel.icptReturn, popped]⟩
    rw [returned]
    simp [none]

/-! ### Sending -/

theorem sendStore_still (k : Kernel) (desc signal : Nat) : Still p k (k.sendStore desc signal) := by
  unfold Kernel.sendStore
  split
  · exact Still.of_agree (watched_signal _ _ _) rfl
  · exact Still.rfl

theorem wake_still (k : Kernel) (desc : Nat) : Still p k (k.wake desc) :=
  Still.of_agree (watched_wake (schedWake_agree _ _)) rfl

theorem sendTo_calm (k : Kernel) (desc signal : Nat) : Calm p k (k.sendTo desc signal) := by
  have delivered : Calm p (k.sendStore desc signal) ((k.sendStore desc signal).sendDeliver desc signal) := by
    unfold Kernel.sendDeliver
    split
    · exact icptDeliver_calm _ _ _ _
    · exact Calm.rfl
  unfold Kernel.sendTo
  dsimp only
  split
  · exact (sendStore_still k desc signal).calm
  · exact ((sendStore_still k desc signal).calm.trans delivered).trans (wake_still _ desc).calm

/-- A signal to `desc` that pushes no frame for `p`: `p` is not meant, is running, has no intercept routine or has
masked the signal, or it is only woken. -/
def Spares (k : Kernel) (p desc signal : Nat) : Prop :=
  desc ≠ p ∨ p = k.proc ∨ k.desc.get32 p Desc.sigVec = 0 ∨ k.sendMasked p signal = true ∨ signal = signalWake

theorem Still.masked (still : Still p k k') (signal : Nat) : k'.sendMasked p signal = k.sendMasked p signal := by
  have same : k'.desc.get8 p Desc.sigLvl = k.desc.get8 p Desc.sigLvl :=
    congrArg UInt8.toNat (still.bytes _ (by unfold Private Desc.sigLvl; omega))
  unfold Kernel.sendMasked
  rw [same]

theorem Spares.later {desc signal : Nat} (still : Still p k k') (running : k'.proc = k.proc)
    (spares : Spares k p desc signal) : Spares k' p desc signal := by
  unfold Spares at *
  rw [still.vector, still.masked, running]
  exact spares

theorem sendStore_proc (k : Kernel) (desc signal : Nat) : (k.sendStore desc signal).proc = k.proc := by
  unfold Kernel.sendStore
  split <;> rfl

theorem sendTo_still (k : Kernel) {desc signal : Nat} (spares : Spares k p desc signal) :
    Still p k (k.sendTo desc signal) := by
  have stored : Still p k (k.sendStore desc signal) := sendStore_still k desc signal
  have spares' := spares.later stored (sendStore_proc k desc signal)
  unfold Kernel.sendTo
  dsimp only
  split
  · exact stored
  · next heard =>
    have delivered : Still p (k.sendStore desc signal) ((k.sendStore desc signal).sendDeliver desc signal) := by
      unfold Kernel.sendDeliver
      split
      · next deliver =>
        apply icptDeliver_still
        rcases spares' with other | running | none | masked | wake
        · exact Or.inl other
        · exact Or.inl (fun same => deliver.2 (same.trans running))
        · exact Or.inr none
        · by_cases same : desc = p
          · exact absurd (same ▸ masked) heard
          · exact Or.inl same
        · exact absurd wake deliver.1
      · exact Still.rfl
    exact (stored.trans delivered).trans (wake_still _ desc)

theorem procLookup_cases (k : Kernel) (pid : Nat) : k.procLookup pid = 0 ∨ k.procLookup pid = k.slotAddr (pid - 1) := by
  unfold Kernel.procLookup
  dsimp only
  split_ifs <;> simp

theorem procSend_calm (k : Kernel) (pid signal : Nat) : Calm p k (k.procSend pid signal).2 := by
  unfold Kernel.procSend
  dsimp only
  split
  · exact Calm.rfl
  · exact sendTo_calm k _ _

/-- F$Send to the process `pid` pushes no frame for `p`. -/
def Harmless (k : Kernel) (p pid signal : Nat) : Prop := Spares k p (k.slotAddr (pid - 1)) signal

theorem procSend_still (k : Kernel) {pid signal : Nat} (harmless : Harmless k p pid signal) :
    Still p k (k.procSend pid signal).2 := by
  unfold Kernel.procSend
  dsimp only
  split
  · exact Still.rfl
  · next found =>
    apply sendTo_still
    rw [(procLookup_cases k pid).resolve_left found]
    exact harmless

/-- F$Send works on descriptors and frames only. -/
theorem procSend_rest (k : Kernel) (pid signal : Nat) :
    ∃ ram desc marks, (k.procSend pid signal).2 = { k with ram := ram, desc := desc, marks := marks } := by
  unfold Kernel.procSend Kernel.sendTo Kernel.sendStore Kernel.sendDeliver Kernel.icptDeliver Kernel.wake
  dsimp only
  split_ifs <;> exact ⟨_, _, _, rfl⟩

theorem procSend_alarms (k : Kernel) (pid signal : Nat) : (k.procSend pid signal).2.alarms = k.alarms := by
  obtain ⟨ram, desc, marks, sent⟩ := procSend_rest k pid signal
  rw [sent]

/-! ### Ticks -/

theorem queues_still (k : Kernel) :
    Still p k { k with desc := sleepQDecrementAll (schedAgeAll k.desc k.sched.maxAge) } :=
  Still.of_agree ((watched_queue (ageWalk_agree _ _ _ _)).trans (watched_wake (sleepWalk_agree _ _ _))) rfl

theorem sliceEnd_still (k : Kernel) : Still p k k.sliceEnd := by
  have picked : Agree Watched k.desc (schedPickHighestAge k.desc k.sched.minPty).2 := watched_link (pick_agree _ _)
  unfold Kernel.sliceEnd
  split
  · exact Still.rfl
  · split
    · exact Still.of_same rfl rfl
    · unfold Kernel.schedSwitch
      dsimp only
      split
      · exact Still.of_agree picked rfl
      · split
        · exact Still.of_agree (picked.trans (watched_queue (schedInsert_agree _ _))) rfl
        · exact Still.of_agree picked rfl

theorem clockTick_still (k : Kernel) : Still p k k.clockTick := Still.of_same rfl rfl

theorem tickEntry_still (k : Kernel) (sp mask : Nat) :
    Still p k { k.saveSp sp with sched := { (k.saveSp sp).sched with noSwitch := mask } } :=
  Still.of_agree (watched_savedSp _ _ _) rfl

/-! ### Events -/

theorem watched_next (h : Heap) (b v : Nat) : Agree Watched h (h.set32 b Desc.next v) := by
  apply Agree.rfl.set32
  intro x here
  simp only [Watched, Private, Desc.next] at *
  omega

theorem setEvent_still (k : Kernel) (slot : Nat) (entry : EventSlot) : Still p k (k.setEvent slot entry) :=
  Still.of_same rfl rfl

theorem procAProc_still (k : Kernel) (desc : Nat) : Still p k (k.procAProc desc).2 := by
  unfold Kernel.procAProc
  split_ifs
  · exact Still.rfl
  · exact Still.rfl
  · exact Still.of_agree (watched_queue (schedInsert_agree _ _)) rfl

theorem eventTakeOut_still (k : Kernel) (slot prev node : Nat) : Still p k (k.eventTakeOut slot prev node) := by
  unfold Kernel.eventTakeOut Kernel.setEvent
  dsimp only
  split
  · exact Still.of_agree (watched_next _ _ _) rfl
  · exact Still.of_agree ((watched_next _ _ _).trans (watched_next _ _ _)) rfl

theorem dequeueWalk_still (k : Kernel) (slot value fuel prev node : Nat) :
    Still p k (k.dequeueWalk slot value fuel prev node).2 := by
  induction fuel generalizing prev node with
  | zero => exact Still.rfl
  | succ fuel ih =>
    rw [Kernel.dequeueWalk]
    split_ifs
    · exact Still.rfl
    · exact eventTakeOut_still k _ _ _
    · exact ih _ _

theorem eventWakeOne_still (k : Kernel) (waiter value : Nat) : Still p k (k.eventWakeOne waiter value) := by
  have answered : Still p k
      { k with ram := setFrameReg k.ram (k.desc.get32 waiter Desc.savedSp) frameRegD1 value } :=
    Still.of_same rfl rfl
  exact answered.trans (procAProc_still _ _)

theorem signalRounds_still (rounds slot : Nat) (k : Kernel) (value : Nat) :
    Still p k (k.signalRounds slot value rounds) := by
  induction rounds generalizing k value with
  | zero => exact Still.rfl
  | succ rounds ih =>
    have taken := dequeueWalk_still (p := p) k slot value queueLimit 0 (k.events slot).qNext
    rw [Kernel.signalRounds]
    dsimp only [Kernel.eventDequeueInRange]
    split_ifs
    · exact taken
    · exact ((taken.trans (eventWakeOne_still _ _ _)).trans (setEvent_still _ _ _)).trans (ih _ _)

theorem eventSignalCommon_still (k : Kernel) (id newValue : Nat) (restore wakeAll : Bool) :
    Still p k (k.eventSignalCommon id newValue restore wakeAll).2 := by
  unfold Kernel.eventSignalCommon
  cases k.eventFindById id with
  | none => exact Still.rfl
  | some slot =>
    have stored := setEvent_still (p := p) k slot { k.events slot with value := newValue }
    dsimp only
    split_ifs
    · exact stored.trans (setEvent_still _ _ _)
    all_goals exact stored.trans (signalRounds_still _ _ _ _)

theorem eventSignal_still (k : Kernel) (id : Nat) (wakeAll : Bool) : Still p k (k.eventSignal id wakeAll).2 := by
  unfold Kernel.eventSignal
  cases k.eventFindById id with
  | none => exact Still.rfl
  | some slot => exact eventSignalCommon_still _ _ _ _ _

theorem eventSetRelative_still (k : Kernel) (id : Nat) (delta : Int) (wakeAll : Bool) :
    Still p k (k.eventSetRelative id delta wakeAll).2 := by
  unfold Kernel.eventSetRelative
  cases k.eventFindById id with
  | none => exact Still.rfl
  | some slot => exact eventSignalCommon_still _ _ _ _ _

theorem eventWaitCheck_still (k : Kernel) (id lo hi : Nat) : Still p k (k.eventWaitCheck id lo hi).2 := by
  unfold Kernel.eventWaitCheck
  cases k.eventFindById id with
  | none => exact Still.rfl
  | some slot =>
    dsimp only
    split_ifs
    · exact setEvent_still _ _ _
    · exact Still.rfl

theorem schedFirstPick_still (k : Kernel) : Still p k k.schedFirstPick.2 := by
  have picked : Agree Watched k.desc (schedPickHighestAge k.desc 0).2 := watched_link (pick_agree _ _)
  unfold Kernel.schedFirstPick
  generalize schedPickHighestAge k.desc 0 = found at picked ⊢
  obtain ⟨first, desc⟩ := found
  dsimp only at picked ⊢
  split_ifs
  all_goals exact Still.of_agree picked rfl

theorem switchTo_still (picked : Nat × Kernel) : Still p picked.2 (Kernel.switchTo picked) := by
  unfold Kernel.switchTo
  split
  · exact Still.rfl
  · exact Still.of_same rfl rfl

theorem eventEnqueue_still (k : Kernel) (slot desc : Nat) : Still p k (k.eventEnqueue slot desc) := by
  unfold Kernel.eventEnqueue Kernel.setEvent
  dsimp only
  split_ifs
  · exact Still.of_agree (watched_next _ _ _) rfl
  · exact Still.of_agree ((watched_next _ _ _).trans (watched_next _ _ _)) rfl

def setRange (k : Kernel) (lo hi : Nat) : Kernel :=
  { k with desc := (k.desc.set32 k.proc Desc.evMin lo).set32 k.proc Desc.evMax hi }

/-- A call that blocks has set the range of its caller; all else that is watched stays. -/
theorem eventWaitEnqueue_still (k : Kernel) (id lo hi : Nat) (block : (k.eventWaitEnqueue id lo hi).1 ≠ 0) :
    Still p (setRange k lo hi) (k.eventWaitEnqueue id lo hi).2 := by
  unfold Kernel.eventWaitEnqueue at block ⊢
  cases found : k.eventFindById id with
  | none => simp [found] at block
  | some slot =>
    simp only [found] at block ⊢
    split at block
    · exact absurd rfl block
    · next running =>
      rw [if_neg running]
      exact (eventEnqueue_still (setRange k lo hi) slot k.proc).trans (schedFirstPick_still _)

theorem setRange_saveSp (k : Kernel) (lo hi sp : Nat) :
    Still p (setRange k lo hi) (setRange (k.saveSp sp) lo hi) :=
  Still.of_agree (((watched_savedSp _ _ _).both32 _ _ _).both32 _ _ _) rfl

/-- Ev$Wait: either the range of the caller is set, or no private byte changes. -/
theorem sysEventWait_still {k k' : Kernel} {id lo hi sp : Nat} (ran : k.sysEventWait id lo hi sp = some k') :
    ((k.eventWaitCheck id lo hi).1 = .ok none ∧ Still p (setRange k lo hi) k') ∨
      ((k.eventWaitCheck id lo hi).1 ≠ .ok none ∧ Still p k k') := by
  unfold Kernel.sysEventWait at ran
  split at ran
  · next block =>
    dsimp only at ran
    split_ifs at ran with idle
    cases ran
    exact Or.inl ⟨block, (setRange_saveSp k lo hi sp).trans (eventWaitEnqueue_still _ _ _ _ idle)⟩
  · next passed =>
    cases ran
    exact Or.inr ⟨passed, eventWaitCheck_still k id lo hi⟩

end Q9OS.Fields

import Mathlib.Tactic
import Q9OS.Lib.Run
import Q9OS.Process.Calls
import Q9OS.Process.Frame
import Q9OS.Process.SysVars

/-!
# The minimum priority

D_MinPty keeps ready processes of lower priority from running. The timer obeys
it. The pick behind a blocking call is the one written for the first process
after the start: it sets D_MinPty back to 0.
-/

namespace Q9OS

namespace Threshold

/-! ### Calls that leave the scheduler's cells alone -/

section

variable (k : Kernel)

-- Stated for any new value, so that the kernel of Lean never looks into the value of a call.
theorem sched_desc (h : Heap) : { k with desc := h }.sched = k.sched := rfl

theorem sched_ram (ram : Mem) : { k with ram := ram }.sched = k.sched := rfl

theorem sched_mods (mods : ModDir) : { k with mods := mods }.sched = k.sched := rfl

theorem sched_store (ram : Mem) (h : Heap) : { k with ram := ram, desc := h }.sched = k.sched := rfl

@[simp]
theorem modUnlink_sched (hdr : Nat) : (k.modUnlink hdr).sched = k.sched := sched_mods k _

@[simp]
theorem procSRtMem_sched (addr size : Nat) : (k.procSRtMem addr size).sched = k.sched := sched_ram k _

theorem modLink_sched (desired name : Nat) : (k.modLink desired name).2.sched = k.sched := by
  unfold Kernel.modLink
  generalize k.mods.linkByName k.ram desired name = out
  rfl

@[simp]
theorem sendTo_sched (desc signal : Nat) : (k.sendTo desc signal).sched = k.sched := by
  unfold Kernel.sendTo Kernel.sendStore Kernel.sendDeliver Kernel.icptDeliver Kernel.wake
  dsimp only
  split_ifs <;> rfl

@[simp]
theorem procSend_sched (pid signal : Nat) : (k.procSend pid signal).2.sched = k.sched := by
  unfold Kernel.procSend
  dsimp only
  split_ifs <;> simp

@[simp]
theorem icptDeliver_sched (desc signal : Nat) : (k.icptDeliver desc signal).sched = k.sched := by
  unfold Kernel.icptDeliver
  split_ifs <;> rfl

@[simp]
theorem icptReturn_sched (desc : Nat) : (k.icptReturn desc).2.sched = k.sched := by
  unfold Kernel.icptReturn Kernel.icptPop
  dsimp only
  by_cases none : desc = 0
  · rw [if_pos none]
  · rw [if_neg none]
    by_cases flat : k.desc.get32 desc Desc.icptDepth = 0
    · rw [if_pos flat]
    · rw [if_neg flat]
      dsimp only
      split_ifs <;> simp

@[simp]
theorem procSigMask_sched (level : Nat) : (k.procSigMask level).2.sched = k.sched := by
  unfold Kernel.procSigMask
  dsimp only
  split_ifs <;> rfl

@[simp]
theorem procIcpt_sched (vector dataPtr : Nat) : (k.procIcpt vector dataPtr).sched = k.sched := by
  unfold Kernel.procIcpt
  split_ifs <;> rfl

@[simp]
theorem tlinkRemove_sched (n : Nat) : (k.tlinkRemove n).sched = k.sched := by
  unfold Kernel.tlinkRemove
  refine (sched_desc _ _).trans ?_
  split_ifs <;> simp only [modUnlink_sched, procSRtMem_sched]

theorem tlinkStatic_sched (hdr size : Nat) : (k.tlinkStatic hdr size).2.sched = k.sched :=
  Kernel.tlinkStatic_keeps ⟨fun _ _ => rfl, fun _ _ => rfl⟩ k hdr size

theorem tlinkInstall_sched (n memOverride namePtr : Nat) : (k.tlinkInstall n memOverride namePtr).2.sched = k.sched := by
  by_cases busy : k.desc.get32 k.proc (Desc.trapSlot n + Desc.trapModPtr) ≠ 0
  · rw [Kernel.tlinkInstall, if_pos busy]
  · have linked := modLink_sched k 0 namePtr
    rw [Kernel.tlinkInstall_answer (not_not.mp busy)]
    cases found : k.modLink 0 namePtr with
    | mk hdr k' =>
      rw [found] at linked
      have kept := (tlinkStatic_sched k' hdr ((k'.ram.getU32 (hdr + Mh.mem) + memOverride) % 4294967296)).trans linked
      rcases Kernel.installAnswer_cases Kernel.tlinkStatic n memOverride (nulEnd k.ram queueLimit namePtr + 1) hdr k' with
        missing | ⟨code, k'', given, answer⟩ | ⟨staticPtr, granted, k'', given, answer⟩
      · rw [missing]
        exact linked
      · rw [given] at kept
        rw [answer]
        exact kept
      · rw [given] at kept
        rw [answer]
        exact kept

@[simp]
theorem procTLink_sched (n memOverride namePtr : Nat) : (k.procTLink n memOverride namePtr).2.sched = k.sched := by
  unfold Kernel.procTLink
  split
  · rfl
  · split
    · exact tlinkRemove_sched k n
    · exact tlinkInstall_sched k n memOverride namePtr

@[simp]
theorem procSPrior_sched (pid priority : Nat) : (k.procSPrior pid priority).2.sched = k.sched := by
  unfold Kernel.procSPrior
  dsimp only
  split
  · rfl
  · exact sched_desc k _

@[simp]
theorem procAProc_sched (desc : Nat) : (k.procAProc desc).2.sched = k.sched := by
  unfold Kernel.procAProc
  split_ifs <;> rfl

/-! Fork -/

theorem inheritPaths_sched (desc parent inherit : Nat) (slots : List Nat) :
    (k.inheritPaths desc parent inherit slots).sched = k.sched := by
  induction slots generalizing k with
  | nil => rfl
  | cons i rest ih => exact (ih _).trans rfl

theorem forkPaths_sched (desc numPaths : Nat) : (k.forkPaths desc numPaths).sched = k.sched := by
  unfold Kernel.forkPaths Kernel.shareFiles Kernel.withoutFiles
  generalize List.range Desc.pathCount = slots
  split
  · exact inheritPaths_sched k desc k.proc (min numPaths Desc.pathCount) slots
  · rfl

theorem forkInto_sched (args : Kernel.ForkArgs) (image : Kernel.Image) (desc : Nat) :
    (k.forkInto args image desc).sched = k.sched := by
  unfold Kernel.forkInto Kernel.forkDesc
  dsimp only
  exact forkPaths_sched _ _ _

theorem forkSlot_sched (args : Kernel.ForkArgs) (image : Kernel.Image) : (k.forkSlot args image).2.sched = k.sched := by
  unfold Kernel.forkSlot
  by_cases full : k.poolFree = 0
  · rw [k.procPoolAlloc_none full]
    rfl
  · rw [k.procPoolAlloc_some full]
    dsimp only
    rw [if_neg full]
    exact forkInto_sched _ _ _ _

@[simp]
theorem procFork_sched (args : Kernel.ForkArgs) : (k.procFork args).2.sched = k.sched := by
  unfold Kernel.procFork Kernel.forkLoaded
  split
  · rfl
  · exact forkSlot_sched _ _ _

@[simp]
theorem procDebugFork_sched (args : Kernel.ForkArgs) (buffer : Nat) : (k.procDebugFork args buffer).2.sched = k.sched := by
  have same := procFork_sched k args
  unfold Kernel.procDebugFork
  split
  · rfl
  · split
    · next forked =>
      rw [forked] at same
      exact same
    · next forked =>
      rw [forked] at same
      dsimp only
      split <;> exact same

@[simp]
theorem procAllPrc_sched : k.procAllPrc.2.sched = k.sched := by
  unfold Kernel.procAllPrc Kernel.procPoolAlloc
  split_ifs <;> simp_all [Kernel.nameProc]

@[simp]
theorem procDelPrc_sched (pid : Nat) : (k.procDelPrc pid).2.sched = k.sched := by
  unfold Kernel.procDelPrc
  dsimp only
  split_ifs <;> rfl

/-! Release -/

theorem alarmClearSlots_sched (pid : Nat) (slots : List Nat) : (k.alarmClearSlots pid slots).sched = k.sched := by
  induction slots generalizing k with
  | nil => rfl
  | cons i rest ih =>
    unfold Kernel.alarmClearSlots
    dsimp only
    split
    · exact ih k
    · exact (ih _).trans rfl

@[simp]
theorem alarmCleanupProcess_sched (desc : Nat) : (k.alarmCleanupProcess desc).sched = k.sched := by
  unfold Kernel.alarmCleanupProcess
  dsimp only
  split
  · rfl
  · exact alarmClearSlots_sched k _ _

theorem releasePathsFrom_sched (desc : Nat) (slots : List Nat) : (k.releasePathsFrom desc slots).sched = k.sched := by
  induction slots generalizing k with
  | nil => rfl
  | cons i rest ih =>
    refine (ih _).trans ?_
    unfold Kernel.releasePath
    dsimp only
    split_ifs <;> rfl

theorem releaseTrapLinksFrom_sched (desc : Nat) (traps : List Nat) :
    (k.releaseTrapLinksFrom desc traps).sched = k.sched := by
  induction traps generalizing k with
  | nil => rfl
  | cons n rest ih =>
    refine (ih _).trans ((sched_desc _ _).trans ?_)
    split
    · exact modUnlink_sched k _
    · rfl

@[simp]
theorem procReleaseAll_sched (desc : Nat) : (k.procReleaseAll desc).sched = k.sched := by
  unfold Kernel.procReleaseAll Kernel.procReleaseMemory Kernel.procReleasePaths Kernel.procReleaseTrapLinks
  generalize List.range Desc.pathCount = slots
  generalize List.range' 1 15 = traps
  exact (releasePathsFrom_sched _ desc slots).trans (releaseTrapLinksFrom_sched k desc traps)

@[simp]
theorem procPoolFree_sched (desc : Nat) : (k.procPoolFree desc).sched = k.sched := by
  unfold Kernel.procPoolFree Kernel.procPoolAbortAlloc
  simp

@[simp]
theorem procDebugExit_sched (pid : Nat) : (k.procDebugExit pid).2.sched = k.sched := by
  unfold Kernel.procDebugExit Kernel.releaseModule
  dsimp only
  split_ifs <;> simp [Kernel.modUnlink]

theorem trapReleaseFrom_sched (traps : List Nat) : (k.trapReleaseFrom traps).sched = k.sched := by
  induction traps generalizing k with
  | nil => rfl
  | cons n rest ih => exact (ih _).trans (tlinkRemove_sched k n)

theorem procChain_sched (args : Kernel.ForkArgs) : (k.procChain args).2.sched = k.sched := by
  rw [Kernel.procChain]
  split
  · rfl
  · extract_lets loaded stored
    have kept : stored.sched = k.sched := rfl
    clear_value loaded stored
    split <;> exact kept

theorem chainRelease_sched (old : Kernel.OldImage) : (k.chainRelease old).sched = k.sched := by
  unfold Kernel.chainRelease
  extract_lets quiet free unlinked
  have freed : free.sched = k.sched := (trapReleaseFrom_sched _ _).trans (alarmCleanupProcess_sched k k.proc)
  have kept : unlinked.sched = k.sched := by
    refine Eq.trans ?_ freed
    by_cases linked : old.mod ≠ 0
    · exact (congrArg Kernel.sched (if_pos linked)).trans (modUnlink_sched free old.mod)
    · exact congrArg Kernel.sched (if_neg linked)
  clear_value unlinked
  split <;> exact kept

@[simp]
theorem sysChain_sched (args : Kernel.ForkArgs) : (k.sysChain args).2.sched = k.sched := by
  have chained := procChain_sched k args
  rw [Kernel.sysChain]
  cases done : k.procChain args with
  | mk result k' =>
    rw [done] at chained
    cases result with
    | error code => exact chained
    | ok old => exact (chainRelease_sched k' old).trans chained

/-! Alarms -/

theorem alarmStore_sched (signal ticks day sec cycle : Nat) :
    (k.alarmStore signal ticks day sec cycle).2.sched = k.sched := by
  unfold Kernel.alarmStore
  dsimp only
  split
  · rfl
  · split <;> rfl

@[simp]
theorem alarmSet_sched (signal ticks cycle : Nat) : (k.alarmSet signal ticks cycle).2.sched = k.sched := by
  unfold Kernel.alarmSet
  dsimp only
  split
  · rfl
  · split <;> exact alarmStore_sched _ _ _ _ _ _

@[simp]
theorem alarmSetAbsolute_sched (signal day seconds : Nat) : (k.alarmSetAbsolute signal day seconds).2.sched = k.sched := by
  unfold Kernel.alarmSetAbsolute
  split
  · rfl
  · exact alarmStore_sched _ _ _ _ _ _

@[simp]
theorem alarmAtDate_sched (signal : Nat) (date time : UInt32) : (k.alarmAtDate signal date time).2.sched = k.sched := by
  unfold Kernel.alarmAtDate
  dsimp only
  split_ifs <;> simp

@[simp]
theorem alarmReset_sched (id signal ticks : Nat) : (k.alarmReset id signal ticks).2.sched = k.sched := by
  unfold Kernel.alarmReset
  dsimp only
  split
  · rfl
  · split
    · rfl
    · split <;> rfl

@[simp]
theorem alarmDelete_sched (id : Nat) : (k.alarmDelete id).2.sched = k.sched := by
  have slots (pid : Nat) (l : List Nat) (k : Kernel) : (k.alarmDeleteSlots id pid l).sched = k.sched := by
    induction l generalizing k with
    | nil => rfl
    | cons i rest ih =>
      unfold Kernel.alarmDeleteSlots
      dsimp only
      split
      · exact ih k
      · exact (ih _).trans rfl
  unfold Kernel.alarmDelete
  split
  · rfl
  · exact slots _ _ k

/-! Events and semaphores -/

theorem dequeueWalk_sched (slot value fuel prev node : Nat) :
    (k.dequeueWalk slot value fuel prev node).2.sched = k.sched := by
  induction fuel generalizing prev node with
  | zero => rfl
  | succ fuel ih =>
    unfold Kernel.dequeueWalk
    split
    · rfl
    · split
      · rfl
      · exact ih node _

theorem signalRounds_sched (slot value rounds : Nat) : (k.signalRounds slot value rounds).sched = k.sched := by
  induction rounds generalizing k value with
  | zero => rfl
  | succ rounds ih =>
    have taken := dequeueWalk_sched k slot value queueLimit 0 (k.events slot).qNext
    unfold Kernel.signalRounds
    split
    next waiter k' found =>
      have taken : k'.sched = k.sched := (congrArg (fun out => out.2.sched) found).symm.trans taken
      split
      · exact taken
      · have woken : (k'.eventWakeOne waiter value).sched = k'.sched := by
          unfold Kernel.eventWakeOne
          simp
        exact (ih _ _).trans (woken.trans taken)

theorem eventSignalCommon_sched (id value : Nat) (restore wakeAll : Bool) :
    (k.eventSignalCommon id value restore wakeAll).2.sched = k.sched := by
  unfold Kernel.eventSignalCommon
  split
  · rfl
  · dsimp only
    split
    · rfl
    · exact signalRounds_sched _ _ _ _

/-- A call of F$Event that does not wait. -/
theorem eventCall_sched {k' : Kernel} (op : EventOp) (stays : ∀ id lo hi sp, op = .wait id lo hi sp →
    (k.eventWaitCheck id lo hi).1 ≠ .ok none) (called : k.eventCall op = some k') : k'.sched = k.sched := by
  cases op with
  | create nameAddr value waitInc signalInc =>
    obtain rfl := Option.some.inj called
    unfold Kernel.eventCreate
    dsimp only
    split
    · rfl
    · split
      · rfl
      · split <;> rfl
  | delete nameAddr =>
    obtain rfl := Option.some.inj called
    unfold Kernel.eventDelete
    split
    · rfl
    · split
      · rfl
      · split <;> rfl
  | link nameAddr =>
    obtain rfl := Option.some.inj called
    unfold Kernel.eventLink
    split
    · rfl
    · split <;> rfl
  | unlink id =>
    obtain rfl := Option.some.inj called
    unfold Kernel.eventUnlink
    split
    · rfl
    · dsimp only
      split <;> rfl
  | read id =>
    obtain rfl := Option.some.inj called
    rfl
  | wait id lo hi sp =>
    have stays := stays id lo hi sp rfl
    simp only [Kernel.eventCall, Kernel.sysEventWait] at called
    obtain rfl := Option.some.inj called
    unfold Kernel.eventWaitCheck
    split
    · rfl
    · dsimp only
      split <;> rfl
  | signal id wakeAll =>
    obtain rfl := Option.some.inj called
    unfold Kernel.eventSignal
    split
    · rfl
    · exact eventSignalCommon_sched _ _ _ _ _
  | set id value wakeAll =>
    obtain rfl := Option.some.inj called
    exact eventSignalCommon_sched _ _ _ _ _
  | setRelative id delta wakeAll =>
    obtain rfl := Option.some.inj called
    unfold Kernel.eventSetRelative
    split
    · rfl
    · exact eventSignalCommon_sched _ _ _ _ _
  | pulse id value wakeAll =>
    obtain rfl := Option.some.inj called
    exact eventSignalCommon_sched _ _ _ _ _

@[simp]
theorem sysSemaSignal_sched (sema : Nat) : (k.sysSemaSignal sema).2.sched = k.sched := by
  have taken : (k.semaDequeue sema).2.sched = k.sched := by
    rw [Kernel.semaDequeue]
    split
    · rfl
    · exact sched_store k _ _
  rw [Kernel.sysSemaSignal]
  split
  · rfl
  · cases head : k.semaDequeue sema with
    | mk waiter k' =>
      rw [head] at taken
      dsimp only
      split
      · exact taken
      · exact (procAProc_sched k' waiter).trans taken

@[simp]
theorem sysAProc_sched (desc sp : Nat) : (k.sysAProc desc sp).2.sched = k.sched := by
  have entered := procAProc_sched k desc
  unfold Kernel.sysAProc
  split
  · next refused =>
    rw [refused] at entered
    exact entered
  · next k' accepted =>
    rw [accepted] at entered
    split
    · unfold Kernel.schedCommitPreempt Kernel.saveSp
      dsimp only
      split <;> exact entered
    · exact entered

theorem debugCount_sched (frame : Nat) : (k.debugCount frame).2.sched = k.sched := by
  rw [Kernel.debugCount]
  split
  · exact sched_desc k _
  · split
    · exact sched_desc k _
    · exact sched_store k _ _

theorem debugStop_sched (child parent frame notRun : Nat) : (k.debugStop child parent frame notRun).sched = k.sched := by
  unfold Kernel.debugStop Kernel.setReg Kernel.waitQTake
  generalize Kernel.debugSaveRegs k.ram (k.desc.get32 child Desc.dbgReg) frame = ram
  rfl

@[simp]
theorem procDebugTrace_sched (frame : Nat) : (k.procDebugTrace frame).sched = k.sched := by
  have saved : (k.saveSp frame).sched = k.sched := sched_desc k _
  rw [Kernel.procDebugTrace]
  generalize k.saveSp frame = k' at saved ⊢
  split
  · exact saved
  · have counted := (debugCount_sched k' frame).trans saved
    cases count : k'.debugCount frame with
    | mk stops k'' =>
      rw [count] at counted
      cases stops with
      | none => exact counted
      | some notRun =>
        dsimp only
        split
        · exact counted
        · exact (debugStop_sched k'' _ _ _ _).trans counted

/-! ### The tick -/

theorem alarmFire_sched (i : Nat) : (k.alarmFire i).sched = k.sched := by
  unfold Kernel.alarmFire Kernel.setAlarm
  dsimp only
  split <;> exact procSend_sched _ _ _

theorem alarmStep_sched (dev : Devices) (i : Nat) : (k.alarmStep dev i).sched = k.sched := by
  unfold Kernel.alarmStep
  dsimp only
  split
  · rfl
  · split
    · split
      · exact alarmFire_sched _ _
      · rfl
    · split
      · rfl
      · exact alarmFire_sched _ _

theorem alarmSteps_sched (dev : Devices) (slots : List Nat) : (k.alarmSteps dev slots).sched = k.sched := by
  induction slots generalizing k with
  | nil => rfl
  | cons i rest ih => exact (ih _).trans (alarmStep_sched k dev i)

theorem conSSigTick_sched (dev : Devices) : (k.conSSigTick dev).sched = k.sched := by
  unfold Kernel.conSSigTick
  dsimp only
  split
  · rfl
  · exact procSend_sched _ _ _

theorem tickAccounts_sched (dev : Devices) : (k.tickAccounts dev).sched = k.sched := by
  unfold Kernel.tickAccounts Kernel.clockTick Kernel.alarmTick
  generalize List.range alarmSlots = slots
  exact (alarmSteps_sched _ dev slots).trans (conSSigTick_sched _ dev)

end

/-- A picked process has the priority asked for. -/
theorem pickWalk_priority (h : Heap) (minPty fuel node best bestAge : Nat)
    (before : best ≠ 0 → minPty ≤ h.get8 best Desc.priority)
    (found : pickWalk h minPty fuel node best bestAge ≠ 0) :
    minPty ≤ h.get8 (pickWalk h minPty fuel node best bestAge) Desc.priority := by
  induction fuel generalizing node best bestAge with
  | zero => exact before found
  | succ fuel ih =>
    unfold pickWalk at found ⊢
    split at found
    · next last =>
      rw [if_pos last]
      exact before found
    · next inside =>
      rw [if_neg inside]
      dsimp only at found ⊢
      split at found
      · next better =>
        rw [if_pos better]
        refine ih _ node _ (fun _ => ?_) found
        rcases better.1 with zero | enough
        · rw [zero]
          exact Nat.zero_le _
        · exact enough
      · next worse =>
        rw [if_neg worse]
        exact ih _ best bestAge before found

/-- What `Q9K_SchedReschedule` returns: the process it switches to, 0 for none. -/
def rescheduled (k : Kernel) (dev : Devices) : Nat :=
  let k := k.tickAccounts dev
  if k.sched.noSwitch ≠ 0 ∨ k.sched.slice > 0 then 0 else (schedPickHighestAge k.desc k.sched.minPty).1

/-- The kernel at the entry of the timer interrupt. -/
def atTick (k : Kernel) (sp mask : Nat) : Kernel :=
  let k := k.saveSp sp
  { k with sched := { k.sched with noSwitch := mask } }

theorem timerTick_eq (k : Kernel) (dev : Devices) (sp mask : Nat) :
    k.timerTick dev sp mask = ((atTick k sp mask).tickAccounts dev).sliceEnd := rfl

theorem sliceEnd_minPty (k : Kernel) : k.sliceEnd.sched.minPty = k.sched.minPty := by
  unfold Kernel.sliceEnd Kernel.schedSwitch
  split
  · rfl
  · split
    · rfl
    · dsimp only
      split <;> rfl

theorem timerTick_minPty (k : Kernel) (dev : Devices) (sp mask : Nat) :
    (k.timerTick dev sp mask).sched.minPty = k.sched.minPty := by
  rw [timerTick_eq, sliceEnd_minPty, tickAccounts_sched]
  rfl

/-- The byte of the priority survives what the end of a slice does to the queues. -/
theorem sliceEnd_priority (k : Kernel) (p : Nat) : k.sliceEnd.desc.get8 p Desc.priority = k.desc.get8 p Desc.priority := by
  have outside : ¬ QueueOff Desc.priority := by
    unfold QueueOff LinkOff Desc.priority
    omega
  have picked := pick_agree k.desc k.sched.minPty
  have same : (schedPickHighestAge k.desc k.sched.minPty).2.get8 p Desc.priority = k.desc.get8 p Desc.priority :=
    picked.get8 p (fun link => outside (Or.inl link))
  unfold Kernel.sliceEnd Kernel.schedSwitch
  split
  · rfl
  · split
    · rfl
    · dsimp only
      split
      · exact same
      · split
        · exact ((schedInsert_agree _ _).get8 p outside).trans same
        · exact same

/-- A switch of the timer takes a process of sufficient priority. -/
theorem rescheduled_priority (k : Kernel) (dev : Devices) (switched : rescheduled k dev ≠ 0) :
    k.sched.minPty ≤ (k.schedReschedule dev).desc.get8 (rescheduled k dev) Desc.priority := by
  have pick : rescheduled k dev = (schedPickHighestAge (k.tickAccounts dev).desc (k.tickAccounts dev).sched.minPty).1 := by
    unfold rescheduled at switched ⊢
    dsimp only at switched ⊢
    split at switched
    · exact absurd rfl switched
    · next free => rw [if_neg free]
  have high := pickWalk_priority (k.tickAccounts dev).desc (k.tickAccounts dev).sched.minPty queueLimit
    ((k.tickAccounts dev).desc.get32 readyQ Desc.next) 0 0 (fun none => absurd rfl none) (fun none => switched (pick.trans none))
  unfold Kernel.schedReschedule
  rw [sliceEnd_priority, pick]
  rw [tickAccounts_sched] at high ⊢
  exact high

/-! ### Forced switches -/

/-- F$Wait gives the processor away: there is a child but no dead one, and no signal without an intercept
routine is pending. -/
def waitSwitches (k : Kernel) : Bool :=
  k.findDeadChild k.proc (List.range k.poolCount) = (none, true) ∧
    (k.proc = 0 ∨ k.desc.get16 k.proc Desc.signal = 0 ∨ k.desc.get32 k.proc Desc.sigVec ≠ 0)

/-- A call that picks the next process itself. -/
def forces (k : Kernel) : Call → Bool
  | .exit _ => true
  | .sleep _ _ => true
  | .nProc _ => true
  | .wait _ => waitSwitches k
  | .event (.wait id lo hi _) =>
    match (k.eventWaitCheck id lo hi).1 with
    | .ok none => true
    | _ => false
  | .semaWait sema _ => sema != 0 && k.proc != 0
  | .dExec pid _ _ _ _ =>
    let desc := k.procLookup pid
    k.debugAccepts desc && k.desc.get32 desc Desc.savedSp != 0 && k.desc.get32 desc Desc.dbgReg != 0
  | _ => false

@[simp]
theorem firstPick_minPty (k : Kernel) : k.schedFirstPick.2.sched.minPty = 0 := by
  unfold Kernel.schedFirstPick
  dsimp only
  split <;> rfl

@[simp]
theorem switchTo_sched (picked : Nat × Kernel) : (Kernel.switchTo picked).sched = picked.2.sched := by
  unfold Kernel.switchTo
  split <;> rfl

theorem alive_some {k k' : Kernel} (lives : k.alive = some k') : k' = k := by
  unfold Kernel.alive at lives
  split at lives
  · cases lives
  · exact (Option.some.inj lives).symm

theorem procSleep_minPty (k : Kernel) (desc ticks : Nat) : (k.procSleep desc ticks).2.sched.minPty = 0 := by
  unfold Kernel.procSleep
  dsimp only
  split_ifs <;> simp

theorem procDebugChildExit_picks (k : Kernel) (child owner status : Nat) :
    ∃ k' : Kernel, k.procDebugChildExit child owner status = k'.schedFirstPick := by
  rw [Kernel.procDebugChildExit]
  split <;> exact ⟨_, rfl⟩

theorem procExit_picks (k : Kernel) (desc status : Nat) :
    ∃ k' : Kernel, k.procExit desc status = k'.schedFirstPick := by
  rw [Kernel.procExit]
  split
  · exact procDebugChildExit_picks k _ _ _
  · exact ⟨_, rfl⟩

theorem procExit_minPty (k : Kernel) (desc status : Nat) : (k.procExit desc status).2.sched.minPty = 0 := by
  obtain ⟨k', picks⟩ := procExit_picks k desc status
  rw [picks, firstPick_minPty]

theorem waitSignalPending_eq (k : Kernel) :
    ∃ h, k.waitSignalPending k.proc = (decide (k.proc ≠ 0 ∧ k.desc.get16 k.proc Desc.signal ≠ 0), { k with desc := h }) ∧
      h.get32 k.proc Desc.sigVec = k.desc.get32 k.proc Desc.sigVec := by
  unfold Kernel.waitSignalPending
  by_cases none : k.proc = 0
  · refine ⟨k.desc, ?_, rfl⟩
    rw [if_pos none, decide_eq_false (fun both => both.1 none)]
  · have signal := Heap.get16_set8_off k.desc k.proc k.proc 0 (show Desc.sigLvl < Desc.signal ∨ _ by decide)
    have vector := Heap.get32_set8_off k.desc k.proc k.proc 0 (show Desc.sigLvl < Desc.sigVec ∨ _ by decide)
    refine ⟨k.desc.set8 k.proc Desc.sigLvl 0, ?_, vector⟩
    dsimp only
    rw [if_neg none, signal]
    simp only [ne_eq, none, not_false_eq_true, true_and]

theorem sysWait_minPty {k : Kernel} {sp : Nat} (switches : waitSwitches k = true) : (k.sysWait sp).2.sched.minPty = 0 := by
  obtain ⟨living, caught⟩ := of_decide_eq_true switches
  obtain ⟨h, pending, vector⟩ := waitSignalPending_eq k
  unfold Kernel.sysWait Kernel.procWaitTryReap
  rw [living]
  dsimp only
  rw [pending]
  by_cases signalled : k.proc ≠ 0 ∧ k.desc.get16 k.proc Desc.signal ≠ 0
  · have ready : h.get32 k.proc Desc.sigVec ≠ 0 := by
      rw [vector]
      rcases caught with none | quiet | ready
      · exact absurd none signalled.1
      · exact absurd quiet signalled.2
      · exact ready
    rw [decide_eq_true signalled]
    dsimp only
    rw [if_pos ready]
    unfold Kernel.procWaitDeliver
    simp
  · rw [decide_eq_false signalled]
    unfold Kernel.waitBlock
    simp

/-- Otherwise F$Wait returns to its caller at once. -/
theorem sysWait_sched {k : Kernel} {sp : Nat} (returns : waitSwitches k = false) : (k.sysWait sp).2.sched = k.sched := by
  have returns := of_decide_eq_false returns
  unfold Kernel.sysWait Kernel.procWaitTryReap
  rcases found : k.findDeadChild k.proc (List.range k.poolCount) with ⟨dead, child⟩
  cases dead with
  | some i => exact procPoolFree_sched k _
  | none =>
    cases child with
    | false => rfl
    | true =>
      obtain ⟨running, caught⟩ := not_or.mp (fun other => returns ⟨found, other⟩)
      obtain ⟨signal, plain⟩ := not_or.mp caught
      obtain ⟨h, pending, vector⟩ := waitSignalPending_eq k
      rw [← vector] at plain
      dsimp only
      rw [pending, decide_eq_true ⟨running, signal⟩]
      dsimp only
      rw [if_neg plain]

theorem sysDebugExec_minPty {k : Kernel} {pid count bpCount bpList sp : Nat}
    (forced : forces k (.dExec pid count bpCount bpList sp) = true) :
    (k.sysDebugExec pid count bpCount bpList sp).2.sched.minPty = 0 := by
  simp only [forces, Bool.and_eq_true, bne_iff_ne] at forced
  obtain ⟨⟨accepts, frame⟩, buffer⟩ := forced
  have picked : (k.procDebugExec pid count bpCount bpList).2.sched.minPty = 0 := by
    rw [Kernel.procDebugExec, if_neg (Bool.not_eq_false _ ▸ accepts), if_neg (not_or.mpr ⟨frame, buffer⟩)]
    extract_lets instructions breakpoints ram
    split
    next next' k' pick =>
    have lowest := firstPick_minPty (Kernel.debugRun { k with ram := ram } (k.procLookup pid) instructions breakpoints bpList)
    rw [pick] at lowest
    exact lowest
  rw [Kernel.sysDebugExec]
  cases ran : k.procDebugExec pid count bpCount bpList with
  | mk result k' =>
    rw [ran] at picked
    cases result with
    | error code => exact picked
    | ok next => exact (congrArg Sched.minPty (sched_store k' _ _)).trans picked

theorem sysDebugExec_sched {k : Kernel} {pid count bpCount bpList sp : Nat}
    (free : forces k (.dExec pid count bpCount bpList sp) = false) :
    (k.sysDebugExec pid count bpCount bpList sp).2.sched = k.sched := by
  unfold Kernel.sysDebugExec Kernel.procDebugExec
  by_cases accepts : k.debugAccepts (k.procLookup pid) = false
  · simp [accepts]
  · by_cases empty : k.desc.get32 (k.procLookup pid) Desc.savedSp = 0 ∨ k.desc.get32 (k.procLookup pid) Desc.dbgReg = 0
    · simp [accepts, empty]
    · simp [forces, accepts] at free
      exact absurd (or_iff_not_imp_left.mpr free) empty

/-- The pick behind a blocking call forgets the threshold. -/
theorem call_forced {k k' : Kernel} {call : Call} (forced : forces k call = true) (called : k.call call = some k') :
    k'.sched.minPty = 0 := by
  cases call with
  | exit status =>
    rw [alive_some called]
    exact (congrArg Sched.minPty (switchTo_sched _)).trans (procExit_minPty _ _ _)
  | sleep sp ticks =>
    rw [alive_some called]
    exact (congrArg Sched.minPty (switchTo_sched _)).trans (procSleep_minPty _ _ _)
  | wait sp =>
    rw [alive_some called]
    exact sysWait_minPty forced
  | nProc sp =>
    simp only [Kernel.call, Kernel.sysNProc] at called
    split at called
    · cases called
    · obtain rfl := Option.some.inj called
      exact firstPick_minPty _
  | event op =>
    cases op with
    | wait id lo hi sp =>
      simp only [forces] at forced
      split at forced
      · next blocks =>
        simp only [Kernel.call, Kernel.eventCall, Kernel.sysEventWait, blocks] at called
        split at called
        · cases called
        · next found =>
          obtain rfl := Option.some.inj called
          unfold Kernel.eventWaitEnqueue at found ⊢
          split
          · next missing =>
            rw [missing] at found
            exact absurd rfl found
          · next slot here =>
            rw [here] at found
            dsimp only at found ⊢
            split
            · next halted =>
              rw [if_pos halted] at found
              exact absurd rfl found
            · exact firstPick_minPty _
      · cases forced
    | _ => cases forced
  | semaWait sema sp =>
    rw [alive_some called]
    simp only [forces, Bool.and_eq_true, bne_iff_ne] at forced
    unfold Kernel.sysSemaWait
    rw [if_neg (by omega)]
    dsimp only
    rw [switchTo_sched, firstPick_minPty]
  | dExec pid count bpCount bpList sp =>
    obtain rfl := Option.some.inj called
    exact sysDebugExec_minPty forced
  | _ => cases forced

/-- No other call touches it. -/
theorem call_kept {k k' : Kernel} {call : Call} (free : forces k call = false) (called : k.call call = some k') :
    k'.sched.minPty = k.sched.minPty := by
  cases call with
  | exit | sleep | nProc => cases free
  | wait sp =>
    rw [alive_some called]
    exact congrArg Sched.minPty (sysWait_sched free)
  | event op =>
    refine congrArg Sched.minPty (eventCall_sched k op ?_ called)
    rintro id lo hi sp rfl blocks
    simp [forces, blocks] at free
  | semaWait sema sp =>
    rw [alive_some called]
    simp only [forces, Bool.and_eq_false_iff, bne_eq_false_iff_eq] at free
    unfold Kernel.sysSemaWait
    rw [if_pos free]
  | dExec pid count bpCount bpList sp =>
    obtain rfl := Option.some.inj called
    exact congrArg Sched.minPty (sysDebugExec_sched free)
  | tick dev sp mask =>
    obtain rfl := Option.some.inj called
    exact timerTick_minPty k dev sp mask
  | _ =>
    obtain rfl := Option.some.inj called
    simp

/-! ### Runs -/

/-- The kernel with the variables of F$SetSys, and the threshold as it was last set. -/
structure Governed where
  kernel : Kernel
  vars : SetSys.Vars
  asked : Nat

inductive Entry where
  | call (call : Call)
  | setSys (globals : Nat → Nat) (varCode flags value : Nat)

/-- What F$SetSys has set the threshold to, if it has. -/
def askedBy (s : Governed) (globals : Nat → Nat) (varCode flags value : Nat) : Nat :=
  match (SetSys.procSetSys s.kernel s.vars globals varCode flags value).1 with
  | .error _ => s.asked
  | .ok _ =>
    if varCode = SetSys.varMinPty ∧ flags / SetSys.getFlag % 2 ≠ 1 then
      SetSys.truncate value (SetSys.sizeOf flags) % 65536
    else s.asked

def step (s : Governed) : Entry → Option Governed
  | .call call => (s.kernel.call call).map fun k => { s with kernel := k }
  | .setSys globals varCode flags value =>
    match SetSys.procSetSys s.kernel s.vars globals varCode flags value with
    | (_, vars, k) => some ⟨k, vars, askedBy s globals varCode flags value⟩

/-- The ready process a call selects on its way from `k` to `k'`. -/
def Selects (k : Kernel) (k' : Kernel) (p : Nat) : Entry → Prop
  | .call (.tick dev sp mask) => p ≠ 0 ∧ p = rescheduled (atTick k sp mask) dev
  | .call call => forces k call = true ∧ p = k'.proc ∧ p ≠ k'.idleProc
  | .setSys .. => False

/-- The threshold is what it was last set to, and no process of lower priority was selected. -/
def Upheld (s : Governed) (entry : Entry) : Prop :=
  ∀ s', step s entry = some s' →
    s'.kernel.sched.minPty = s'.asked ∧
    (0 < s.asked → ∀ p, Selects s.kernel s'.kernel p entry → s.asked ≤ s'.kernel.desc.get8 p Desc.priority)

/-- No call picks the next process itself while there is a threshold. -/
def Unforced (s : Governed) : Entry → Prop
  | .call call => 0 < s.kernel.sched.minPty → forces s.kernel call = false
  | .setSys .. => True

theorem assign_minPty (k : Kernel) (vars : SetSys.Vars) (varCode value : Nat) :
    (SetSys.assign k vars varCode value).2.sched.minPty =
      if varCode = SetSys.varMinPty then value % 65536 else k.sched.minPty := by
  unfold SetSys.assign
  by_cases here : varCode = SetSys.varMinPty
  · rw [if_pos here, here]
    rfl
  · rw [if_neg here, if_neg here]
    split_ifs <;> rfl

theorem setSys_asked (s : Governed) (globals : Nat → Nat) (varCode flags value : Nat)
    (start : s.kernel.sched.minPty = s.asked) :
    (SetSys.procSetSys s.kernel s.vars globals varCode flags value).2.2.sched.minPty =
      askedBy s globals varCode flags value := by
  unfold askedBy
  rcases SetSys.procSetSys_cases s.kernel s.vars globals varCode flags value with
    ⟨code, failed | failed⟩ | ⟨old, writable, reads, -, done⟩ | ⟨old, writes, -, -, -, done⟩
  · rw [failed]
    exact start
  · rw [failed]
    exact start
  · rw [done]
    dsimp only
    rw [if_neg (fun both => both.2 reads)]
    exact start
  · rw [done]
    dsimp only
    rw [assign_minPty]
    by_cases here : varCode = SetSys.varMinPty
    · rw [if_pos here, if_pos ⟨here, writes⟩]
    · rw [if_neg here, if_neg (fun both => here both.1)]
      exact start

/-- A call that picks nothing itself only selects a process of sufficient priority. -/
theorem selected_priority {k k' : Kernel} {call : Call} {p : Nat} (free : forces k call = false)
    (called : k.call call = some k') (selected : Selects k k' p (.call call)) :
    k.sched.minPty ≤ k'.desc.get8 p Desc.priority := by
  cases call with
  | tick dev sp mask =>
    obtain ⟨switched, same⟩ := selected
    have priority := rescheduled_priority (atTick k sp mask) dev (same ▸ switched)
    rw [← Option.some.inj called, same]
    exact priority
  | _ => exact absurd selected.1 (Bool.eq_false_iff.mp free)

theorem call_threshold {k k' : Kernel} {call : Call} (unforced : 0 < k.sched.minPty → forces k call = false)
    (called : k.call call = some k') : k'.sched.minPty = k.sched.minPty := by
  by_cases forced : forces k call = true
  · rw [call_forced forced called]
    by_contra positive
    rw [unforced (by omega)] at forced
    cases forced
  · exact call_kept (Bool.eq_false_iff.mpr forced) called

/-- Exactly the calls that pick while there is a threshold break it. -/
theorem upheld_iff {s s' : Governed} {entry : Entry} (start : s.kernel.sched.minPty = s.asked)
    (stepped : step s entry = some s') : Unforced s entry ↔ Upheld s entry := by
  cases entry with
  | setSys globals varCode flags value =>
    refine iff_of_true trivial (fun s'' stepped' => ?_)
    obtain rfl := Option.some.inj stepped'
    exact ⟨setSys_asked s globals varCode flags value start, fun _ p selected => selected.elim⟩
  | call call =>
    obtain ⟨k, called, rfl⟩ := Option.map_eq_some_iff.mp stepped
    constructor
    · intro unforced s'' stepped'
      obtain rfl := Option.some.inj (stepped.symm.trans stepped')
      refine ⟨(call_threshold unforced called).trans start, fun positive p selected => ?_⟩
      rw [← start] at positive ⊢
      exact selected_priority (unforced positive) called selected
    · intro upheld positive
      by_contra forced
      have kept : k.sched.minPty = s.asked := (upheld _ stepped).1
      have reset := call_forced (Bool.eq_true_of_not_eq_false forced) called
      omega

/-- In every run from a state whose threshold is the one last set: the threshold stays what F$SetSys set it to
and no process below it is selected at any step, if and only if no call makes a forced switch while there is one. -/
theorem minPty_upheld_iff (s s' : Governed) (start : s.kernel.sched.minPty = s.asked) (entries : List Entry)
    (ran : run step s entries = some s') :
    RunMeets step Upheld s entries ↔ RunMeets step Unforced s entries :=
  (runMeets_congr (fun _ _ _ start stepped unforced => (((upheld_iff start stepped).mp unforced) _ stepped).1)
    (fun _ _ _ start stepped => upheld_iff start stepped) start ran).symm

/-! ### A process of low priority behind a sleeper -/

/-- Two processes of priority 10 and 3, the second one ready. -/
def pair : Governed :=
  let h : Heap := fun _ _ => 0
  let h := (h.set8 0x10000 Desc.state stateActive).set8 0x10400 Desc.state stateActive
  let h := (h.set8 0x10000 Desc.priority 10).set8 0x10400 Desc.priority 3
  let h := (h.set32 sleepQ Desc.next sleepQ).set32 sleepQ Desc.prev sleepQ
  let h := (h.set32 readyQ Desc.next 0x10400).set32 readyQ Desc.prev 0x10400
  let h := (h.set32 0x10400 Desc.next readyQ).set32 0x10400 Desc.prev readyQ
  ⟨{ Kernel.zeroed 0x10000 2 with desc := h, proc := 0x10000 }, ⟨0, 0, 0⟩, 0⟩

def setFive : Entry := .setSys (fun _ => 0) SetSys.varMinPty 2 5

/-- Devices of a tick at which nothing happens. -/
def quiet : Devices := ⟨⟨0, 0, 0, 0, 0, 0⟩, false⟩

def sleepLong : Entry := .call (.sleep 0x8000 100)

theorem pair_sleeps : (run step pair [setFive, sleepLong]).map
    (fun s => (s.kernel.sched.minPty, s.asked, s.kernel.proc, s.kernel.desc.get8 s.kernel.proc Desc.priority)) =
      some (0, 5, 0x10400, 3) := by decide +kernel

/-- The threshold is 5, the first process sleeps, and the second one runs with priority 3. -/
theorem sleep_forgets_threshold : ¬ ∀ (s s' : Governed) (entries : List Entry), s.kernel.sched.minPty = s.asked →
    run step s entries = some s' → RunMeets step Upheld s entries := by
  intro claim
  obtain ⟨s', ran, is⟩ := Option.map_eq_some_iff.mp pair_sleeps
  simp only [Prod.mk.injEq] at is
  obtain ⟨minPty, asked, -⟩ := is
  have meets := claim pair s' _ rfl ran
  obtain ⟨mid, first, rest⟩ := run_cons ran
  obtain ⟨last, second, done⟩ := run_cons rest
  obtain rfl := Option.some.inj done
  have upheld := ((meets.2 mid first).1 last second).1
  rw [minPty, asked] at upheld
  cases upheld

theorem minPty_upheld_iff_pair : ∃ s', run step pair [setFive, .call (.tick quiet 0x8000 0)] = some s' ∧
    (RunMeets step Upheld pair [setFive, .call (.tick quiet 0x8000 0)] ↔
      RunMeets step Unforced pair [setFive, .call (.tick quiet 0x8000 0)]) :=
  ⟨_, rfl, minPty_upheld_iff pair _ rfl _ rfl⟩

end Threshold

end Q9OS

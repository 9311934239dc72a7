import Mathlib.Tactic
import Q9OS.Process.Alarms

/-!
# Where private fields share bytes

What one call stores in the private fields of a process, and for each field the
runs over which it is the variable it stands for.
-/

namespace Q9OS.Fields

open Heap

/-! ### What a call stores -/

/-- The store a call makes into the private fields of its caller. -/
inductive Store where
  | nothing
  | trap (n : Nat) (entry : TrapEntry) (size : Nat)
  | level (change : Nat → Nat)
  | range (lo hi : Nat)

namespace Store

def bytes (h : Heap) (p : Nat) : Store → Heap
  | .nothing => h
  | .trap n entry size => Kernel.setTrapEntry h p n entry.modPtr entry.execEntry entry.staticPtr size
  | .level change => h.set8 p Desc.sigLvl (change (h.get8 p Desc.sigLvl))
  | .range lo hi => (h.set32 p Desc.evMin lo).set32 p Desc.evMax hi

def vars (v : Vars) : Store → Vars
  | .nothing => v
  | .trap n entry _ => { v with trap := fun m => if m = n then entry else v.trap m }
  | .level change => { v with level := change v.level }
  | .range lo hi => { v with range := (lo, hi) }

/-- The values stored fit their fields. -/
def Fits : Store → Prop
  | .nothing => True
  | .trap n entry _ =>
    (1 ≤ n ∧ n ≤ 15) ∧ entry.modPtr < 4294967296 ∧ entry.execEntry < 4294967296 ∧ entry.staticPtr < 4294967296
  | .level change => ∀ x, x < 256 → change x < 256
  | .range lo hi => lo < 4294967296 ∧ hi < 4294967296

/-- The offsets a store covers. -/
def Spans (o : Nat) : Store → Prop
  | .nothing => False
  | .trap n _ _ =>
    (Desc.trapSlot n ≤ o ∧ o < Desc.trapSlot n + 12) ∨ (Desc.trapSizeSlot n ≤ o ∧ o < Desc.trapSizeSlot n + 4)
  | .level _ => o = Desc.sigLvl
  | .range _ _ => Desc.evMin ≤ o ∧ o < Desc.evMin + 8

/-- The calls of `p` a store can come from. -/
def From (s : State) (p : Nat) (event : Event) : Store → Prop
  | .nothing => True
  | .trap n _ _ => s.kernel.proc = p ∧ ∃ memOverride namePtr, event = .tlink n memOverride namePtr
  | .level change =>
    s.kernel.proc = p ∧
      ((∃ level, event = .sigMask level ∧ change = Kernel.maskLevel level) ∨
        ((∃ sp ticks, event = .sleep sp ticks) ∧ change = fun _ => 0))
  | .range lo hi =>
    s.kernel.proc = p ∧ (∃ id sp, event = .evWait id lo hi sp ∧ (s.kernel.eventWaitCheck id lo hi).1 = .ok none)

end Store

theorem setTrapEntry_outside (h : Heap) (p n modPtr execEntry staticPtr size c : Nat) {o : Nat}
    (entry : o < Desc.trapSlot n ∨ Desc.trapSlot n + 12 ≤ o)
    (sizes : o < Desc.trapSizeSlot n ∨ Desc.trapSizeSlot n + 4 ≤ o) :
    Kernel.setTrapEntry h p n modPtr execEntry staticPtr size c o = h c o := by
  unfold Kernel.setTrapEntry
  rw [set32_off _ _ _ _ sizes, set32_off _ _ _ _ (by unfold Desc.trapStaticPtr; omega),
    set32_off _ _ _ _ (by unfold Desc.trapExecEntry; omega), set32_off _ _ _ _ (by unfold Desc.trapModPtr; omega)]

theorem Store.bytes_outside (h : Heap) (p : Nat) {o : Nat} (w : Store) (outside : ¬ w.Spans o) (c : Nat) :
    w.bytes h p c o = h c o := by
  cases w with
  | nothing => rfl
  | trap n entry size =>
    simp only [Spans, not_or, not_and, not_lt] at outside
    apply setTrapEntry_outside <;> omega
  | level change => exact set8_off _ _ _ _ outside
  | range lo hi =>
    simp only [Spans, Desc.evMin, not_and, not_lt] at outside
    simp only [bytes, Desc.evMin, Desc.evMax]
    rw [set32_off _ _ _ _ (by omega), set32_off _ _ _ _ (by omega)]

theorem trapEntry_congr {h h' : Heap} {p n : Nat}
    (same : ∀ o, Desc.trapSlot n ≤ o → o < Desc.trapSlot n + 12 → h' p o = h p o) :
    trapEntry h' p n = trapEntry h p n := by
  have word : ∀ d, d + 4 ≤ 12 → h'.get32 p (Desc.trapSlot n + d) = h.get32 p (Desc.trapSlot n + d) :=
    fun d inside => Mem.getU32_congr (fun x low high => same x (by omega) (by omega))
  unfold trapEntry
  rw [word _ (by decide), word _ (by decide), word _ (by decide)]

theorem trapEntry_setTrapEntry (h : Heap) (p : Nat) {n : Nat} {entry : TrapEntry} (size : Nat)
    (fits : (Store.trap n entry size).Fits) :
    trapEntry (Kernel.setTrapEntry h p n entry.modPtr entry.execEntry entry.staticPtr size) p n = entry := by
  obtain ⟨inside, modFits, execFits, staticFits⟩ := fits
  have apart : ∀ d, d + 4 ≤ 12 → Desc.trapSizeSlot n + 4 ≤ Desc.trapSlot n + d ∨
      Desc.trapSlot n + d + 4 ≤ Desc.trapSizeSlot n := by
    intro d inside
    unfold Desc.trapSizeSlot Desc.trapSlot Desc.trapSize Desc.trapTbl
    omega
  unfold trapEntry Kernel.setTrapEntry
  dsimp only
  rw [get32_set32_off _ _ _ _ (apart _ (by decide)), get32_set32_off _ _ _ _ (apart _ (by decide)),
    get32_set32_off _ _ _ _ (apart _ (by decide)),
    get32_set32_off (o := Desc.trapSlot n + Desc.trapStaticPtr) (p := Desc.trapSlot n + Desc.trapModPtr) _ _ _ _
      (by unfold Desc.trapModPtr Desc.trapStaticPtr; omega),
    get32_set32_off (o := Desc.trapSlot n + Desc.trapExecEntry) (p := Desc.trapSlot n + Desc.trapModPtr) _ _ _ _
      (by unfold Desc.trapModPtr Desc.trapExecEntry; omega),
    get32_set32_off (o := Desc.trapSlot n + Desc.trapStaticPtr) (p := Desc.trapSlot n + Desc.trapExecEntry) _ _ _ _
      (by unfold Desc.trapExecEntry Desc.trapStaticPtr; omega),
    get32_set32_of_lt _ _ _ modFits, get32_set32_of_lt _ _ _ execFits, get32_set32_of_lt _ _ _ staticFits]

/-! ### F$TLink -/

theorem allocWalk_lt (m : Mem) (needed fuel prev : Nat) {cur : Nat} (fits : cur < 4294967296) :
    (Arena.allocWalk m needed fuel prev cur).1 < 4294967296 := by
  induction fuel generalizing prev cur with
  | zero => exact Nat.zero_lt_succ _
  | succ fuel ih =>
    rw [Arena.allocWalk]
    split_ifs
    · exact Nat.zero_lt_succ _
    · exact fits
    · exact ih _ (m.getU32_lt _)

theorem largestWalk_lt (m : Mem) (fuel prev : Nat) {cur : Nat} {best : Arena.Best} (fits : cur < 4294967296)
    (bestFits : best.addr < 4294967296) : (Arena.largestWalk m fuel prev cur best).addr < 4294967296 := by
  induction fuel generalizing prev cur best with
  | zero => exact bestFits
  | succ fuel ih =>
    rw [Arena.largestWalk]
    split_ifs
    · exact bestFits
    · apply ih _ (m.getU32_lt _)
      split_ifs
      · exact fits
      · exact bestFits

theorem allocLargest_lt {m m' : Mem} {addr size : Nat} (took : Arena.allocLargest m = (addr, size, m')) :
    addr < 4294967296 := by
  have fits := @largestWalk_lt m Arena.walkLimit 0 _ {} (m.getU32_lt Arena.arenaHead) (Nat.zero_lt_succ _)
  rw [Arena.allocLargest] at took
  generalize Arena.largestWalk m Arena.walkLimit 0 (m.getU32 Arena.arenaHead) {} = best at fits took
  dsimp only at took
  split_ifs at took <;> exact (Prod.mk.inj took).1 ▸ fits

theorem sysProcSRqMem_lt {m m' : Mem} {size addr granted : Nat}
    (ran : SysMem.procSRqMem m size = (.ok (addr, granted), m')) : addr < 4294967296 := by
  rw [SysMem.procSRqMem] at ran
  extract_lets rounded at ran
  generalize SysMem.procMemTrackEnsure m = ensured at ran
  clear_value rounded
  split at ran
  · cases took : Arena.allocLargest ensured with
    | mk place rest =>
      have fits := allocLargest_lt took
      rw [took] at ran
      dsimp only at ran
      split_ifs at ran
      · cases ran
      · cases ran
        exact fits
  · cases took : Arena.allocMem ensured size with
    | mk place after =>
      have fits : place < 4294967296 := by
        have walked := allocWalk_lt ensured (Arena.roundUp16 size) Arena.walkLimit 0 (ensured.getU32_lt Arena.arenaHead)
        rw [Arena.allocMem] at took
        rw [took] at walked
        exact walked
      rw [took] at ran
      dsimp only at ran
      split_ifs at ran
      · cases ran
      · cases ran
        exact fits

/-- Static memory comes from the arena: descriptors, history and running process stay. -/
structure SameProc (k k' : Kernel) : Prop where
  desc : k'.desc = k.desc
  marks : k'.marks = k.marks
  proc : k'.proc = k.proc

theorem tlinkStatic_same (k : Kernel) (hdr size : Nat) : SameProc k (k.tlinkStatic hdr size).2 :=
  ⟨Kernel.tlinkStatic_keeps ⟨fun _ _ => rfl, fun _ _ => rfl⟩ k hdr size,
    Kernel.tlinkStatic_keeps ⟨fun _ _ => rfl, fun _ _ => rfl⟩ k hdr size,
    Kernel.tlinkStatic_keeps ⟨fun _ _ => rfl, fun _ _ => rfl⟩ k hdr size⟩

theorem staticAnswer_lt {load : Mem → Nat → Nat → Nat → Bool × Mem} {k' : Kernel} {hdr staticPtr granted : Nat}
    {answer : Except Nat (Nat × Nat) × Kernel} (fits : ∀ addr given, answer.1 = .ok (addr, given) → addr < 4294967296)
    (ran : Kernel.staticAnswer load hdr answer = (.ok (staticPtr, granted), k')) : staticPtr < 4294967296 := by
  obtain ⟨result, k⟩ := answer
  cases result with
  | error code => cases ran
  | ok block =>
    obtain ⟨addr, given⟩ := block
    have small := fits addr given rfl
    unfold Kernel.staticAnswer at ran
    dsimp only at ran
    generalize load (zeroFill k.ram addr given) hdr addr given = loaded at ran
    obtain ⟨valid, ram⟩ := loaded
    cases valid with
    | false => cases ran
    | true =>
      cases ran
      exact small

theorem tlinkStatic_lt {k k' : Kernel} {hdr size staticPtr granted : Nat}
    (ran : k.tlinkStatic hdr size = (.ok (staticPtr, granted), k')) : staticPtr < 4294967296 := by
  by_cases empty : size = 0
  · have nothing : k.tlinkStatic hdr size = (.ok (0, 0), k) := if_pos empty
    rw [nothing] at ran
    cases ran
    exact Nat.zero_lt_succ _
  · rw [Kernel.tlinkStatic_answer empty] at ran
    refine staticAnswer_lt (fun addr given served => ?_) ran
    cases request : SysMem.procSRqMem k.ramForProc size with
    | mk answer ram =>
      unfold Kernel.procSRqMem at served
      rw [request] at served
      rw [show answer = .ok (addr, given) from served] at request
      exact sysProcSRqMem_lt request

theorem modLink_same (k : Kernel) (desired name : Nat) : SameProc k (k.modLink desired name).2 :=
  ⟨rfl, rfl, rfl⟩

theorem modLink_lt (k : Kernel) (desired name : Nat) : (k.modLink desired name).1 < 4294967296 := by
  unfold Kernel.modLink ModDir.linkByName
  dsimp only
  split_ifs
  · exact Nat.zero_lt_succ _
  · exact get32_lt _ _ _

/-- What F$TLink with a name stores. -/
theorem tlinkInstall_cases (k : Kernel) {n namePtr : Nat} (memOverride : Nat) (inside : 1 ≤ n ∧ n ≤ 15) (named : namePtr ≠ 0) :
    (∃ code k', k.tlinkInstall n memOverride namePtr = (.error code, k') ∧ SameProc k k') ∨
      ∃ link size k', k.tlinkInstall n memOverride namePtr = (.ok link, k') ∧
        (Store.trap n (linkedEntry namePtr link) size).Fits ∧ k'.marks = k.marks ∧
        k'.desc = (Store.trap n (linkedEntry namePtr link) size).bytes k.desc k.proc := by
  by_cases busy : k.desc.get32 k.proc (Desc.trapSlot n + Desc.trapModPtr) ≠ 0
  · refine .inl ⟨eModBsy, k, ?_, rfl, rfl, rfl⟩
    rw [Kernel.tlinkInstall, if_pos busy]
  · rw [Kernel.tlinkInstall_answer (not_not.mp busy)]
    have linked := modLink_same k 0 namePtr
    have hdrFits := modLink_lt k 0 namePtr
    cases found : k.modLink 0 namePtr with
    | mk hdr k₁ =>
      rw [found] at linked hdrFits
      have static := tlinkStatic_same k₁ hdr ((k₁.ram.getU32 (hdr + Mh.mem) + memOverride) % 4294967296)
      rcases Kernel.installAnswer_cases Kernel.tlinkStatic n memOverride (nulEnd k.ram queueLimit namePtr + 1) hdr k₁ with
        missing | ⟨code, k₂, given, answer⟩ | ⟨staticPtr, granted, k₂, given, answer⟩
      · exact .inl ⟨_, _, missing, linked⟩
      · rw [given] at static
        exact .inl ⟨_, _, answer, static.desc.trans linked.desc, static.marks.trans linked.marks,
          static.proc.trans linked.proc⟩
      · rw [given] at static
        have desc : k₂.desc = k.desc := static.desc.trans linked.desc
        have proc : k₂.proc = k.proc := static.proc.trans linked.proc
        have fits := tlinkStatic_lt given
        refine .inr ⟨_, if staticPtr ≠ 0 then granted else 0, _, answer, ?_, static.marks.trans linked.marks, ?_⟩
        · rw [linkedEntry, if_neg named]
          exact ⟨inside, hdrFits, Nat.mod_lt _ (by decide), fits⟩
        · rw [linkedEntry, if_neg named, ← desc, ← proc]
          rfl

/-- A refused F$TLink leaves the descriptors, a successful one stores one entry of its caller. -/
theorem procTLink_cases (k : Kernel) (n memOverride namePtr : Nat) :
    (∃ code k', k.procTLink n memOverride namePtr = (.error code, k') ∧ SameProc k k') ∨
      ∃ link size k', k.procTLink n memOverride namePtr = (.ok link, k') ∧
        (Store.trap n (linkedEntry namePtr link) size).Fits ∧ k'.marks = k.marks ∧
        k'.desc = (Store.trap n (linkedEntry namePtr link) size).bytes k.desc k.proc := by
  rw [Kernel.procTLink]
  split_ifs with number nameless
  · exact Or.inl ⟨_, _, rfl, rfl, rfl, rfl⟩
  · right
    refine ⟨_, 0, _, rfl, ?_, ?_, ?_⟩
    · rw [linkedEntry, if_pos nameless]
      exact ⟨by omega, by decide, by decide, by decide⟩
    · rw [Kernel.tlinkRemove]
      split_ifs <;> rfl
    · rw [linkedEntry, if_pos nameless, Kernel.tlinkRemove]
      split_ifs <;> rfl
  · exact tlinkInstall_cases k memOverride (by omega) nameless

/-! ### F$RTE, F$SigMask and F$Sleep -/

variable {p : Nat}

theorem icptPop_calm (k : Kernel) (c : Nat) : Calm p k (k.icptPop c).2 := by
  unfold Kernel.icptPop
  dsimp only
  split_ifs with null empty
  · exact Calm.rfl
  · exact Calm.rfl
  · constructor
    · intro o here apart
      dsimp only
      rw [set32_off _ _ _ _ (by unfold Private DepthOff Desc.icptDepth at *; omega),
        set32_off _ _ _ _ (by unfold Private Desc.savedSp at *; omega)]
    · dsimp only
      rw [get32_set32_off _ _ _ _ (by decide), get32_set32_off _ _ _ _ (by decide)]
    · intro ok
      unfold DepthOk at *
      dsimp only [outstanding]
      by_cases same : c = p
      · subst same
        rw [get32_set32, if_pos rfl]
        omega
      · rw [get32_set32_block _ _ _ _ (Ne.symm same), get32_set32_block _ _ _ _ (Ne.symm same), if_neg same]
        exact ok

theorem icptPop_still (k : Kernel) {c : Nat} (spared : c ≠ p ∨ k.desc.get32 c Desc.icptDepth = 0) :
    Still p k (k.icptPop c).2 := by
  unfold Kernel.icptPop
  dsimp only
  split_ifs with null empty
  · exact Still.rfl
  · exact Still.rfl
  · have other : p ≠ c := Ne.symm (spared.resolve_right empty)
    constructor
    · intro o here
      dsimp only
      rw [set32_block _ _ _ other, set32_block _ _ _ other]
    · dsimp only
      rw [get32_set32_off _ _ _ _ (by decide), get32_set32_off _ _ _ _ (by decide)]
    · dsimp only [outstanding]
      rw [if_neg (Ne.symm other)]
      rfl

theorem icptReturn_calm (k : Kernel) (c : Nat) : Calm p k (k.icptReturn c).2 := by
  have popped := icptPop_calm (p := p) k c
  unfold Kernel.icptReturn
  cases result : k.icptPop c with
  | mk answer k' =>
    rw [result] at popped
    cases answer with
    | error code => exact popped
    | ok _ =>
      dsimp only
      split
      · exact Calm.trans popped (icptDeliver_calm k' _ _ _)
      · exact popped

theorem icptReturn_still (k : Kernel) {c : Nat} (spared : c ≠ p ∨ k.desc.get32 c Desc.icptDepth = 0) :
    Still p k (k.icptReturn c).2 := by
  have popped := icptPop_still k spared
  unfold Kernel.icptReturn
  cases result : k.icptPop c with
  | mk answer k' =>
    rw [result] at popped
    cases answer with
    | error code => exact popped
    | ok _ =>
      have other : c ≠ p := by
        apply spared.resolve_right
        intro none
        simp [Kernel.icptPop, none] at result
      dsimp only
      split
      · exact Still.trans popped (icptDeliver_still k' _ (Or.inl other))
      · exact popped

/-- The level of the running process after a change. -/
def setLevel (k : Kernel) (change : Nat → Nat) : Kernel :=
  { k with desc := (Store.level change).bytes k.desc k.proc }

theorem procSigMask_still (k : Kernel) (level : Nat) (running : k.proc ≠ 0) :
    Still p (setLevel k (Kernel.maskLevel level)) (k.procSigMask level).2 := by
  unfold Kernel.procSigMask
  rw [if_neg running]
  dsimp only
  split
  · exact Still.of_agree (watched_wake (schedWake_agree _ _)) rfl
  · exact Still.of_same rfl rfl

theorem setLevel_saveSp (k : Kernel) (change : Nat → Nat) (sp : Nat) :
    Still p (setLevel k change) (setLevel (k.saveSp sp) change) := by
  have same : (k.desc.set32 k.proc Desc.savedSp sp).get8 k.proc Desc.sigLvl = k.desc.get8 k.proc Desc.sigLvl :=
    get8_set32_off _ _ _ _ (by decide)
  refine Still.of_agree ?_ rfl
  unfold setLevel Store.bytes Kernel.saveSp
  dsimp only
  rw [same]
  exact (watched_savedSp _ _ _).both8 _ _ _

theorem sleepInsert_still (k : Kernel) (ram : Mem) (desc : Nat) :
    Still p k { k with ram := ram, desc := schedInsert k.desc desc } :=
  Still.of_agree (watched_queue (schedInsert_agree _ _)) rfl

theorem sleepPark_still (k : Kernel) (ram : Mem) (desc ticks : Nat) :
    Still p k { k with ram := ram, desc := Kernel.sleepPark k.desc desc ticks } :=
  Still.of_agree (watched_wake (sleepPark_agree _ _ _)) rfl

/-- F$Sleep opens the mask of its caller; a pending signal may push a frame. -/
theorem procSleep_calm (k : Kernel) (sp ticks : Nat) :
    Calm p (setLevel k (fun _ => 0)) ((k.saveSp sp).procSleep k.proc ticks).2 := by
  refine (setLevel_saveSp k _ sp).calm.trans ?_
  unfold Kernel.procSleep
  dsimp only
  split
  · exact ((sleepInsert_still (setLevel (k.saveSp sp) _) _ _).calm.trans (icptDeliver_calm _ _ _ _)).trans
      (schedFirstPick_still _).calm
  · exact ((sleepPark_still (setLevel (k.saveSp sp) _) _ _ _).trans (schedFirstPick_still _)).calm

theorem procSleep_still (k : Kernel) (sp ticks : Nat)
    (spared : k.proc ≠ p ∨ k.desc.get32 p Desc.sigVec = 0 ∨ k.desc.get16 p Desc.signal = 0) :
    Still p (setLevel k (fun _ => 0)) ((k.saveSp sp).procSleep k.proc ticks).2 := by
  have opened := setLevel_saveSp (p := p) k (fun _ => 0) sp
  refine opened.trans ?_
  unfold Kernel.procSleep
  dsimp only
  split
  · next pending =>
    have inserted := sleepInsert_still (p := p) (setLevel (k.saveSp sp) (fun _ => 0))
      (setFrameReg (k.saveSp sp).ram ((k.saveSp sp).desc.get32 k.proc Desc.savedSp) 0 0) k.proc
    refine (inserted.trans (icptDeliver_still _ _ ?_)).trans (schedFirstPick_still _)
    rcases spared with other | none | empty
    · exact Or.inl other
    · right
      rw [inserted.vector, opened.vector]
      unfold setLevel Store.bytes
      dsimp only
      rw [get32_set8_off _ _ _ _ (by decide), none]
    · left
      rintro rfl
      apply pending
      rw [get16_set8_off _ _ _ _ (by decide)]
      unfold Kernel.saveSp
      dsimp only
      rw [get16_set32_off _ _ _ _ (by decide), empty]
  · exact (sleepPark_still (setLevel (k.saveSp sp) _) _ _ _).trans (schedFirstPick_still _)

/-! ### Ticks -/

open Alarms (sendAll timed tickMessages alarmTick_sendAll)

theorem sendAll_calm (messages : List (Nat × Nat)) (k : Kernel) : Calm p k (sendAll k messages) := by
  induction messages generalizing k with
  | nil => exact Calm.rfl
  | cons message rest ih => exact (procSend_calm k message.1 message.2).trans (ih _)

theorem sendAll_still {messages : List (Nat × Nat)} {k : Kernel}
    (harmless : ∀ message ∈ messages, Harmless k p message.1 message.2) : Still p k (sendAll k messages) := by
  induction messages generalizing k with
  | nil => exact Still.rfl
  | cons message rest ih =>
    have still := procSend_still k (harmless message List.mem_cons_self)
    refine still.trans (ih (fun later member => ?_))
    obtain ⟨ram, desc, marks, sent⟩ := procSend_rest k message.1 message.2
    have running : (k.procSend message.1 message.2).2.proc = k.proc := by rw [sent]
    have base : (k.procSend message.1 message.2).2.poolBase = k.poolBase := by rw [sent]
    unfold Harmless Kernel.slotAddr
    rw [base]
    exact (harmless later (List.mem_cons_of_mem _ member)).later still running

/-- A tick pushes no frame below that of `p`: nothing it sends does. -/
def TickSpared (k : Kernel) (dev : Devices) (p : Nat) : Prop :=
  ∀ message ∈ tickMessages k dev, Harmless k p message.1 message.2

theorem timed_still (k : Kernel) (alarms : AlarmTable) (clock : Clock) : Still p k (timed k alarms clock) :=
  Still.of_same rfl rfl

theorem alarmTick_calm (k : Kernel) (dev : Devices) : Calm p k (k.alarmTick dev) := by
  obtain ⟨alarms, clock, sent⟩ := alarmTick_sendAll k dev
  rw [sent]
  exact (sendAll_calm _ k).trans (timed_still _ _ _).calm

theorem alarmTick_still {k : Kernel} {dev : Devices} (spared : TickSpared k dev p) : Still p k (k.alarmTick dev) := by
  obtain ⟨alarms, clock, sent⟩ := alarmTick_sendAll k dev
  rw [sent]
  exact (sendAll_still spared).trans (timed_still _ _ _)

theorem timerTick_calm (k : Kernel) (dev : Devices) (sp mask : Nat) : Calm p k (k.timerTick dev sp mask) := by
  have accounts : ∀ j : Kernel, Calm p j (j.tickAccounts dev) := fun j =>
    ((queues_still j).calm.trans (alarmTick_calm _ dev)).trans (clockTick_still _).calm
  exact ((tickEntry_still k sp mask).calm.trans (accounts _)).trans (sliceEnd_still _).calm

theorem timerTick_still {k : Kernel} {dev : Devices} (sp mask : Nat) (spared : TickSpared k dev p) :
    Still p k (k.timerTick dev sp mask) := by
  have entered := tickEntry_still (p := p) k sp mask
  have accounts : ∀ j : Kernel, TickSpared j dev p → Still p j (j.tickAccounts dev) := by
    intro j spared
    have queues := queues_still (p := p) j
    have later : TickSpared { j with desc := sleepQDecrementAll (schedAgeAll j.desc j.sched.maxAge) } dev p :=
      fun message member => (spared message member).later queues rfl
    exact (queues.trans (alarmTick_still later)).trans (clockTick_still _)
  refine (entered.trans (accounts _ ?_)).trans (sliceEnd_still _)
  exact fun message member => (spared message member).later entered rfl

/-! ### One step -/

/-- What the step sends pushes no intercept frame for `p`, F$RTE of `p` finds none to take back, and `p` neither sleeps
with a signal pending for its routine nor blocks in Ev$Wait. -/
def Quiet (p : Nat) (s : State) : Event → Prop
  | .send pid signal => Harmless s.kernel p pid signal
  | .rte => s.kernel.proc ≠ p ∨ s.kernel.desc.get32 p Desc.icptDepth = 0
  | .sleep _ _ =>
    s.kernel.proc ≠ p ∨ s.kernel.desc.get32 p Desc.sigVec = 0 ∨ s.kernel.desc.get16 p Desc.signal = 0
  | .evWait id lo hi _ => s.kernel.proc ≠ p ∨ (s.kernel.eventWaitCheck id lo hi).1 ≠ .ok none
  | .tick dev _ _ => TickSpared s.kernel dev p
  | _ => True

/-- A step makes one store into the private fields of `p`; besides it only the intercept
depth moves, and that only when the step is not quiet. -/
structure Stepped (p : Nat) (s : State) (event : Event) (s' : State) (w : Store) : Prop where
  fits : w.Fits
  source : w.From s p event
  vars : s'.vars p = w.vars (s.vars p)
  bytes : ∀ o, Private o → ¬ DepthOff o → s'.kernel.desc p o = w.bytes s.kernel.desc p p o
  depth : DepthOk { s.kernel with desc := w.bytes s.kernel.desc p } p → DepthOk s'.kernel p
  quiet : Quiet p s event → ∀ o, Private o → s'.kernel.desc p o = w.bytes s.kernel.desc p p o

namespace Stepped

variable {s s' : State} {event : Event} {w : Store}

theorem of_calm (fits : w.Fits) (source : w.From s p event) (vars : s'.vars p = w.vars (s.vars p))
    (calm : Calm p { s.kernel with desc := w.bytes s.kernel.desc p } s'.kernel)
    (still : Quiet p s event → Still p { s.kernel with desc := w.bytes s.kernel.desc p } s'.kernel) :
    Stepped p s event s' w :=
  ⟨fits, source, vars, calm.bytes, calm.depth, fun quiet => (still quiet).bytes⟩

theorem of_still (fits : w.Fits) (source : w.From s p event) (vars : s'.vars p = w.vars (s.vars p))
    (still : Still p { s.kernel with desc := w.bytes s.kernel.desc p } s'.kernel) : Stepped p s event s' w :=
  of_calm fits source vars still.calm (fun _ => still)

/-- A step that stores nothing of its own. -/
theorem nothing (vars : s'.vars p = s.vars p) (calm : Calm p s.kernel s'.kernel)
    (still : Quiet p s event → Still p s.kernel s'.kernel) : Stepped p s event s' .nothing :=
  of_calm trivial trivial vars calm still

end Stepped

theorem setVars_other (s : State) {c : Nat} (v : Vars) (other : p ≠ c) : s.setVars c v p = s.vars p := if_neg other

theorem setVars_self (s : State) (v : Vars) : s.setVars p v p = v := if_pos rfl

theorem maskLevel_lt (level : Nat) {x : Nat} (fits : x < 256) : Kernel.maskLevel level x < 256 := by
  unfold Kernel.maskLevel
  split_ifs <;> omega

theorem Store.bytes_block (h : Heap) {c : Nat} (w : Store) (other : p ≠ c) : w.bytes h c p = h p := by
  cases w with
  | nothing => rfl
  | trap n entry size =>
    simp only [bytes, Kernel.setTrapEntry]
    rw [set32_block _ _ _ other, set32_block _ _ _ other, set32_block _ _ _ other, set32_block _ _ _ other]
  | level change => exact set8_block _ _ _ other
  | range lo hi =>
    simp only [bytes]
    rw [set32_block _ _ _ other, set32_block _ _ _ other]

/-- A store into another process. -/
theorem Store.still_block (k : Kernel) {c : Nat} (w : Store) (other : p ≠ c) :
    Still p k { k with desc := w.bytes k.desc c } where
  bytes o _ := congrFun (w.bytes_block k.desc other) o
  vector := by
    show ((w.bytes k.desc c) p).getU32 _ = _
    rw [w.bytes_block k.desc other]
    rfl
  count := rfl

theorem step_tlink {s s' : State} {n memOverride namePtr : Nat}
    (stepped : step s (.tlink n memOverride namePtr) = some s') :
    ∃ w, Stepped p s (.tlink n memOverride namePtr) s' w := by
  unfold step at stepped
  dsimp only at stepped
  rcases procTLink_cases s.kernel n memOverride namePtr with
    ⟨code, k', ran, same⟩ | ⟨link, size, k', ran, fits, marks, desc⟩
  · rw [ran] at stepped
    cases stepped
    have still : Still p s.kernel k' := Still.of_same same.desc same.marks
    refine ⟨.nothing, Stepped.nothing ?_ still.calm (fun _ => still)⟩
    show s.setVars s.kernel.proc (s.vars s.kernel.proc) p = s.vars p
    by_cases own : p = s.kernel.proc
    · rw [← own, setVars_self]
    · rw [setVars_other s _ own]
  · rw [ran] at stepped
    cases stepped
    have still : Still p { s.kernel with
        desc := (Store.trap n (linkedEntry namePtr link) size).bytes s.kernel.desc s.kernel.proc } k' :=
      Still.of_same desc marks
    by_cases own : p = s.kernel.proc
    · subst own
      refine ⟨.trap n (linkedEntry namePtr link) size, Stepped.of_still fits ⟨rfl, _, _, rfl⟩ ?_ still⟩
      exact setVars_self s _
    · refine ⟨.nothing, Stepped.of_still trivial trivial (setVars_other s _ own) ?_⟩
      exact (Store.still_block s.kernel _ own).trans still

theorem step_sigMask (live : p ≠ 0) {s s' : State} {level : Nat} (stepped : step s (.sigMask level) = some s') :
    ∃ w, Stepped p s (.sigMask level) s' w := by
  cases stepped
  by_cases own : p = s.kernel.proc
  · subst own
    refine ⟨.level (Kernel.maskLevel level), Stepped.of_still ?_ ?_ (setVars_self s _) ?_⟩
    · exact fun x fits => maskLevel_lt level fits
    · exact ⟨rfl, Or.inl ⟨level, rfl, rfl⟩⟩
    · exact procSigMask_still s.kernel level live
  · refine ⟨.nothing, Stepped.of_still trivial trivial (setVars_other s _ own) ?_⟩
    by_cases running : s.kernel.proc = 0
    · have refused : (s.kernel.procSigMask level).2 = s.kernel := by simp [Kernel.procSigMask, running]
      show Still p s.kernel (s.kernel.procSigMask level).2
      rw [refused]
      exact Still.rfl
    · exact (Store.still_block s.kernel _ own).trans (procSigMask_still s.kernel level running)

theorem sysSleep_still {k k' : Kernel} {sp ticks : Nat} (ran : (k.sysSleep sp ticks).alive = some k') :
    Still p ((k.saveSp sp).procSleep k.proc ticks).2 k' := by
  unfold Kernel.alive at ran
  split at ran
  · cases ran
  · cases ran
    exact switchTo_still _

theorem step_sleep {s s' : State} {sp ticks : Nat} (stepped : step s (.sleep sp ticks) = some s') :
    ∃ w, Stepped p s (.sleep sp ticks) s' w := by
  obtain ⟨k', ran, rfl⟩ := Option.map_eq_some_iff.mp stepped
  have switched := sysSleep_still (p := p) ran
  by_cases own : p = s.kernel.proc
  · subst own
    refine ⟨.level (fun _ => 0), Stepped.of_calm ?_ ?_ (setVars_self s _) ?_ ?_⟩
    · exact fun x _ => Nat.zero_lt_succ _
    · exact ⟨rfl, Or.inr ⟨⟨sp, ticks, rfl⟩, rfl⟩⟩
    · exact (procSleep_calm s.kernel sp ticks).trans switched.calm
    · exact fun quiet => (procSleep_still s.kernel sp ticks quiet).trans switched
  · have stored := Store.still_block s.kernel (.level (fun _ => 0)) own
    refine ⟨.nothing, Stepped.of_still trivial trivial (setVars_other s _ own) ?_⟩
    exact (stored.trans (procSleep_still s.kernel sp ticks (Or.inl (Ne.symm own)))).trans switched

theorem step_evWait {s s' : State} {id lo hi sp : Nat} (stepped : step s (.evWait id lo hi sp) = some s') :
    ∃ w, Stepped p s (.evWait id lo hi sp) s' w := by
  unfold step at stepped
  dsimp only at stepped
  split at stepped
  · next fits =>
    cases ran : s.kernel.sysEventWait id lo hi sp with
    | none => simp [ran] at stepped
    | some k =>
      rw [ran] at stepped
      dsimp only at stepped
      rcases sysEventWait_still (p := p) ran with ⟨block, still⟩ | ⟨passed, still⟩
      · rw [block] at stepped
        cases stepped
        by_cases own : p = s.kernel.proc
        · subst own
          refine ⟨.range lo hi, Stepped.of_still fits ⟨rfl, id, sp, rfl, block⟩ (setVars_self s _) still⟩
        · refine ⟨.nothing, Stepped.of_still trivial trivial (setVars_other s _ own) ?_⟩
          exact (Store.still_block s.kernel (.range lo hi) own).trans still
      · split at stepped
        · next block => exact absurd block passed
        · cases stepped
          exact ⟨.nothing, Stepped.nothing rfl still.calm (fun _ => still)⟩
  · cases stepped

theorem procIcpt_bytes (k : Kernel) (vector dataPtr : Nat) {o : Nat} (here : Private o) :
    (k.procIcpt vector dataPtr).desc p o = k.desc p o := by
  unfold Kernel.procIcpt
  split
  · rfl
  · dsimp only
    rw [set32_off _ _ _ _ (by unfold Private Desc.sigDat at *; omega),
      set32_off _ _ _ _ (by unfold Private Desc.sigVec at *; omega)]

theorem procIcpt_marks (k : Kernel) (vector dataPtr : Nat) : (k.procIcpt vector dataPtr).marks = k.marks := by
  unfold Kernel.procIcpt
  split <;> rfl

theorem step_icpt {s s' : State} {vector dataPtr : Nat} (stepped : step s (.icpt vector dataPtr) = some s') :
    ∃ w, Stepped p s (.icpt vector dataPtr) s' w := by
  cases stepped
  refine ⟨.nothing, trivial, trivial, rfl, ?_, ?_, ?_⟩
  · exact fun o here _ => procIcpt_bytes s.kernel vector dataPtr here
  · intro ok
    have same : (s.kernel.procIcpt vector dataPtr).desc.get32 p Desc.icptDepth =
        s.kernel.desc.get32 p Desc.icptDepth :=
      Mem.getU32_congr (fun x low high => procIcpt_bytes _ _ _ (by unfold Private Desc.icptDepth at *; omega))
    unfold DepthOk at *
    rw [same, procIcpt_marks]
    exact ok
  · exact fun _ o here => procIcpt_bytes s.kernel vector dataPtr here

theorem step_store (live : p ≠ 0) {s s' : State} {event : Event} (stepped : step s event = some s') :
    ∃ w, Stepped p s event s' w := by
  cases event with
  | tlink n memOverride namePtr => exact step_tlink stepped
  | icpt vector dataPtr => exact step_icpt stepped
  | send pid signal =>
    cases stepped
    exact ⟨.nothing, .nothing rfl (procSend_calm _ _ _) (fun quiet => procSend_still _ quiet)⟩
  | rte =>
    cases stepped
    refine ⟨.nothing, .nothing rfl (icptReturn_calm _ _) (fun quiet => icptReturn_still _ ?_)⟩
    by_cases own : s.kernel.proc = p
    · rw [own]
      exact Or.inr (quiet.resolve_left (fun other => other own))
    · exact Or.inl own
  | sigMask level => exact step_sigMask live stepped
  | sleep sp ticks => exact step_sleep stepped
  | evWait id lo hi sp => exact step_evWait stepped
  | evSignal id wakeAll =>
    cases stepped
    have still := eventSignal_still (p := p) s.kernel id wakeAll
    exact ⟨.nothing, .nothing rfl still.calm (fun _ => still)⟩
  | evSet id value wakeAll =>
    cases stepped
    have still := eventSignalCommon_still (p := p) s.kernel id value false wakeAll
    exact ⟨.nothing, .nothing rfl still.calm (fun _ => still)⟩
  | evSetRelative id delta wakeAll =>
    cases stepped
    have still := eventSetRelative_still (p := p) s.kernel id delta wakeAll
    exact ⟨.nothing, .nothing rfl still.calm (fun _ => still)⟩
  | evPulse id value wakeAll =>
    cases stepped
    have still := eventSignalCommon_still (p := p) s.kernel id value true wakeAll
    exact ⟨.nothing, .nothing rfl still.calm (fun _ => still)⟩
  | tick dev sp mask =>
    have calm := timerTick_calm (p := p) s.kernel dev sp mask
    have still := @timerTick_still p s.kernel dev sp mask
    simp only [step, Option.some.injEq] at stepped
    generalize s.kernel.timerTick dev sp mask = k' at *
    subst stepped
    exact ⟨.nothing, .nothing rfl calm still⟩

/-! ### Runs -/

variable {s s' : State} {event : Event} {w : Store}

/-- F$TLink on trap `n` by `p`. -/
def Links (p n : Nat) (s : State) : Event → Prop
  | .tlink m _ _ => s.kernel.proc = p ∧ m = n
  | _ => False

/-- A call by `p` that changes its mask level. -/
def Masks (p : Nat) (s : State) : Event → Prop
  | .sigMask level =>
    s.kernel.proc = p ∧
      Kernel.maskLevel level (s.kernel.desc.get8 p Desc.sigLvl) ≠ s.kernel.desc.get8 p Desc.sigLvl
  | .sleep _ _ => s.kernel.proc = p ∧ s.kernel.desc.get8 p Desc.sigLvl ≠ 0
  | _ => False

/-- An entry stored by F$TLink covers no byte of the entry of a trap the call is not on. -/
theorem Stepped.trap_apart {m size n o : Nat} {entry : TrapEntry}
    (stepped : Stepped p s event s' (.trap m entry size)) (number : 1 ≤ n ∧ n ≤ 15)
    (unlinked : ¬ Links p n s event) (here : Desc.trapSlot n ≤ o ∧ o < Desc.trapSlot n + 12) :
    ¬ (Store.trap m entry size).Spans o := by
  obtain ⟨own, memOverride, namePtr, rfl⟩ := stepped.source
  have other : m ≠ n := fun same => unlinked ⟨own, same⟩
  have inside : 1 ≤ m ∧ m ≤ 15 := stepped.fits.1
  unfold Store.Spans Desc.trapSizeSlot Desc.trapSlot Desc.trapSize Desc.trapTbl at *
  dsimp only
  omega

theorem keeps_depth (stepped : Stepped p s event s' w) (unlinked : ¬ Links p 1 s event)
    (ok : DepthOk s.kernel p) : DepthOk s'.kernel p := by
  apply stepped.depth
  have same : (w.bytes s.kernel.desc p).get32 p Desc.icptDepth = s.kernel.desc.get32 p Desc.icptDepth := by
    refine Mem.getU32_congr (fun x low high => w.bytes_outside _ _ ?_ p)
    unfold Desc.icptDepth at *
    cases w with
    | nothing => exact id
    | trap m entry size =>
      apply stepped.trap_apart (n := 1) (by omega) unlinked
      unfold Desc.trapSlot Desc.trapTbl
      omega
    | level change =>
      unfold Store.Spans Desc.sigLvl
      dsimp only
      omega
    | range lo hi =>
      unfold Store.Spans Desc.evMin
      dsimp only
      omega
  unfold DepthOk
  dsimp only
  rw [same]
  exact ok

theorem waitRange_congr {h h' : Heap} (same : ∀ o, Desc.evMin ≤ o → o < Desc.evMin + 8 → h' p o = h p o) :
    waitRange h' p = waitRange h p := by
  have lower : h'.get32 p Desc.evMin = h.get32 p Desc.evMin :=
    Mem.getU32_congr (fun x low high => same x low (by omega))
  have upper : h'.get32 p Desc.evMax = h.get32 p Desc.evMax := by
    refine Mem.getU32_congr (fun x low high => same x ?_ ?_)
    all_goals
      unfold Desc.evMin Desc.evMax at *
      omega
  unfold waitRange
  rw [lower, upper]

theorem keeps_range (stepped : Stepped p s event s' w) (unlinked : ¬ Links p 1 s event)
    (ok : RangeOk s p) : RangeOk s' p := by
  have after : waitRange s'.kernel.desc p = waitRange (w.bytes s.kernel.desc p) p := by
    refine waitRange_congr (fun o low high => stepped.bytes o ?_ ?_)
    all_goals
      simp only [Private, DepthOff, Desc.evMin] at *
      omega
  have outside : (∀ o, Desc.evMin ≤ o → o < Desc.evMin + 8 → ¬ w.Spans o) →
      waitRange (w.bytes s.kernel.desc p) p = waitRange s.kernel.desc p :=
    fun apart => waitRange_congr (fun o low high => w.bytes_outside _ _ (apart o low high) p)
  unfold RangeOk at *
  rw [after, stepped.vars]
  cases w with
  | nothing => exact ok
  | trap m entry size =>
    refine (outside (fun o low high => stepped.trap_apart (n := 1) (by omega) unlinked ?_)).trans ok
    unfold Desc.evMin at *
    unfold Desc.trapSlot Desc.trapTbl
    omega
  | level change =>
    refine (outside (fun o low high => ?_)).trans ok
    unfold Desc.evMin at *
    unfold Store.Spans Desc.sigLvl
    dsimp only
    omega
  | range lo hi =>
    obtain ⟨lowFits, highFits⟩ := stepped.fits
    unfold waitRange Store.bytes Store.vars
    dsimp only
    rw [get32_set32_off _ _ _ _ (by decide), get32_set32_of_lt _ _ _ lowFits, get32_set32_of_lt _ _ _ highFits]

theorem keeps_level (stepped : Stepped p s event s' w) (unlinked : ¬ Links p 6 s event)
    (ok : LevelOk s p) : LevelOk s' p := by
  have after : s'.kernel.desc.get8 p Desc.sigLvl = (w.bytes s.kernel.desc p).get8 p Desc.sigLvl :=
    Mem.getU8_congr (stepped.bytes _ (by unfold Private; decide) (by unfold DepthOff; decide))
  have outside : ¬ w.Spans Desc.sigLvl →
      (w.bytes s.kernel.desc p).get8 p Desc.sigLvl = s.kernel.desc.get8 p Desc.sigLvl :=
    fun apart => Mem.getU8_congr (w.bytes_outside _ _ apart p)
  unfold LevelOk at *
  rw [after, stepped.vars]
  cases w with
  | nothing => exact ok
  | trap m entry size => exact (outside (stepped.trap_apart (n := 6) (by omega) unlinked (by decide))).trans ok
  | level change =>
    unfold Store.bytes Store.vars
    dsimp only
    rw [get8_set8, Nat.mod_eq_of_lt (stepped.fits _ (get8_lt _ _ _)), ok]
  | range lo hi =>
    refine (outside ?_).trans ok
    show ¬ (Desc.evMin ≤ Desc.sigLvl ∧ Desc.sigLvl < Desc.evMin + 8)
    decide

/-- The entry of trap `n` follows its variable when the other fields inside it stay. -/
theorem keeps_trap (stepped : Stepped p s event s' w) {n : Nat} (number : 1 ≤ n ∧ n ≤ 15)
    (after : ∀ o, Desc.trapSlot n ≤ o → o < Desc.trapSlot n + 12 →
      s'.kernel.desc p o = w.bytes s.kernel.desc p p o)
    (level : ∀ change, w = .level change → trapEntry (w.bytes s.kernel.desc p) p n = trapEntry s.kernel.desc p n)
    (range : ∀ lo hi, w = .range lo hi → trapEntry (w.bytes s.kernel.desc p) p n = trapEntry s.kernel.desc p n)
    (ok : TrapOk s p n) : TrapOk s' p n := by
  unfold TrapOk at *
  rw [trapEntry_congr after, stepped.vars]
  cases w with
  | nothing => exact ok
  | trap m entry size =>
    by_cases same : n = m
    · subst same
      unfold Store.vars Store.bytes
      dsimp only
      rw [trapEntry_setTrapEntry _ _ _ stepped.fits, if_pos rfl]
    · have unlinked : ¬ Links p n s event := by
        obtain ⟨own, memOverride, namePtr, rfl⟩ := stepped.source
        exact fun linked => same linked.2.symm
      unfold Store.vars
      dsimp only
      rw [if_neg same, ← ok]
      exact trapEntry_congr (fun o low high =>
        Store.bytes_outside _ _ _ (stepped.trap_apart number unlinked ⟨low, high⟩) p)
  | level change => exact (level change rfl).trans ok
  | range lo hi => exact (range lo hi rfl).trans ok

theorem keeps_trap_apart (stepped : Stepped p s event s' w) {n : Nat} (number : 1 ≤ n ∧ n ≤ 15)
    (notOne : n ≠ 1) (notSix : n ≠ 6) (ok : TrapOk s p n) : TrapOk s' p n := by
  refine keeps_trap stepped number ?_ ?_ ?_ ok
  · intro o low high
    unfold Desc.trapSlot Desc.trapTbl at *
    apply stepped.bytes o
    · unfold Private
      omega
    · unfold DepthOff
      omega
  · rintro change rfl
    refine trapEntry_congr (fun o low high => Store.bytes_outside _ _ _ ?_ p)
    unfold Desc.trapSlot Desc.trapTbl at *
    show o ≠ 0x210
    omega
  · rintro lo hi rfl
    refine trapEntry_congr (fun o low high => Store.bytes_outside _ _ _ ?_ p)
    unfold Desc.trapSlot Desc.trapTbl at *
    show ¬ (0x1D0 ≤ o ∧ o < 0x1D0 + 8)
    omega

/-- Depth and range lie inside the entry of trap 1. -/
theorem keeps_trap_one (stepped : Stepped p s event s' w) (quiet : Quiet p s event) (ok : TrapOk s p 1) :
    TrapOk s' p 1 := by
  refine keeps_trap stepped (by decide) ?_ ?_ ?_ ok
  · intro o low high
    apply stepped.quiet quiet
    unfold Desc.trapSlot Desc.trapTbl at *
    unfold Private
    omega
  · rintro change rfl
    refine trapEntry_congr (fun o low high => Store.bytes_outside _ _ _ ?_ p)
    unfold Desc.trapSlot Desc.trapTbl at *
    show o ≠ 0x210
    omega
  · rintro lo hi rfl
    obtain ⟨own, id, sp, rfl, block⟩ := stepped.source
    rcases quiet with other | passed
    · exact absurd own other
    · exact absurd block passed

theorem set8_get8 (h : Heap) (b o : Nat) : h.set8 b o (h.get8 b o) = h := by
  funext c x
  unfold Heap.set8 Heap.get8
  split
  · next here =>
    rw [here]
    unfold Mem.setU8 Mem.getU8
    split
    · next at_ => simp [at_]
    · rfl
  · rfl

/-- The mask level lies inside the entry of trap 6. -/
theorem keeps_trap_six (stepped : Stepped p s event s' w) (unmasked : ¬ Masks p s event) (ok : TrapOk s p 6) :
    TrapOk s' p 6 := by
  refine keeps_trap stepped (by decide) ?_ ?_ ?_ ok
  · intro o low high
    unfold Desc.trapSlot Desc.trapTbl at *
    apply stepped.bytes o
    · unfold Private
      omega
    · unfold DepthOff
      omega
  · rintro change rfl
    obtain ⟨own, ⟨level, rfl, rfl⟩ | ⟨⟨sp, ticks, rfl⟩, rfl⟩⟩ := stepped.source
    · have same := not_not.mp (fun differ => unmasked ⟨own, differ⟩)
      unfold Store.bytes
      dsimp only
      rw [same, set8_get8]
    · have same := not_not.mp (fun differ => unmasked ⟨own, differ⟩)
      unfold Store.bytes
      dsimp only
      rw [← same, set8_get8]
  · rintro lo hi rfl
    refine trapEntry_congr (fun o low high => Store.bytes_outside _ _ _ ?_ p)
    unfold Desc.trapSlot Desc.trapTbl at *
    show ¬ (0x1D0 ≤ o ∧ o < 0x1D0 + 8)
    omega

theorem rteOk_of_depthOk (live : p ≠ 0) (ok : DepthOk s.kernel p) : RteOk s p := by
  intro bound
  rw [icptReturn_ok s.kernel live, ok, Nat.mod_eq_of_lt bound]
  omega

/-- All private fields of `p` hold what their variables hold. -/
structure Separate (s : State) (p : Nat) : Prop where
  depth : DepthOk s.kernel p
  range : RangeOk s p
  level : LevelOk s p
  trap : ∀ n, 1 ≤ n → n ≤ 15 → TrapOk s p n

/-- An invariant of `p` that every step under `cond` keeps. -/
theorem run_keeps (live : p ≠ 0) (cond : State → Event → Prop) (inv : State → Prop)
    (keeps : ∀ {s s' event w}, Stepped p s event s' w → cond s event → inv s → inv s') {events : List Event}
    (start : inv s) (ran : run step s events = some s') (meets : RunMeets step cond s events) : inv s' := by
  refine run_invariant (fun s event s' ok met stepped => ?_) start meets ran
  obtain ⟨w, store⟩ := step_store live stepped
  exact keeps store met ok

/-- Each private field of `p` is the variable it stands for, over every run without the calls whose bytes it shares. -/
theorem fields_separate_over_runs {p : Nat} {s s' : State} {events : List Event} (live : p ≠ 0)
    (start : Separate s p) (ran : run step s events = some s') :
    (RunMeets step (fun s event => ¬ Links p 1 s event) s events → RteOk s' p ∧ RangeOk s' p) ∧
      (RunMeets step (fun s event => ¬ Links p 6 s event) s events → LevelOk s' p) ∧
      (∀ n, 1 ≤ n → n ≤ 15 → n ≠ 1 → n ≠ 6 → TrapOk s' p n) ∧
      (RunMeets step (Quiet p) s events → TrapOk s' p 1) ∧
      (RunMeets step (fun s event => ¬ Masks p s event) s events → TrapOk s' p 6) := by
  refine ⟨fun meets => ⟨?_, ?_⟩, ?_, ?_, ?_, ?_⟩
  · apply rteOk_of_depthOk live
    exact run_keeps live _ (fun s => DepthOk s.kernel p) keeps_depth start.depth ran meets
  · exact run_keeps live _ (fun s => RangeOk s p) keeps_range start.range ran meets
  · exact run_keeps live _ (fun s => LevelOk s p) keeps_level start.level ran
  · intro n low high notOne notSix
    apply run_keeps live (fun _ _ => True) (fun s => TrapOk s p n) _ (start.trap n low high) ran
    · exact runMeets_of_forall (fun _ _ => trivial) _ _
    · exact fun stepped _ ok => keeps_trap_apart stepped ⟨low, high⟩ notOne notSix ok
  · exact run_keeps live _ (fun s => TrapOk s p 1) keeps_trap_one (start.trap 1 (by decide) (by decide)) ran
  · exact run_keeps live _ (fun s => TrapOk s p 6) keeps_trap_six (start.trap 6 (by decide) (by decide)) ran

/-- A machine with one running process whose private fields are all clear. -/
def clear (proc : Nat) : State :=
  ⟨{ Kernel.zeroed proc 1 with proc := proc }, fun _ => ⟨fun _ => ⟨0, 0, 0⟩, 0, (0, 0)⟩⟩

theorem clear_separate (proc p : Nat) : Separate (clear proc) p := by
  refine ⟨?_, ?_, ?_, fun n _ _ => ?_⟩
  all_goals
    simp [DepthOk, RangeOk, LevelOk, TrapOk, waitRange, trapEntry, outstanding, clear, Kernel.zeroed, get8, get32,
      Mem.getU8, Mem.getU16, Mem.getU32]

/-- A process sends itself a signal, masks and unmasks signals, and returns without an intercept. -/
theorem fields_separate_run :
    ∃ s', run step (clear 0x4000) [.icpt 0x9000 0, .send 1 5, .sigMask 1, .sigMask 0, .rte] = some s' ∧
      RteOk s' 0x4000 ∧ RangeOk s' 0x4000 ∧ LevelOk s' 0x4000 ∧ TrapOk s' 0x4000 1 ∧ TrapOk s' 0x4000 2 := by
  obtain ⟨s', ran⟩ :
      ∃ s', run step (clear 0x4000) [.icpt 0x9000 0, .send 1 5, .sigMask 1, .sigMask 0, .rte] = some s' := ⟨_, rfl⟩
  have separate := fields_separate_over_runs (by decide) (clear_separate 0x4000 0x4000) ran
  have quiet : RunMeets step (Quiet 0x4000) (clear 0x4000) [.icpt 0x9000 0, .send 1 5, .sigMask 1, .sigMask 0, .rte] := by
    refine ⟨trivial, ?_⟩
    rintro _ ⟨⟩
    refine ⟨Or.inr (Or.inl rfl), ?_⟩
    rintro _ ⟨⟩
    refine ⟨trivial, ?_⟩
    rintro _ ⟨⟩
    refine ⟨trivial, ?_⟩
    rintro _ ⟨⟩
    exact ⟨Or.inr (by decide), fun _ _ => trivial⟩
  refine ⟨s', ran, (separate.1 ?_).1, (separate.1 ?_).2, separate.2.1 ?_, separate.2.2.2.1 quiet,
    separate.2.2.1 2 (by decide) (by decide) (by decide) (by decide)⟩
  all_goals
    exact ⟨id, fun _ _ => ⟨id, fun _ _ => ⟨id, fun _ _ => ⟨id, fun _ _ => ⟨id, fun _ _ => trivial⟩⟩⟩⟩⟩

/-- F$SigMask changes the static pointer of trap 6. -/
theorem fields_not_separate :
    ¬ ∀ (p : Nat) (s s' : State) (events : List Event), p ≠ 0 → Separate s p → run step s events = some s' →
      RteOk s' p ∧ RangeOk s' p ∧ LevelOk s' p ∧ ∀ n, 1 ≤ n → n ≤ 15 → TrapOk s' p n := by
  intro claim
  obtain ⟨-, -, -, trap⟩ := claim 0x4000 (clear 0x4000) _ [.sigMask 1] (by decide) (clear_separate _ _) rfl
  have entry := trap 6 (by decide) (by decide)
  revert entry
  unfold TrapOk
  decide

end Q9OS.Fields

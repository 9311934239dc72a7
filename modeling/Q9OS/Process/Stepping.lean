import Mathlib.Tactic
import Q9OS.Process.Debug
import Q9OS.Process.Leak
import Q9OS.Process.Sleep
import Q9OS.Process.Undo

/-!
# Single steps of a debugged process

From F$DExec to the trace exception that stops the child: the budget is counted
down, the breakpoints are compared and the instructions since F$DFork add up.
-/

namespace Q9OS

open Heap

/-- What F$DExec and the trace exception know of a child and its debugger. -/
@[ext]
structure DebugView where
  childState : Nat
  total : Nat
  remaining : Nat
  list : Nat
  count : Nat
  regbuf : Nat
  owner : Nat
  parentState : Nat
  parentSp : Nat

def Kernel.debugView (k : Kernel) (child parent : Nat) : DebugView where
  childState := k.desc.get8 child Desc.state
  total := k.desc.get32 child Desc.dbgTotal
  remaining := k.desc.get32 child Desc.dbgInstr
  list := k.desc.get32 child Desc.dbgBps
  count := k.desc.get32 child Desc.dbgBpn
  regbuf := k.desc.get32 child Desc.dbgReg
  owner := k.desc.get32 child Desc.dbgPar
  parentState := k.desc.get8 parent Desc.state
  parentSp := k.desc.get32 parent Desc.savedSp

/-- A trace exception: the kernel when the child has executed one instruction, and the child's frame. -/
structure TraceEvent where
  kernel : Kernel
  frame : Nat

def TraceEvent.nextPc (e : TraceEvent) : Nat := e.kernel.ram.getU32 (e.frame + framePc)

/-- The next instruction is at one of `count` breakpoints from `list` on. -/
def TraceEvent.Hits (e : TraceEvent) (list count : Nat) : Prop :=
  list ≠ 0 ∧ ∃ i, i < count ∧ e.kernel.ram.getU32 (list + 4 * i) = e.nextPc

/-- The child runs again; in between anything may have happened that leaves the view alone. -/
def Undisturbed (child parent : Nat) (k k' : Kernel) : Prop :=
  k'.proc = child ∧ k'.debugView child parent = k.debugView child parent

/-- The trace exceptions of `child` one after the other. -/
def Traced (child parent : Nat) : Kernel → List TraceEvent → Kernel → Prop
  | k, [], k' => k' = k
  | k, e :: es, k' => Undisturbed child parent k e.kernel ∧ Traced child parent (e.kernel.procDebugTrace e.frame) es k'

theorem hitsBreakpoint_iff (m : Mem) (list pc n : Nat) :
    Kernel.hitsBreakpoint m list pc n = true ↔ ∃ i, i < n ∧ m.getU32 (list + 4 * i) = pc := by
  induction n with
  | zero => simp [Kernel.hitsBreakpoint]
  | succ n ih =>
    rw [Kernel.hitsBreakpoint, Bool.or_eq_true, ih, beq_iff_eq]
    constructor
    · rintro (⟨i, low, same⟩ | same)
      · exact ⟨i, by omega, same⟩
      · exact ⟨n, by omega, same⟩
    · rintro ⟨i, low, same⟩
      by_cases last : i = n
      · subst last
        exact Or.inr same
      · exact Or.inl ⟨i, by omega, same⟩

/-! ### One trace exception -/

theorem hits_iff (k : Kernel) (frame list count : Nat) :
    (list ≠ 0 && Kernel.hitsBreakpoint k.ram list (k.ram.getU32 (frame + framePc)) count) = true ↔
      TraceEvent.Hits ⟨k, frame⟩ list count := by
  rw [Bool.and_eq_true, hitsBreakpoint_iff, decide_eq_true_iff]
  rfl

section
variable {k : Kernel} {child parent frame : Nat} {v : DebugView}

theorem saveSp_view (apart : child ≠ parent) (here : k.proc = child) (sp : Nat) :
    (k.saveSp sp).debugView child parent = k.debugView child parent := by
  unfold Kernel.debugView Kernel.saveSp
  rw [here]
  dsimp only
  simp (disch := decide) only [get8_set32_off, get32_set32_off, get32_set32_block _ _ _ _ apart.symm]

theorem total_view (k : Kernel) (child parent total : Nat) :
    { k with desc := k.desc.set32 child Desc.dbgTotal total }.debugView child parent =
      { k.debugView child parent with total := total % 4294967296 } := by
  unfold Kernel.debugView
  simp (disch := decide) only [get8_set32_off, get32_set32_off, get32_set32]

theorem instr_view (k : Kernel) (child parent remaining : Nat) :
    { k with desc := k.desc.set32 child Desc.dbgInstr remaining }.debugView child parent =
      { k.debugView child parent with remaining := remaining % 4294967296 } := by
  unfold Kernel.debugView
  simp (disch := decide) only [get8_set32_off, get32_set32_off, get32_set32]

/-- The child goes on: one more instruction is counted, one fewer is left. -/
theorem debugCount_continues (frame : Nat) (here : k.proc = child) (view : k.debugView child parent = v)
    (free : ¬ TraceEvent.Hits ⟨k, frame⟩ v.list v.count) (more : v.remaining ≠ 1) :
    ∃ k', k.debugCount frame = (none, k') ∧ k'.proc = child ∧
      k'.debugView child parent = { v with total := (v.total + 1) % 4294967296, remaining := v.remaining - 1 } := by
  subst view here
  have low := get32_lt k.desc k.proc Desc.dbgInstr
  have miss := Bool.eq_false_iff.mpr (mt (hits_iff k frame _ _).mp free)
  replace more : k.desc.get32 k.proc Desc.dbgInstr ≠ 1 := more
  have counted := total_view k k.proc parent (k.desc.get32 k.proc Desc.dbgTotal + 1)
  generalize total : k.desc.set32 k.proc Desc.dbgTotal (k.desc.get32 k.proc Desc.dbgTotal + 1) = h at counted
  by_cases budget : k.desc.get32 k.proc Desc.dbgInstr = 0
  · refine ⟨{ k with desc := h }, ?_, rfl, ?_⟩
    · rw [Kernel.debugCount, total]
      exact if_pos ⟨miss, budget⟩
    · rw [counted]
      have zero : (k.debugView k.proc parent).remaining - 1 = (k.debugView k.proc parent).remaining := by
        show k.desc.get32 k.proc Desc.dbgInstr - 1 = k.desc.get32 k.proc Desc.dbgInstr
        omega
      rw [zero]
      rfl
  · refine ⟨{ k with desc := h.set32 k.proc Desc.dbgInstr (k.desc.get32 k.proc Desc.dbgInstr - 1) }, ?_, rfl, ?_⟩
    · rw [Kernel.debugCount, total]
      exact (if_neg (fun none => budget none.2)).trans (if_pos ⟨miss, by omega⟩)
    · have cut : (k.desc.get32 k.proc Desc.dbgInstr - 1) % 4294967296 = k.desc.get32 k.proc Desc.dbgInstr - 1 :=
        Nat.mod_eq_of_lt (by omega)
      rw [instr_view { k with desc := h }, counted, cut]
      rfl

/-- The child has to stop. -/
theorem debugCount_stops (frame : Nat) (here : k.proc = child) (view : k.debugView child parent = v)
    (due : TraceEvent.Hits ⟨k, frame⟩ v.list v.count ∨ v.remaining = 1) :
    ∃ k', k.debugCount frame = (some (v.remaining - 1), k') ∧ k'.proc = child ∧
      k'.ram = k.ram.setU16 (frame + frameSr) (k.ram.getU16 (frame + frameSr) % traceFlag) ∧
      k'.debugView child parent = { v with total := (v.total + 1) % 4294967296, remaining := 0 } := by
  subst view here
  have counted := total_view k k.proc parent (k.desc.get32 k.proc Desc.dbgTotal + 1)
  have hit := hits_iff k frame (k.desc.get32 k.proc Desc.dbgBps) (k.desc.get32 k.proc Desc.dbgBpn)
  generalize total : k.desc.set32 k.proc Desc.dbgTotal (k.desc.get32 k.proc Desc.dbgTotal + 1) = h at counted
  refine ⟨{ k with
    desc := h.set32 k.proc Desc.dbgInstr 0
    ram := k.ram.setU16 (frame + frameSr) (k.ram.getU16 (frame + frameSr) % traceFlag) }, ?_, rfl, rfl, ?_⟩
  · have left : (k.debugView k.proc parent).remaining = k.desc.get32 k.proc Desc.dbgInstr := rfl
    rw [Kernel.debugCount, total, left]
    generalize (k.desc.get32 k.proc Desc.dbgBps ≠ 0 && Kernel.hitsBreakpoint k.ram (k.desc.get32 k.proc Desc.dbgBps)
      (k.ram.getU32 (frame + framePc)) (k.desc.get32 k.proc Desc.dbgBpn)) = found at hit
    rcases due with hits | last
    · rw [hit.mpr hits, if_neg (fun none => Bool.false_ne_true none.1.symm),
        if_neg (fun none => Bool.false_ne_true none.1.symm), if_pos rfl]
    · rw [left] at last
      rw [if_neg (fun none => by omega), if_neg (fun none => by omega), last, Nat.sub_self, ite_self]
  · refine (instr_view { k with desc := h } k.proc parent 0).trans ?_
    rw [counted]
    rfl

/-- Links and age are not looked at. -/
theorem view_of_queues {k k' : Kernel} (agree : Agree (fun o => ¬ QueueOff o) k.desc k'.desc) :
    k'.debugView child parent = k.debugView child parent := by
  have word (b : Nat) {o : Nat} (apart : o + 4 ≤ 0x1A ∨ 0x38 ≤ o) : k'.desc.get32 b o = k.desc.get32 b o :=
    agree.get32 b (fun x low high => by unfold QueueOff LinkOff; omega)
  have state (b : Nat) : k'.desc.get8 b Desc.state = k.desc.get8 b Desc.state :=
    agree.get8 b (by unfold QueueOff LinkOff Desc.state; omega)
  unfold Kernel.debugView
  rw [state, state, word child (by decide), word child (by decide), word child (by decide), word child (by decide),
    word child (by decide), word child (by decide), word parent (by decide)]

theorem view_of_links {k k' : Kernel} (agree : Agree (fun o => ¬ LinkOff o) k.desc k'.desc) :
    k'.debugView child parent = k.debugView child parent :=
  view_of_queues (agree.weaken (fun _ outside link => outside (Or.inl link)))

theorem childState_view (apart : child ≠ parent) (state : Nat) :
    { k with desc := k.desc.set8 child Desc.state state }.debugView child parent =
      { k.debugView child parent with childState := state % 256 } := by
  unfold Kernel.debugView
  simp (disch := decide) only [get32_set8_off, get8_set8, get8_set8_block _ _ _ _ apart.symm]

theorem parentState_view (apart : child ≠ parent) (state : Nat) :
    { k with desc := k.desc.set8 parent Desc.state state }.debugView child parent =
      { k.debugView child parent with parentState := state % 256 } := by
  unfold Kernel.debugView
  simp (disch := decide) only [get32_set8_off, get8_set8, get8_set8_block _ _ _ _ apart]

/-- The memory after the stop: the registers in the buffer, then the answers in the frame of the debugger. -/
def stopRam (m : Mem) (frame regbuf parentSp total notRun : Nat) : Mem :=
  setFrameReg (setFrameReg (setFrameReg (Kernel.debugSaveRegs m regbuf frame) parentSp 0 total) parentSp 1 notRun)
    parentSp 2 0

theorem debugStop_view (apart : child ≠ parent) (view : k.debugView child parent = v) (frame notRun : Nat) :
    (k.debugStop child parent frame notRun).proc = parent ∧
      (k.debugStop child parent frame notRun).debugView child parent =
        { v with childState := stateWaiting, parentState := stateActive } ∧
      (k.debugStop child parent frame notRun).ram = stopRam k.ram frame v.regbuf v.parentSp v.total notRun := by
  subst view
  generalize first : k.desc.set8 child Desc.state stateWaiting = h₁
  have waits : { k with desc := h₁ }.debugView child parent = { k.debugView child parent with childState := stateWaiting } := by
    rw [← first, childState_view apart]
    rfl
  generalize second : waitQRemove h₁ parent = h₂
  have taken : { k with desc := h₂ }.debugView child parent = { k.debugView child parent with childState := stateWaiting } := by
    rw [← waits, ← second]
    exact view_of_links (listUnlink_agree h₁ parent)
  generalize third : h₂.set8 parent Desc.state stateActive = h₃
  have woken : { k with desc := h₃ }.debugView child parent =
      { k.debugView child parent with childState := stateWaiting, parentState := stateActive } := by
    rw [← third]
    refine (parentState_view (k := { k with desc := h₂ }) apart stateActive).trans ?_
    rw [taken]
    rfl
  have stopped : k.debugStop child parent frame notRun = { k with
      desc := h₃
      ram := stopRam k.ram frame (k.desc.get32 child Desc.dbgReg) (h₃.get32 parent Desc.savedSp)
        (k.desc.get32 child Desc.dbgTotal) notRun
      proc := parent } := by
    unfold Kernel.debugStop Kernel.waitQTake Kernel.setReg stopRam
    dsimp only
    rw [first, second, third]
  rw [stopped]
  refine ⟨rfl, woken, ?_⟩
  rw [show h₃.get32 parent Desc.savedSp = k.desc.get32 parent Desc.savedSp from congrArg DebugView.parentSp woken]
  rfl

/-- An exception that does not end the run of the child. -/
theorem trace_continues {e : TraceEvent} (other : child ≠ parent) (placed : child ≠ 0) (here : e.kernel.proc = child)
    (view : e.kernel.debugView child parent = v) (active : v.childState = stateActive)
    (free : ¬ e.Hits v.list v.count) (more : v.remaining ≠ 1) :
    (e.kernel.procDebugTrace e.frame).debugView child parent =
      { v with total := (v.total + 1) % 4294967296, remaining := v.remaining - 1 } := by
  have saved := (saveSp_view other here e.frame).trans view
  have runs : (e.kernel.saveSp e.frame).desc.get8 child Desc.state = stateActive :=
    (congrArg DebugView.childState saved).trans active
  obtain ⟨k', counted, -, view'⟩ := debugCount_continues e.frame (k := e.kernel.saveSp e.frame) here saved free more
  rw [Kernel.procDebugTrace, if_neg, counted]
  · exact view'
  · rw [show (e.kernel.saveSp e.frame).proc = child from here]
    exact not_or.mpr ⟨placed, not_not.mpr runs⟩

/-- The exception that does. -/
theorem trace_stops {e : TraceEvent} (other : child ≠ parent) (placed : child ≠ 0) (debugged : parent ≠ 0)
    (here : e.kernel.proc = child) (view : e.kernel.debugView child parent = v) (active : v.childState = stateActive)
    (owner : v.owner = parent) (waiting : v.parentState = stateWaiting)
    (due : e.Hits v.list v.count ∨ v.remaining = 1) :
    (e.kernel.procDebugTrace e.frame).proc = parent ∧
      (e.kernel.procDebugTrace e.frame).debugView child parent =
        { v with total := (v.total + 1) % 4294967296, remaining := 0, childState := stateWaiting, parentState := stateActive } ∧
      (e.kernel.procDebugTrace e.frame).ram =
        stopRam (e.kernel.ram.setU16 (e.frame + frameSr) (e.kernel.ram.getU16 (e.frame + frameSr) % traceFlag)) e.frame
          v.regbuf v.parentSp ((v.total + 1) % 4294967296) (v.remaining - 1) := by
  have saved := (saveSp_view other here e.frame).trans view
  have runs : (e.kernel.saveSp e.frame).desc.get8 child Desc.state = stateActive :=
    (congrArg DebugView.childState saved).trans active
  obtain ⟨k', counted, -, ram, view'⟩ := debugCount_stops e.frame (k := e.kernel.saveSp e.frame) here saved due
  have stopped : e.kernel.procDebugTrace e.frame = k'.debugStop child parent e.frame (v.remaining - 1) := by
    rw [Kernel.procDebugTrace, if_neg, counted]
    · have owned : k'.desc.get32 child Desc.dbgPar = parent := (congrArg DebugView.owner view').trans owner
      have waits : k'.desc.get8 parent Desc.state = stateWaiting := (congrArg DebugView.parentState view').trans waiting
      dsimp only
      rw [show (e.kernel.saveSp e.frame).proc = child from here, owned]
      exact if_neg (not_or.mpr ⟨debugged, not_not.mpr waits⟩)
    · rw [show (e.kernel.saveSp e.frame).proc = child from here]
      exact not_or.mpr ⟨placed, not_not.mpr runs⟩
  obtain ⟨proc, after, memory⟩ := debugStop_view other view' e.frame (v.remaining - 1)
  rw [stopped]
  refine ⟨proc, after, ?_⟩
  rw [memory, ram]
  rfl

end

/-! ### What the debugger finds -/

theorem copyBytes_copied (m : Mem) {target source n i : Nat} (apart : target + n ≤ source ∨ source + n ≤ target)
    (inside : i < n) : copyBytes m target source n (target + i) = m (source + i) := by
  induction n with
  | zero => omega
  | succ n ih =>
    rw [copyBytes]
    by_cases last : i = n
    · subst last
      rw [Mem.getU8_congr (copyBytes_outside m source (by omega)), Mem.setU8, if_pos rfl, Mem.getU8, Nat.toUInt8_eq,
        UInt8.ofNat_toNat]
    · rw [Mem.setU8_of_ne _ _ (by omega)]
      exact ih (by omega) (by omega)

/-- The buffer holds the registers of the child without the trace bit, and the
child's frame has the bit off and is else as it was. -/
structure Reported (m m' : Mem) (frame regbuf : Nat) : Prop where
  general : ∀ i, i < 60 → m' (regbuf + i) = m (frame + i)
  stack : m'.getU32 (regbuf + 60) = (frame + 60 + Kernel.debugHwFrameSize (m.getU16 (frame + frameFmt))) % 4294967296
  status : m'.getU16 (regbuf + 64) = m.getU16 (frame + frameSr) % traceFlag
  counter : ∀ i, i < 6 → m' (regbuf + 66 + i) = m (frame + framePc + i)
  traceOff : m'.getU16 (frame + frameSr) = m.getU16 (frame + frameSr) % traceFlag
  kept : ∀ i, i < 68 → i < 60 ∨ 62 ≤ i → m' (frame + i) = m (frame + i)

/-- Buffer, frame of the child and answers to the debugger do not overlap. -/
structure AreasApart (frame regbuf parentSp : Nat) : Prop where
  buffer : regbuf + 72 ≤ frame ∨ frame + 68 ≤ regbuf
  answers : parentSp + 12 ≤ regbuf ∨ regbuf + 72 ≤ parentSp
  frame : parentSp + 12 ≤ frame ∨ frame + 68 ≤ parentSp

section
variable {m : Mem} {frame regbuf parentSp : Nat}

theorem stopRam_outside (total notRun : Nat) {x : Nat} (outside : x < parentSp ∨ parentSp + 12 ≤ x) :
    stopRam m frame regbuf parentSp total notRun x = Kernel.debugSaveRegs m regbuf frame x := by
  unfold stopRam setFrameReg
  rw [Mem.setU32_outside _ _ (by omega), Mem.setU32_outside _ _ (by omega), Mem.setU32_outside _ _ (by omega)]

theorem stopRam_answers (m : Mem) (frame regbuf parentSp total notRun : Nat) :
    getFrameReg (stopRam m frame regbuf parentSp total notRun) parentSp 0 = total % 4294967296 ∧
      getFrameReg (stopRam m frame regbuf parentSp total notRun) parentSp 1 = notRun % 4294967296 ∧
      getFrameReg (stopRam m frame regbuf parentSp total notRun) parentSp 2 = 0 := by
  unfold stopRam getFrameReg setFrameReg
  refine ⟨?_, ?_, ?_⟩
  · rw [Mem.getU32_setU32_apart _ _ (by omega), Mem.getU32_setU32_apart _ _ (by omega), Mem.getU32_setU32]
  · rw [Mem.getU32_setU32_apart _ _ (by omega), Mem.getU32_setU32]
  · rw [Mem.getU32_setU32]

/-- The two copies of the register image. -/
def savedImage (m : Mem) (regbuf frame : Nat) : Mem :=
  copyBytes (copyBytes m regbuf frame 60) (regbuf + 64) (frame + 60) 8

theorem savedImage_outside {x : Nat} (outside : x < regbuf ∨ regbuf + 72 ≤ x ∨ regbuf + 60 ≤ x ∧ x < regbuf + 64) :
    savedImage m regbuf frame x = m x := by
  unfold savedImage
  rw [copyBytes_outside _ _ (by omega), copyBytes_outside _ _ (by omega)]

theorem savedImage_general {i : Nat} (apart : regbuf + 72 ≤ frame ∨ frame + 68 ≤ regbuf) (inside : i < 60) :
    savedImage m regbuf frame (regbuf + i) = m (frame + i) := by
  unfold savedImage
  rw [copyBytes_outside _ _ (by omega), copyBytes_copied m (by omega) inside]

theorem savedImage_status {i : Nat} (apart : regbuf + 72 ≤ frame ∨ frame + 68 ≤ regbuf) (inside : i < 8) :
    savedImage m regbuf frame (regbuf + 64 + i) = m (frame + 60 + i) := by
  unfold savedImage
  rw [copyBytes_copied _ (by omega) inside, copyBytes_outside _ _ (by omega)]

theorem stopRam_reports (total notRun : Nat) (placed : regbuf ≠ 0) (apart : AreasApart frame regbuf parentSp) :
    Reported m (stopRam (m.setU16 (frame + frameSr) (m.getU16 (frame + frameSr) % traceFlag)) frame regbuf parentSp
      total notRun) frame regbuf := by
  obtain ⟨buffer, answers, besides⟩ := apart
  have small : m.getU16 (frame + frameSr) % traceFlag < 65536 := by
    unfold traceFlag
    omega
  generalize off : m.setU16 (frame + frameSr) (m.getU16 (frame + frameSr) % traceFlag) = m₁
  have sr : m₁.getU16 (frame + frameSr) = m.getU16 (frame + frameSr) % traceFlag := by
    rw [← off, Mem.getU16_setU16, Nat.mod_eq_of_lt small]
  have else_same {x : Nat} (apart : x < frame + 60 ∨ frame + 62 ≤ x) : m₁ x = m x := by
    rw [← off]
    exact Mem.setU16_outside _ _ apart
  have saved : Kernel.debugSaveRegs m₁ regbuf frame = setFrameReg ((savedImage m₁ regbuf frame).setU16 (regbuf + 64)
      ((savedImage m₁ regbuf frame).getU16 (regbuf + 64) % traceFlag)) regbuf 15
      (frame + 60 + Kernel.debugHwFrameSize (m.getU16 (frame + frameFmt))) := by
    have format : ((savedImage m₁ regbuf frame).setU16 (regbuf + 64)
        ((savedImage m₁ regbuf frame).getU16 (regbuf + 64) % traceFlag)).getU16 (frame + frameFmt) =
        m.getU16 (frame + frameFmt) := by
      refine Mem.getU16_congr (fun x low high => ?_)
      unfold frameFmt at low high
      rw [Mem.setU16_outside _ _ (by omega), savedImage_outside (by omega), else_same (by omega)]
    rw [← format]
    exact if_neg placed
  -- what is left at an address after the answers and the stack pointer
  have written {x : Nat} (outside : x < parentSp ∨ parentSp + 12 ≤ x) (other : x < regbuf + 60 ∨ regbuf + 66 ≤ x) :
      stopRam m₁ frame regbuf parentSp total notRun x = savedImage m₁ regbuf frame x := by
    rw [stopRam_outside total notRun outside, saved, setFrameReg, Mem.setU32_outside _ _ (by omega),
      Mem.setU16_outside _ _ (by omega)]
  refine ⟨fun i inside => ?_, ?_, ?_, fun i inside => ?_, ?_, fun i inside part => ?_⟩
  · rw [written (by omega) (by omega), savedImage_general buffer inside, else_same (by omega)]
  · rw [Mem.getU32_congr (fun x low high => stopRam_outside total notRun (by omega)), saved, setFrameReg, Mem.getU32_setU32]
  · rw [Mem.getU16_congr (fun x low high => stopRam_outside total notRun (by omega)), saved, setFrameReg,
      Mem.getU16_setU32_apart _ _ (by omega), Mem.getU16_setU16]
    have copied : (savedImage m₁ regbuf frame).getU16 (regbuf + 64) = m₁.getU16 (frame + frameSr) := by
      have high := savedImage_status (m := m₁) buffer (show 0 < 8 by decide)
      have low := savedImage_status (m := m₁) buffer (show 1 < 8 by decide)
      unfold Mem.getU16 Mem.getU8 frameSr
      rw [low]
      exact congrArg (fun b : UInt8 => b.toNat * 256 + _) high
    rw [copied, sr]
    unfold traceFlag
    omega
  · rw [written (by omega) (by omega), show regbuf + 66 + i = regbuf + 64 + (2 + i) by omega,
      savedImage_status buffer (by omega), else_same (by omega), show frame + 60 + (2 + i) = frame + framePc + i by
        unfold framePc
        omega]
  · rw [← sr]
    refine Mem.getU16_congr (fun x low high => ?_)
    unfold frameSr at low high
    rw [written (by omega) (by omega), savedImage_outside (by omega)]
  · rw [written (by omega) (by omega), savedImage_outside (by omega), else_same (by omega)]

end

/-! ### A run of trace exceptions -/

section
variable {k k' : Kernel} {child parent : Nat} {v : DebugView}

/-- Exception number `i` after F$DExec is the last of the budget or at a breakpoint. -/
def DueAt (budget list count i : Nat) (e : TraceEvent) : Prop := i + 1 = budget ∨ e.Hits list count

theorem traced_append {es more : List TraceEvent} (traced : Traced child parent k (es ++ more) k') :
    ∃ mid, Traced child parent k es mid ∧ Traced child parent mid more k' := by
  induction es generalizing k with
  | nil => exact ⟨k, rfl, traced⟩
  | cons e es ih =>
    obtain ⟨mid, first, rest⟩ := ih traced.2
    exact ⟨mid, ⟨traced.1, first⟩, rest⟩

/-- As long as nothing is due the child runs. -/
theorem traced_view {es : List TraceEvent} (other : child ≠ parent) (placed : child ≠ 0)
    (view : k.debugView child parent = v) (active : v.childState = stateActive) (total : v.total < 4294967296)
    (traced : Traced child parent k es k')
    (early : ∀ i, (inside : i < es.length) → ¬ DueAt v.remaining v.list v.count i es[i]) :
    k'.debugView child parent =
      { v with total := (v.total + es.length) % 4294967296, remaining := v.remaining - es.length } := by
  induction es generalizing k v with
  | nil =>
    obtain rfl : k' = k := traced
    rw [view, List.length_nil, Nat.add_zero, Nat.mod_eq_of_lt total]
    rfl
  | cons e es ih =>
    obtain ⟨⟨here, same⟩, rest⟩ := traced
    have first := early 0 (by simp)
    have stepped := trace_continues other placed here (same.trans view) active (fun hits => first (Or.inr hits))
      (fun last => first (Or.inl last.symm))
    have later := ih stepped active (Nat.mod_lt _ (by decide)) rest (fun i inside due => by
      refine early (i + 1) (by simpa using inside) ?_
      rcases due with last | hits
      · exact Or.inl (by
          have count : i + 1 = v.remaining - 1 := last
          omega)
      · exact Or.inr hits)
    rw [later, List.length_cons]
    have sum : ((v.total + 1) % 4294967296 + es.length) % 4294967296 = (v.total + (es.length + 1)) % 4294967296 := by omega
    have left : v.remaining - 1 - es.length = v.remaining - (es.length + 1) := by omega
    simp only [sum, left]

end

/-! ### F$DExec -/

def debugBudget (n : Nat) : Nat := if n = 0xFFFFFFFF then 0 else n

def breakpointCount (bpCount bpList : Nat) : Nat := if bpList = 0 then 0 else min bpCount 255

section
variable {k : Kernel} {child pid n bpCount bpList sp : Nat}

/-- What a child looks like that its debugger has just let go. -/
def startView (k : Kernel) (child n bpCount bpList sp : Nat) : DebugView where
  childState := stateActive
  total := k.desc.get32 child Desc.dbgTotal
  remaining := debugBudget n % 4294967296
  list := bpList % 4294967296
  count := breakpointCount bpCount bpList
  regbuf := k.desc.get32 child Desc.dbgReg
  owner := k.proc
  parentState := stateWaiting
  parentSp := sp % 4294967296

theorem orders_view {budget list count : Nat} {h : Heap} (parent : Nat)
    (stored : ((k.desc.set32 child Desc.dbgInstr budget).set32 child Desc.dbgBps list).set32 child Desc.dbgBpn count = h) :
    { k with desc := h }.debugView child parent =
      { k.debugView child parent with
        remaining := budget % 4294967296, list := list % 4294967296, count := count % 4294967296 } := by
  subst stored
  unfold Kernel.debugView
  simp (disch := decide) only [get8_set32_off, get32_set32_off, get32_set32]

theorem parentSp_view (k : Kernel) (child parent sp : Nat) :
    { k with desc := k.desc.set32 parent Desc.savedSp sp }.debugView child parent =
      { k.debugView child parent with parentSp := sp % 4294967296 } := by
  unfold Kernel.debugView
  simp (disch := decide) only [get8_set32_off, get32_set32_off, get32_set32]

theorem debugRun_view (other : child ≠ k.proc) (budget count list : Nat) :
    (k.debugRun child budget count list).debugView child k.proc =
      { k.debugView child k.proc with
        childState := stateActive, remaining := budget % 4294967296, list := list % 4294967296
        count := count % 4294967296, parentState := stateWaiting } := by
  unfold Kernel.debugRun Kernel.activate
  dsimp only
  generalize stored : ((k.desc.set32 child Desc.dbgInstr budget).set32 child Desc.dbgBps list).set32 child
    Desc.dbgBpn count = h
  have orders := orders_view k.proc stored
  have waits := parentState_view (k := { k with desc := h }) other stateWaiting
  rw [orders] at waits
  generalize h.set8 k.proc Desc.state stateWaiting = h₁ at waits ⊢
  have queued : { k with desc := waitQInsert h₁ k.proc }.debugView child k.proc = _ :=
    (view_of_links (listAppend_agree h₁ waitQ k.proc)).trans waits
  generalize waitQInsert h₁ k.proc = h₂ at queued ⊢
  have runs := childState_view (k := { k with desc := h₂ }) other stateActive
  rw [queued] at runs
  exact (view_of_queues (schedInsert_agree _ child)).trans runs

theorem procDebugExec_eq (n bpCount bpList : Nat) (accepts : k.debugAccepts (k.procLookup pid) = true)
    (frame : k.desc.get32 (k.procLookup pid) Desc.savedSp ≠ 0) (buffer : k.desc.get32 (k.procLookup pid) Desc.dbgReg ≠ 0) :
    ∃ ram next k', ({ k with ram := ram }.debugRun (k.procLookup pid) (debugBudget n) (breakpointCount bpCount bpList)
      bpList).schedFirstPick = (next, k') ∧ k.procDebugExec pid n bpCount bpList = (.ok next, k') := by
  rw [Kernel.procDebugExec, if_neg (Bool.not_eq_false _ ▸ accepts), if_neg (not_or.mpr ⟨frame, buffer⟩)]
  extract_lets instructions breakpoints ram
  refine ⟨ram, ?_⟩
  cases picked : ({ k with ram := ram }.debugRun (k.procLookup pid) instructions breakpoints bpList).schedFirstPick with
  | mk next k' => exact ⟨next, k', picked, rfl⟩

/-- The debugger waits and the child may run, until the budget is used up or a breakpoint is reached. -/
theorem sysDebugExec_view {next : Nat} {k₁ : Kernel} (other : k.procLookup pid ≠ k.proc)
    (ran : k.sysDebugExec pid n bpCount bpList sp = (.ok next, k₁)) :
    k.procLookup pid ≠ 0 ∧ k.proc ≠ 0 ∧ k.desc.get32 (k.procLookup pid) Desc.dbgReg ≠ 0 ∧
      k₁.debugView (k.procLookup pid) k.proc = startView k (k.procLookup pid) n bpCount bpList sp := by
  rw [Kernel.sysDebugExec] at ran
  by_cases accepts : k.debugAccepts (k.procLookup pid) = false
  · have refused : k.procDebugExec pid n bpCount bpList = (.error ePrcId, k) := by rw [Kernel.procDebugExec, if_pos accepts]
    rw [refused] at ran
    cases ran
  by_cases missing : k.desc.get32 (k.procLookup pid) Desc.savedSp = 0 ∨ k.desc.get32 (k.procLookup pid) Desc.dbgReg = 0
  · have refused : k.procDebugExec pid n bpCount bpList = (.error eBpAddr, k) := by
      rw [Kernel.procDebugExec, if_neg accepts, if_pos missing]
    rw [refused] at ran
    cases ran
  replace accepts := Bool.eq_true_of_not_eq_false accepts
  obtain ⟨frame, buffer⟩ := not_or.mp missing
  obtain ⟨ram, next', k', picked, started⟩ := procDebugExec_eq n bpCount bpList accepts frame buffer
  rw [started] at ran
  simp only [Kernel.debugAccepts, Bool.and_eq_true, decide_eq_true_eq, beq_iff_eq] at accepts
  obtain ⟨⟨⟨child, parent⟩, -⟩, owned⟩ := accepts
  refine ⟨child, parent, buffer, ?_⟩
  have runs := debugRun_view (k := { k with ram := ram }) other (debugBudget n) (breakpointCount bpCount bpList) bpList
  have switched := Sleep.schedFirstPick_agree ({ k with ram := ram }.debugRun (k.procLookup pid) (debugBudget n)
    (breakpointCount bpCount bpList) bpList)
  rw [picked] at switched
  have left : k'.debugView (k.procLookup pid) k.proc = _ := (view_of_links switched).trans runs
  obtain rfl := (Prod.mk.inj ran).2
  refine (parentSp_view k' (k.procLookup pid) k.proc sp).trans ?_
  rw [left]
  have few : breakpointCount bpCount bpList % 4294967296 = breakpointCount bpCount bpList := by
    unfold breakpointCount
    split_ifs <;> omega
  exact DebugView.ext rfl rfl rfl rfl few rfl owned rfl rfl

end

/-! ### A debugged process from its F$DFork on -/

/-- The counter of executed instructions. -/
def debugTotal (k : Kernel) (child : Nat) : Nat := k.desc.get32 child Desc.dbgTotal

/-- Nothing is due before the last exception of a run. -/
def Early (n bpCount bpList : Nat) (before : List TraceEvent) : Prop :=
  ∀ i, (inside : i < before.length) → ¬ DueAt (debugBudget n) bpList (breakpointCount bpCount bpList) i before[i]

/-- A slot waits for its next process with the counter of the zeroed pool, or with what was left when its last process
was freed. -/
inductive Unused (child : Nat) (k : Kernel) : Prop
  | fresh {base count : Nat} (kept : debugTotal k child = debugTotal (.zeroed base count) child)
  | freed {before : Kernel} (kept : debugTotal k child = debugTotal (before.procPoolFree child) child)

/-- The child of a debugger, suspended: F$DFork has put it into an unused slot
and it has executed that many instructions in runs that have ended. -/
inductive Debugged (child parent : Nat) : Kernel → Nat → Prop
  | forked {k k' : Kernel} {args : Kernel.ForkArgs} {buffer pid : Nat} (unused : Unused child k)
      (made : k.procDebugFork args buffer = (.ok pid, k')) : Debugged child parent k' 0
  | stepped {k k₀ k₁ k' : Kernel} {executed pid n bpCount bpList sp next : Nat} {before : List TraceEvent}
      {e : TraceEvent} (sofar : Debugged child parent k executed) (kept : debugTotal k₀ child = debugTotal k child)
      (started : k₀.sysDebugExec pid n bpCount bpList sp = (.ok next, k₁)) (isChild : k₀.procLookup pid = child)
      (caller : k₀.proc = parent) (words : n < 4294967296 ∧ bpList < 4294967296 ∧ sp < 4294967296)
      (early : Early n bpCount bpList before)
      (due : DueAt (debugBudget n) bpList (breakpointCount bpCount bpList) before.length e)
      (traced : Traced child parent k₁ (before ++ [e]) k') : Debugged child parent k' (executed + before.length + 1)

section
variable {child parent executed pid n bpCount bpList sp next : Nat} {k k₀ k₁ k' : Kernel}

theorem procPoolFree_total (k : Kernel) (child : Nat) : debugTotal (k.procPoolFree child) child = 0 := by
  unfold Kernel.procPoolFree Kernel.procPoolAbortAlloc Kernel.clearSlot debugTotal
  dsimp only
  rw [get32_set32_off _ _ _ _ (by decide), get32_set32]

theorem Unused.total (unused : Unused child k) : debugTotal k child = 0 := by
  cases unused with
  | fresh kept =>
    rw [kept]
    simp [debugTotal, Kernel.zeroed, get32, Mem.getU32, Mem.getU16, Mem.getU8]
  | freed kept => rw [kept, procPoolFree_total]

theorem procDebugFork_total {args : Kernel.ForkArgs} {buffer : Nat} (child : Nat)
    (made : k.procDebugFork args buffer = (.ok pid, k')) : debugTotal k' child = debugTotal k child := by
  rw [Kernel.procDebugFork] at made
  by_cases null : buffer = 0
  · rw [if_pos null] at made
    cases made
  rw [if_neg null] at made
  cases forked : k.procFork args with
  | mk result k₁ =>
    rw [forked] at made
    cases result with
    | error code => cases made
    | ok pid' =>
      have slots := Leak.procFork_agree k args (congrArg Prod.fst forked)
      rw [forked] at slots
      have total : k₁.desc.get32 child Desc.dbgTotal = k.desc.get32 child Desc.dbgTotal :=
        slots.get32 child (fun x low high => by
          unfold Leak.ForkKept
          unfold Desc.dbgTotal at low
          omega)
      dsimp only at made
      split at made
      · cases made
      · obtain rfl := (Prod.mk.inj made).2
        show ((schedRemove _ _).set8 _ _ _).get32 child Desc.dbgTotal = _
        rw [get32_set8_off _ _ _ _ (by decide), (schedRemove_agree _ _).get32 child (fun x low high => by
          unfold LinkOff
          unfold Desc.dbgTotal at low
          omega)]
        rw [get32_set32_off _ _ _ _ (by decide), get32_set32_off _ _ _ _ (by decide), get32_set32_off _ _ _ _ (by decide)]
        exact total

/-- A run that has not ended. -/
theorem started_view (other : child ≠ parent) (started : k₀.sysDebugExec pid n bpCount bpList sp = (.ok next, k₁))
    (isChild : k₀.procLookup pid = child) (caller : k₀.proc = parent) (words : n < 4294967296 ∧ bpList < 4294967296)
    {before : List TraceEvent} (early : Early n bpCount bpList before) (traced : Traced child parent k₁ before k') :
    child ≠ 0 ∧ parent ≠ 0 ∧ k₀.desc.get32 child Desc.dbgReg ≠ 0 ∧ k'.debugView child parent =
      { startView k₀ child n bpCount bpList sp with
        total := (debugTotal k₀ child + before.length) % 4294967296, remaining := debugBudget n - before.length } := by
  subst isChild caller
  obtain ⟨placed, running, buffer, view⟩ := sysDebugExec_view other started
  have budget : debugBudget n % 4294967296 = debugBudget n := by
    unfold debugBudget
    split_ifs <;> omega
  have list : bpList % 4294967296 = bpList := Nat.mod_eq_of_lt words.2
  have later := traced_view other placed view rfl (get32_lt ..) traced (by
    unfold startView
    rw [budget, list]
    exact early)
  refine ⟨placed, running, buffer, ?_⟩
  rw [later]
  exact DebugView.ext rfl rfl (congrArg (· - before.length) budget) rfl rfl rfl rfl rfl rfl

/-- The last exception of a run. -/
structure Ended (child parent executed n sp : Nat) (before : List TraceEvent) (e : TraceEvent) (regbuf : Nat)
    (k' : Kernel) : Prop where
  runs : k'.proc = parent
  view : k'.desc.get8 child Desc.state = stateWaiting ∧ k'.desc.get8 parent Desc.state = stateActive
  d0 : getFrameReg k'.ram sp 0 = (executed + before.length + 1) % 4294967296
  d1 : getFrameReg k'.ram sp 1 = debugBudget n - (before.length + 1)
  d2 : getFrameReg k'.ram sp 2 = 0
  registers : AreasApart e.frame regbuf sp → Reported e.kernel.ram k'.ram e.frame regbuf

theorem last_ends (other : child ≠ parent) (started : k₀.sysDebugExec pid n bpCount bpList sp = (.ok next, k₁))
    (isChild : k₀.procLookup pid = child) (caller : k₀.proc = parent)
    (words : n < 4294967296 ∧ bpList < 4294967296 ∧ sp < 4294967296)
    {before : List TraceEvent} {e : TraceEvent} (early : Early n bpCount bpList before)
    (due : DueAt (debugBudget n) bpList (breakpointCount bpCount bpList) before.length e)
    (traced : Traced child parent k₁ (before ++ [e]) k') :
    Ended child parent (debugTotal k₀ child) n sp before e (k₀.desc.get32 child Desc.dbgReg) k' ∧
      debugTotal k' child = (debugTotal k₀ child + before.length + 1) % 4294967296 := by
  obtain ⟨mid, first, ⟨⟨here, same⟩, last⟩⟩ := traced_append traced
  obtain rfl : k' = e.kernel.procDebugTrace e.frame := last
  obtain ⟨placed, running, buffer, view⟩ := started_view other started isChild caller ⟨words.1, words.2.1⟩ early first
  have list : bpList % 4294967296 = bpList := Nat.mod_eq_of_lt words.2.1
  have frame : sp % 4294967296 = sp := Nat.mod_eq_of_lt words.2.2
  have budget : debugBudget n < 4294967296 := by
    unfold debugBudget
    split_ifs <;> omega
  have ends : e.Hits (bpList % 4294967296) (breakpointCount bpCount bpList) ∨ debugBudget n - before.length = 1 := by
    rw [list]
    exact due.symm.imp_right (fun last => by omega)
  obtain ⟨runs, after, ram⟩ := trace_stops (e := e) other placed running here (same.trans view) rfl caller rfl ends
  replace ram : (e.kernel.procDebugTrace e.frame).ram = stopRam _ e.frame (k₀.desc.get32 child Desc.dbgReg)
      (sp % 4294967296) (((debugTotal k₀ child + before.length) % 4294967296 + 1) % 4294967296)
      (debugBudget n - before.length - 1) := ram
  rw [frame] at ram
  obtain ⟨d0, d1, d2⟩ := stopRam_answers
    (e.kernel.ram.setU16 (e.frame + frameSr) (e.kernel.ram.getU16 (e.frame + frameSr) % traceFlag)) e.frame
    (k₀.desc.get32 child Desc.dbgReg) sp (((debugTotal k₀ child + before.length) % 4294967296 + 1) % 4294967296)
    (debugBudget n - before.length - 1)
  refine ⟨⟨runs, ⟨congrArg DebugView.childState after, congrArg DebugView.parentState after⟩, ?_, ?_, ?_, fun apart => ?_⟩, ?_⟩
  · rw [ram, d0]
    omega
  · rw [ram, d1]
    omega
  · rw [ram, d2]
  · rw [ram]
    exact stopRam_reports _ _ buffer apart
  · refine (congrArg DebugView.total after).trans ?_
    show ((debugTotal k₀ child + before.length) % 4294967296 + 1) % 4294967296 = _
    omega

/-- The counter holds the instructions since F$DFork. -/
theorem debugged_total (other : child ≠ parent) (debugged : Debugged child parent k executed) :
    debugTotal k child = executed % 4294967296 := by
  induction debugged with
  | forked unused made => exact (procDebugFork_total child made).trans unused.total
  | @stepped k k₀ k₁ k' executed pid n bpCount bpList sp next before e sofar kept started isChild caller words early due
      traced ih =>
    have ended := (last_ends other started isChild caller words early due traced).2
    rw [ended, kept, ih]
    omega

/-- After F$DExec the child runs until its budget is used up or its next
instruction is at one of the first 255 breakpoints, and there it stops. -/
theorem dExec_stops (other : child ≠ parent) (debugged : Debugged child parent k executed)
    (kept : debugTotal k₀ child = debugTotal k child)
    (started : k₀.sysDebugExec pid n bpCount bpList sp = (.ok next, k₁)) (isChild : k₀.procLookup pid = child)
    (caller : k₀.proc = parent) (words : n < 4294967296 ∧ bpList < 4294967296 ∧ sp < 4294967296)
    {before : List TraceEvent} (early : Early n bpCount bpList before) :
    (∀ k', Traced child parent k₁ before k' → k'.desc.get8 child Desc.state = stateActive ∧
        debugTotal k' child = (executed + before.length) % 4294967296) ∧
      ∀ e k', DueAt (debugBudget n) bpList (breakpointCount bpCount bpList) before.length e →
        Traced child parent k₁ (before ++ [e]) k' →
          Ended child parent executed n sp before e (k₀.desc.get32 child Desc.dbgReg) k' ∧
            Debugged child parent k' (executed + before.length + 1) := by
  have counted := kept.trans (debugged_total other debugged)
  refine ⟨fun k' traced => ?_, fun e k' due traced => ?_⟩
  · obtain ⟨-, -, -, view⟩ := started_view other started isChild caller ⟨words.1, words.2.1⟩ early traced
    refine ⟨congrArg DebugView.childState view, (congrArg DebugView.total view).trans ?_⟩
    show (debugTotal k₀ child + before.length) % 4294967296 = _
    omega
  · obtain ⟨ended, -⟩ := last_ends other started isChild caller words early due traced
    refine ⟨⟨ended.runs, ended.view, ?_, ended.d1, ended.d2, ended.registers⟩,
      .stepped debugged kept started isChild caller words early due traced⟩
    rw [ended.d0, counted]
    omega

end

theorem forked_debugged {k : Kernel} {args : Kernel.ForkArgs} {child parent buffer pid : Nat}
    (unused : Unused child k) (made : (k.procDebugFork args buffer).1 = .ok pid) :
    Debugged child parent (k.procDebugFork args buffer).2 0 := by
  cases forked : k.procDebugFork args buffer with
  | mk result k' =>
    rw [forked] at made
    subst made
    exact .forked unused forked

/-! ### A child that its debugger steps once -/

/-- A debugger at 0x11000, and one free slot for its child. -/
def debugger : Kernel := { Leak.oneFree with proc := 0x11000 }

def suspended : Kernel := (debugger.procDebugFork Leak.oneArgs 0x9000).2

theorem suspended_forked : Debugged 0x10000 0x11000 suspended 0 := by
  have made : (debugger.procDebugFork Leak.oneArgs 0x9000).1 = .ok 1 := by decide +kernel
  exact forked_debugged (@Unused.fresh _ _ 0 0 (by decide)) made

theorem suspended_starts (n bpCount bpList sp : Nat) :
    ∃ next k₁, suspended.sysDebugExec 1 n bpCount bpList sp = (.ok next, k₁) := by
  have child : suspended.procLookup 1 = 0x10000 := by decide +kernel
  have accepts : suspended.debugAccepts (suspended.procLookup 1) = true := by
    rw [child]
    decide +kernel
  have frame : suspended.desc.get32 (suspended.procLookup 1) Desc.savedSp ≠ 0 := by
    rw [child]
    decide +kernel
  have buffer : suspended.desc.get32 (suspended.procLookup 1) Desc.dbgReg ≠ 0 := by
    rw [child]
    decide +kernel
  obtain ⟨ram, next, k', -, started⟩ := procDebugExec_eq n bpCount bpList accepts frame buffer
  rw [Kernel.sysDebugExec, started]
  exact ⟨_, _, rfl⟩

/-- An exception of the child in front of the instruction at `pc`, with the one breakpoint 0x1234. -/
def arrives (k : Kernel) (pc : Nat) : TraceEvent :=
  ⟨{ k with proc := 0x10000, ram := (Mem.setU32 (fun _ => 0) 0xB000 0x1234).setU32 (0xC000 + framePc) pc }, 0xC000⟩

theorem arrives_hits (k : Kernel) {pc : Nat} (small : pc < 4294967296) : (arrives k pc).Hits 0xB000 1 ↔ pc = 0x1234 := by
  have read : (arrives k pc).kernel.ram.getU32 0xB000 = 0x1234 :=
    (Mem.getU32_setU32_apart _ pc (by decide)).trans (Mem.getU32_setU32_of_lt _ _ (by decide))
  have next : (arrives k pc).nextPc = pc := Mem.getU32_setU32_of_lt _ _ small
  unfold TraceEvent.Hits
  rw [next]
  constructor
  · rintro ⟨-, i, first, same⟩
    obtain rfl : i = 0 := by omega
    exact same.symm.trans read
  · rintro rfl
    exact ⟨by decide, 0, by decide, read⟩

/-- A budget of three instructions, and a breakpoint behind the second. -/
theorem dExec_stops_once : ∃ next k₁ k', suspended.sysDebugExec 1 3 1 0xB000 0xA000 = (.ok next, k₁) ∧
    getFrameReg k'.ram 0xA000 0 = 2 ∧ getFrameReg k'.ram 0xA000 1 = 1 ∧
      Ended 0x10000 0x11000 0 3 0xA000 [arrives k₁ 0x5000]
        (arrives ((arrives k₁ 0x5000).kernel.procDebugTrace 0xC000) 0x1234) 0x9000 k' := by
  obtain ⟨next, k₁, started⟩ := suspended_starts 3 1 0xB000 0xA000
  have early : Early 3 1 0xB000 [arrives k₁ 0x5000] := by
    rintro i inside (budget | hits)
    · have first : i < 1 := inside
      have three : debugBudget 3 = 3 := rfl
      omega
    · obtain rfl : i = 0 := by simpa using inside
      exact absurd ((arrives_hits k₁ (by decide)).mp hits) (by decide)
  obtain ⟨-, stops⟩ := dExec_stops (by decide) suspended_forked rfl started (by decide +kernel) (by decide +kernel)
    (by decide) early
  have ended := (stops (arrives ((arrives k₁ 0x5000).kernel.procDebugTrace 0xC000) 0x1234) _
    (Or.inr ((arrives_hits _ (by decide)).mpr rfl)) ⟨⟨rfl, rfl⟩, ⟨rfl, rfl⟩, rfl⟩).1
  have buffer : suspended.desc.get32 0x10000 Desc.dbgReg = 0x9000 := by decide +kernel
  rw [buffer] at ended
  exact ⟨next, k₁, _, started, ended.d0, ended.d1, ended⟩

/-- Breakpoints at 0xB000, all at address 0 but the 256th. -/
def longList : Mem := Mem.setU32 (fun _ => 0) (0xB000 + 4 * 255) 0x1234

/-- The first exception of the child: its next instruction is at the last breakpoint. -/
def lastBreakpoint (k : Kernel) : TraceEvent :=
  ⟨{ k with proc := 0x10000, ram := longList.setU32 (0xC000 + framePc) 0x1234 }, 0xC000⟩

theorem lastBreakpoint_nextPc (k : Kernel) : (lastBreakpoint k).nextPc = 0x1234 :=
  Mem.getU32_setU32 ..

theorem lastBreakpoint_reads (k : Kernel) {i : Nat} (inside : i < 256) :
    (lastBreakpoint k).kernel.ram.getU32 (0xB000 + 4 * i) = if i = 255 then 0x1234 else 0 := by
  have apart : 0xB000 + 4 * i + 4 ≤ 0xC000 + framePc ∨ 0xC000 + framePc + 4 ≤ 0xB000 + 4 * i := by
    unfold framePc
    omega
  refine (Mem.getU32_setU32_apart longList 0x1234 apart).trans ?_
  rw [longList]
  by_cases last : i = 255
  · rw [last, if_pos rfl, Mem.getU32_setU32]
  · rw [if_neg last, Mem.getU32_setU32_apart _ _ (by omega)]
    simp [Mem.getU32, Mem.getU16, Mem.getU8]

/-- The breakpoints behind the first 255 are not looked at. -/
theorem longList_not_met : ¬ ∀ (child parent executed pid n bpCount bpList sp next : Nat) (k k₀ k₁ k' : Kernel)
    (before : List TraceEvent) (e : TraceEvent), child ≠ parent → Debugged child parent k executed →
      debugTotal k₀ child = debugTotal k child → k₀.sysDebugExec pid n bpCount bpList sp = (.ok next, k₁) →
      k₀.procLookup pid = child → k₀.proc = parent → n < 4294967296 ∧ bpList < 4294967296 ∧ sp < 4294967296 →
      (∀ i, (inside : i < before.length) → ¬ DueAt (debugBudget n) bpList bpCount i before[i]) →
      DueAt (debugBudget n) bpList bpCount before.length e → Traced child parent k₁ (before ++ [e]) k' →
        k'.proc = parent ∧ k'.desc.get8 child Desc.state = stateWaiting := by
  intro claim
  obtain ⟨next, k₁, started⟩ := suspended_starts 0 256 0xB000 0xA000
  have traced : Traced 0x10000 0x11000 k₁ ([] ++ [lastBreakpoint k₁])
      ((lastBreakpoint k₁).kernel.procDebugTrace (lastBreakpoint k₁).frame) := ⟨⟨rfl, rfl⟩, rfl⟩
  have hits : (lastBreakpoint k₁).Hits 0xB000 256 :=
    ⟨by decide, 255, by decide, (lastBreakpoint_reads k₁ (by decide)).trans (lastBreakpoint_nextPc k₁).symm⟩
  have stopped := (claim 0x10000 0x11000 0 1 0 256 0xB000 0xA000 next suspended suspended k₁ _ [] _ (by decide)
    suspended_forked rfl started (by decide +kernel) (by decide +kernel) (by decide)
    (fun i inside => absurd inside (Nat.not_lt_zero i)) (Or.inr hits) traced).2
  -- the first 255 breakpoints are all at address 0
  have early : Early 0 256 0xB000 [lastBreakpoint k₁] := by
    rintro i inside (budget | ⟨-, j, few, same⟩)
    · have unlimited : debugBudget 0 = 0 := rfl
      omega
    · obtain rfl : i = 0 := by simpa using inside
      have first : j < 255 := few
      have read := (lastBreakpoint_reads k₁ (show j < 256 by omega)).symm.trans (same.trans (lastBreakpoint_nextPc k₁))
      rw [if_neg (by omega)] at read
      exact absurd read (by decide)
  obtain ⟨-, -, -, view⟩ := started_view (by decide) started (by decide +kernel) (by decide +kernel) (by decide) early traced
  have runs : stateWaiting = stateActive := stopped.symm.trans (congrArg DebugView.childState view)
  exact absurd runs (by decide)

end Q9OS

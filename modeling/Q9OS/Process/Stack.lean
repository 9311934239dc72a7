import Mathlib.Tactic
import Q9OS.Lib.Run
import Q9OS.Process.Spawn

/-!
# Frames on the stack of a process

What building a frame writes and what it leaves, and the frames of intercept
routines over whole runs: each delivery stacks one below the saved frame, each
F$RTE takes one off.
-/

namespace Q9OS

/-! ### Single frames -/

theorem setFrameReg_outside (m : Mem) {frame reg v x : Nat} (outside : x < frame + reg * 4 ∨ frame + reg * 4 + 4 ≤ x) :
    setFrameReg m frame reg v x = m x :=
  Mem.setU32_outside _ _ outside

theorem getFrameReg_setFrameReg (m : Mem) (frame reg v : Nat) :
    getFrameReg (setFrameReg m frame reg v) frame reg = v % 4294967296 :=
  Mem.getU32_setU32 _ _ _

theorem copyRegs_outside (m : Mem) (source : Nat) {target n x : Nat} (outside : x < target ∨ target + n * 4 ≤ x) :
    copyRegs m target source n x = m x := by
  induction n with
  | zero => rfl
  | succ n ih =>
    rw [copyRegs, setFrameReg_outside _ (by omega)]
    exact ih (by omega)

theorem pushFrame_outside (m : Mem) (oldFrame signal sigDat vector : Nat) {newFrame x : Nat}
    (outside : x < newFrame ∨ newFrame + frameSize ≤ x) :
    pushFrame m newFrame oldFrame signal sigDat vector x = m x := by
  unfold frameSize at outside
  unfold pushFrame
  rw [Mem.setU16_outside _ _ (by unfold frameFmt; omega), Mem.setU32_outside _ _ (by unfold framePc; omega),
    Mem.setU16_outside _ _ (by unfold frameSr; omega), setFrameReg_outside _ (by unfold frameRegA6; omega),
    setFrameReg_outside _ (by unfold frameRegD1; omega), copyRegs_outside _ _ (by omega)]

/-- What the routine finds: its signal, its data and its own address. -/
theorem pushFrame_starts (m : Mem) (newFrame oldFrame : Nat) {signal sigDat vector : Nat} (word : signal < 4294967296)
    (data : sigDat < 4294967296) (address : vector < 4294967296) :
    getFrameReg (pushFrame m newFrame oldFrame signal sigDat vector) newFrame frameRegD1 = signal ∧
      getFrameReg (pushFrame m newFrame oldFrame signal sigDat vector) newFrame frameRegA6 = sigDat ∧
        (pushFrame m newFrame oldFrame signal sigDat vector).getU32 (newFrame + framePc) = vector := by
  unfold pushFrame
  generalize copyRegs m newFrame oldFrame 15 = copied
  simp only [getFrameReg, setFrameReg, frameRegD1, frameRegA6, frameSr, framePc, frameFmt]
  refine ⟨?_, ?_, ?_⟩
  all_goals
    simp (disch := omega) only [Mem.getU32_setU16_apart, Mem.getU32_setU32_apart, Mem.getU32_setU32_of_lt]

theorem setFrameRegs_outside (m : Mem) {frame reg x : Nat} (values : List Nat)
    (outside : x < frame + reg * 4 ∨ frame + (reg + values.length) * 4 ≤ x) : setFrameRegs m frame reg values x = m x := by
  induction values generalizing m reg with
  | nil => rfl
  | cons v values ih =>
    rw [List.length_cons] at outside
    rw [setFrameRegs, ih _ (by omega), setFrameReg_outside _ (by omega)]

theorem getFrameReg_setFrameRegs (m : Mem) (frame reg : Nat) {values : List Nat} {i v : Nat} (value : values[i]? = some v) :
    getFrameReg (setFrameRegs m frame reg values) frame (reg + i) = v % 4294967296 := by
  have earlier : ∀ (values : List Nat) (m : Mem) (reg i : Nat), i < reg →
      getFrameReg (setFrameRegs m frame reg values) frame i = getFrameReg m frame i := by
    intro values m reg i before
    exact Mem.getU32_congr (fun x low high => setFrameRegs_outside m values (by omega))
  induction values generalizing m reg i with
  | nil => cases value
  | cons u values ih =>
    cases i with
    | zero =>
      cases value
      have kept := earlier values (setFrameReg m frame reg v) (reg + 1) reg (by omega)
      exact kept.trans (getFrameReg_setFrameReg _ _ _ _)
    | succ i =>
      rw [setFrameRegs, show reg + (i + 1) = reg + 1 + i by omega]
      exact ih _ _ value

section StartFrame
variable (m : Mem) {frame x : Nat} {regs : List Nat} (pc : Nat) (all : regs.length = 15)
include all

theorem startFrame_outside (outside : x < frame ∨ frame + frameSize ≤ x) : startFrame m frame regs pc x = m x := by
  unfold frameSize at outside
  unfold startFrame
  rw [Mem.setU16_outside _ _ (by unfold frameFmt; omega), Mem.setU32_outside _ _ (by unfold framePc; omega),
    Mem.setU16_outside _ _ (by unfold frameSr; omega), setFrameRegs_outside _ _ (by omega)]

theorem getFrameReg_startFrame {i v : Nat} (value : regs[i]? = some v) :
    getFrameReg (startFrame m frame regs pc) frame i = v % 4294967296 := by
  have few : i < 15 := by
    rw [← all]
    exact (List.getElem?_eq_some_iff.mp value).1
  have read := getFrameReg_setFrameRegs m frame 0 value
  rw [Nat.zero_add] at read
  unfold startFrame
  rw [← read]
  unfold getFrameReg
  rw [Mem.getU32_setU16_apart _ _ (by unfold frameFmt; omega), Mem.getU32_setU32_apart _ _ (by unfold framePc; omega),
    Mem.getU32_setU16_apart _ _ (by unfold frameSr; omega)]

end StartFrame

/-! ### Deliveries and returns -/

namespace Stack

open Heap

/-- Signals come and the process returns from its routine, whatever a routine does below the frame it started
from. A signal that only stays pending is delivered by the next F$RTE. -/
inductive Event where
  | deliver (signal : UInt16)
  | pend (signal : UInt16)
  | rte
  | routine (ram : Mem)

def step (d : Nat) (k : Kernel) : Event → Kernel
  | .deliver signal => k.icptDeliver d signal.toNat
  | .pend signal => { k with desc := k.desc.set16 d Desc.signal signal.toNat }
  | .rte => (k.icptReturn d).2
  | .routine ram => { k with ram := ram }

/-- A process with a saved frame at `sp`, an intercept vector and no intercept open. -/
structure Start (d sp : Nat) (k : Kernel) : Prop where
  process : d ≠ 0
  frame : k.desc.get32 d Desc.savedSp = sp
  saved : sp ≠ 0
  vector : k.desc.get32 d Desc.sigVec ≠ 0
  depth : k.desc.get32 d Desc.icptDepth = 0

/-- An open intercept: the memory at its delivery, what its routine is to find, and whether that has still to run. -/
structure Intercept where
  before : Mem
  signal : Nat
  data : Nat
  vector : Nat
  waits : Bool

/-- The intercept that a delivery opens. -/
def opening (d : Nat) (k : Kernel) (signal : Nat) : Intercept :=
  ⟨k.ram, signal, k.desc.get32 d Desc.sigDat, k.desc.get32 d Desc.sigVec, true⟩

/-- The open intercepts after an event, the innermost first. -/
def track (d : Nat) (k : Kernel) (opens : List Intercept) : Event → List Intercept
  | .deliver signal => if k.icptReady d then opening d k signal.toNat :: opens else opens
  | .pend _ => opens
  | .rte =>
    match opens with
    | [] => []
    | _ :: opens =>
      if k.desc.get16 d Desc.signal ≠ 0 then opening d k (k.desc.get16 d Desc.signal) :: opens else opens
  | .routine _ =>
    match opens with
    | [] => []
    | inner :: opens => { inner with waits := false } :: opens

/-- The frame at `place` starts the routine with its signal in d1 and the data of the process in a6. -/
def Begins (ram : Mem) (place : Nat) (intercept : Intercept) : Prop :=
  getFrameReg ram place frameRegD1 = intercept.signal ∧ getFrameReg ram place frameRegA6 = intercept.data ∧
    ram.getU32 (place + framePc) = intercept.vector

/-- One frame for each open intercept, and all above it as it was when it was delivered. A routine that has still to
run starts from its own frame, however many came and went below it. -/
structure Restored (d sp : Nat) (ram : Mem) (k : Kernel) (opens : List Intercept) : Prop where
  above : ∀ x, sp ≤ x → x < 4294967296 → k.ram x = ram x
  frame : k.desc.get32 d Desc.savedSp + opens.length * frameSize = sp
  kept : ∀ i intercept, opens[i]? = some intercept → ∀ x, k.desc.get32 d Desc.savedSp + (i + 1) * frameSize ≤ x →
    k.ram x = intercept.before x
  starts : ∀ i intercept, opens[i]? = some intercept → intercept.waits = true →
    Begins k.ram (k.desc.get32 d Desc.savedSp + i * frameSize) intercept
  refused : opens = [] → k.icptReturn d = (.error eBpAddr, k)

/-- F$RTE goes on with the frame that the innermost intercept was put under, all bytes of it as they were then. -/
def Resumes (d : Nat) (k : Kernel) (opens : List Intercept) : Event → Prop
  | .rte => ∀ inner ∈ opens.head?, ∀ x, k.desc.get32 d Desc.savedSp + frameSize ≤ x →
      (step d k .rte).ram x = inner.before x
  | _ => True

def Upheld (d sp : Nat) (ram : Mem) : List Intercept → Kernel → List Event → Prop
  | opens, k, [] => Restored d sp ram k opens
  | opens, k, event :: events =>
    Restored d sp ram k opens ∧ Resumes d k opens event ∧ Upheld d sp ram (track d k opens event) (step d k event) events

/-- A routine keeps to the stack below the frame it was put under; its own frame is off the stack when it runs. -/
def Below (d : Nat) (k : Kernel) : Event → Prop
  | .routine ram => ∀ x, (k.desc.get32 d Desc.savedSp + if k.desc.get32 d Desc.icptDepth = 0 then 0 else frameSize) ≤ x →
      ram x = k.ram x
  | _ => True

/-- A delivery has room below the saved frame. -/
def Roomy (d : Nat) (k : Kernel) : Event → Prop
  | .deliver _ => k.icptReady d → frameSize ≤ k.desc.get32 d Desc.savedSp
  | _ => True

/-! ### One delivery -/

section

variable {d signal : Nat} {k : Kernel}

theorem deliver_savedSp (ready : k.icptReady d = true) (room : frameSize ≤ k.desc.get32 d Desc.savedSp) :
    (k.icptDeliver d signal).desc.get32 d Desc.savedSp = k.desc.get32 d Desc.savedSp - frameSize := by
  have small := k.desc.get32_lt d Desc.savedSp
  have pushed : sub32 (k.desc.get32 d Desc.savedSp) frameSize = k.desc.get32 d Desc.savedSp - frameSize := by
    unfold sub32 frameSize at *
    omega
  unfold Kernel.icptDeliver
  rw [if_pos ready]
  dsimp only
  rw [pushed, get32_set16_off _ _ _ _ (by decide), get32_set32_off _ _ _ _ (by decide), get32_set32_of_lt _ _ _ (by omega)]

theorem deliver_ram (ready : k.icptReady d = true) (room : frameSize ≤ k.desc.get32 d Desc.savedSp) :
    (k.icptDeliver d signal).ram = pushFrame k.ram (k.desc.get32 d Desc.savedSp - frameSize)
      (k.desc.get32 d Desc.savedSp) signal (k.desc.get32 d Desc.sigDat) (k.desc.get32 d Desc.sigVec) := by
  have small := k.desc.get32_lt d Desc.savedSp
  have pushed : sub32 (k.desc.get32 d Desc.savedSp) frameSize = k.desc.get32 d Desc.savedSp - frameSize := by
    unfold sub32 frameSize at *
    omega
  unfold Kernel.icptDeliver
  rw [if_pos ready]
  dsimp only
  rw [pushed]

theorem deliver_vector (ready : k.icptReady d = true) :
    (k.icptDeliver d signal).desc.get32 d Desc.sigVec = k.desc.get32 d Desc.sigVec := by
  unfold Kernel.icptDeliver
  rw [if_pos ready]
  dsimp only
  rw [get32_set16_off _ _ _ _ (by decide), get32_set32_off _ _ _ _ (by decide), get32_set32_off _ _ _ _ (by decide)]

theorem deliver_depth (ready : k.icptReady d = true) :
    (k.icptDeliver d signal).desc.get32 d Desc.icptDepth = (k.desc.get32 d Desc.icptDepth + 1) % 4294967296 := by
  unfold Kernel.icptDeliver
  rw [if_pos ready]
  dsimp only
  rw [get32_set16_off _ _ _ _ (by decide), get32_set32, get32_set32_off _ _ _ _ (by decide)]

end

/-- What a frame starts with is in its 68 bytes. -/
theorem Begins.of_same {ram ram' : Mem} {place : Nat} {intercept : Intercept} (begins : Begins ram place intercept)
    (same : ∀ x, place ≤ x → ram' x = ram x) : Begins ram' place intercept := by
  obtain ⟨d1, a6, pc⟩ := begins
  have reads (a : Nat) (inside : place ≤ a) : ram'.getU32 a = ram.getU32 a :=
    Mem.getU32_congr fun x low _ => same x (by omega)
  exact ⟨(reads _ (by omega)).trans d1, (reads _ (by omega)).trans a6, (reads _ (by omega)).trans pc⟩

/-! ### Open intercepts -/

/-- `Restored`, with what keeps it: every intercept is counted, and the vector stays. -/
structure Stacked (d sp : Nat) (ram : Mem) (k : Kernel) (opens : List Intercept) : Prop where
  process : d ≠ 0
  fits : sp < 4294967296
  vector : k.desc.get32 d Desc.sigVec ≠ 0
  frame : k.desc.get32 d Desc.savedSp + opens.length * frameSize = sp
  depth : k.desc.get32 d Desc.icptDepth = opens.length
  above : ∀ x, sp ≤ x → k.ram x = ram x
  kept : ∀ i intercept, opens[i]? = some intercept → ∀ x, k.desc.get32 d Desc.savedSp + (i + 1) * frameSize ≤ x →
    k.ram x = intercept.before x
  starts : ∀ i intercept, opens[i]? = some intercept → intercept.waits = true →
    Begins k.ram (k.desc.get32 d Desc.savedSp + i * frameSize) intercept

namespace Stacked
variable {d sp : Nat} {ram : Mem} {k : Kernel} {inner : Intercept} {opens : List Intercept}

theorem restored (stacked : Stacked d sp ram k opens) : Restored d sp ram k opens := by
  refine ⟨fun x high _ => stacked.above x high, stacked.frame, stacked.kept, stacked.starts, ?_⟩
  rintro rfl
  unfold Kernel.icptReturn Kernel.icptPop
  rw [if_neg stacked.process, stacked.depth]
  rfl

/-- One more frame. -/
theorem deliver (stacked : Stacked d sp ram k opens) {signal : Nat} (word : signal < 4294967296)
    (ready : k.icptReady d = true) (room : frameSize ≤ k.desc.get32 d Desc.savedSp) :
    Stacked d sp ram (k.icptDeliver d signal) (opening d k signal :: opens) := by
  obtain ⟨process, fits, vector, frame, depth, above, kept, starts⟩ := stacked
  have lowered : (k.icptDeliver d signal).desc.get32 d Desc.savedSp = _ := deliver_savedSp ready room
  have same : ∀ x, k.desc.get32 d Desc.savedSp ≤ x → (k.icptDeliver d signal).ram x = k.ram x := by
    intro x high
    rw [deliver_ram ready room, pushFrame_outside _ _ _ _ _ (by omega)]
  refine ⟨process, fits, ?_, ?_, ?_, ?_, ?_, ?_⟩
  · rw [deliver_vector ready]
    exact vector
  · rw [lowered, List.length_cons, Nat.succ_mul]
    omega
  · have few : opens.length + 1 < 4294967296 := by
      unfold frameSize at *
      omega
    rw [deliver_depth ready, depth, List.length_cons, Nat.mod_eq_of_lt few]
  · intro x high
    rw [same x (by omega)]
    exact above x high
  · intro i intercept here x high
    rw [lowered, Nat.succ_mul] at high
    rw [same x (by omega)]
    cases i with
    | zero =>
      cases here
      rfl
    | succ i => exact kept i intercept here x (by omega)
  · intro i intercept here waits
    rw [lowered]
    cases i with
    | zero =>
      cases here
      rw [deliver_ram ready room, Nat.zero_mul, Nat.add_zero]
      exact pushFrame_starts _ _ _ word (k.desc.get32_lt _ _) (k.desc.get32_lt _ _)
    | succ i =>
      have place : k.desc.get32 d Desc.savedSp - frameSize + (i + 1) * frameSize =
          k.desc.get32 d Desc.savedSp + i * frameSize := by
        rw [Nat.succ_mul]
        omega
      rw [place]
      exact (starts i intercept here waits).of_same fun x high => same x (by omega)

/-- The process after its topmost frame is taken off. -/
def popped (d : Nat) (k : Kernel) : Kernel :=
  { k with
    desc := (k.desc.set32 d Desc.savedSp (k.desc.get32 d Desc.savedSp + frameSize)).set32 d Desc.icptDepth
      (k.desc.get32 d Desc.icptDepth - 1)
    marks := .returned d :: k.marks }

theorem icptPop_eq (stacked : Stacked d sp ram k (inner :: opens)) : k.icptPop d = (.ok (), popped d k) := by
  unfold Kernel.icptPop
  dsimp only
  rw [if_neg stacked.process, if_neg (by rw [stacked.depth]; exact Nat.succ_ne_zero _)]
  rfl

theorem popped_savedSp (stacked : Stacked d sp ram k (inner :: opens)) :
    (popped d k).desc.get32 d Desc.savedSp = k.desc.get32 d Desc.savedSp + frameSize := by
  have fits := stacked.fits
  have frame := stacked.frame
  rw [List.length_cons, Nat.succ_mul] at frame
  unfold popped
  dsimp only
  rw [get32_set32_off _ _ _ _ (by decide), get32_set32_of_lt]
  omega

theorem pop (stacked : Stacked d sp ram k (inner :: opens)) : Stacked d sp ram (popped d k) opens := by
  have raised := stacked.popped_savedSp
  obtain ⟨process, fits, vector, frame, depth, above, kept, starts⟩ := stacked
  rw [List.length_cons, Nat.succ_mul] at frame
  refine ⟨process, fits, ?_, ?_, ?_, above, ?_, ?_⟩
  · unfold popped
    dsimp only
    rw [get32_set32_off _ _ _ _ (by decide), get32_set32_off _ _ _ _ (by decide)]
    exact vector
  · rw [raised]
    omega
  · have small := k.desc.get32_lt d Desc.icptDepth
    unfold popped
    dsimp only
    rw [get32_set32_of_lt _ _ _ (by omega), depth, List.length_cons, Nat.add_sub_cancel]
  · intro i intercept here x high
    rw [raised] at high
    refine kept (i + 1) intercept here x ?_
    rw [Nat.succ_mul (i + 1)]
    omega
  · intro i intercept here waits
    have place : (popped d k).desc.get32 d Desc.savedSp + i * frameSize =
        k.desc.get32 d Desc.savedSp + (i + 1) * frameSize := by
      rw [raised, Nat.succ_mul]
      omega
    rw [place]
    exact starts (i + 1) intercept here waits

/-- What F$RTE does behind the pop. -/
theorem icptReturn_eq (stacked : Stacked d sp ram k (inner :: opens)) :
    (k.icptReturn d).2 = if k.desc.get16 d Desc.signal ≠ 0 then (popped d k).icptDeliver d (k.desc.get16 d Desc.signal)
      else popped d k := by
  have kept : (popped d k).desc.get16 d Desc.signal = k.desc.get16 d Desc.signal := by
    unfold popped
    dsimp only
    rw [get16_set32_off _ _ _ _ (by decide), get16_set32_off _ _ _ _ (by decide)]
  unfold Kernel.icptReturn
  rw [stacked.icptPop_eq]
  dsimp only
  rw [kept]

theorem popped_opening (d : Nat) (k : Kernel) (signal : Nat) : opening d (popped d k) signal = opening d k signal := by
  have field (off : Nat) (apart : off + 4 ≤ Desc.savedSp ∨ Desc.savedSp + 4 ≤ off)
      (apart' : off + 4 ≤ Desc.icptDepth ∨ Desc.icptDepth + 4 ≤ off) :
      (popped d k).desc.get32 d off = k.desc.get32 d off := by
    unfold popped
    dsimp only
    rw [get32_set32_off _ _ _ _ (by omega), get32_set32_off _ _ _ _ (by omega)]
  unfold opening
  rw [field Desc.sigDat (by decide) (by decide), field Desc.sigVec (by decide) (by decide)]
  rfl

/-- F$RTE, with the delivery of a signal that is pending. -/
theorem rte (stacked : Stacked d sp ram k opens) :
    Stacked d sp ram (step d k .rte) (track d k opens .rte) ∧ Resumes d k opens .rte := by
  cases opens with
  | nil =>
    refine ⟨?_, fun inner none => absurd none (by simp)⟩
    rw [step, stacked.restored.refused rfl]
    exact stacked
  | cons inner opens =>
    have after := stacked.pop
    have raised := stacked.popped_savedSp
    have upper : ∀ x, k.desc.get32 d Desc.savedSp + frameSize ≤ x → k.ram x = inner.before x := by
      intro x high
      refine stacked.kept 0 inner rfl x ?_
      rw [Nat.zero_add, Nat.one_mul]
      exact high
    unfold Resumes
    dsimp only [step, track]
    rw [stacked.icptReturn_eq]
    by_cases quiet : k.desc.get16 d Desc.signal = 0
    · rw [if_neg (not_not.mpr quiet), if_neg (not_not.mpr quiet)]
      refine ⟨after, fun inner' same x high => ?_⟩
      cases same
      exact upper x high
    · have ready : (popped d k).icptReady d = true := by
        unfold Kernel.icptReady
        rw [raised]
        unfold frameSize
        simp [after.process, after.vector]
      have room : frameSize ≤ (popped d k).desc.get32 d Desc.savedSp := by
        rw [raised]
        omega
      have word := k.desc.get16_lt d Desc.signal
      rw [if_pos quiet, if_pos quiet, ← popped_opening]
      refine ⟨after.deliver (by omega) ready room, fun inner' same x high => ?_⟩
      cases same
      rw [deliver_ram ready room, pushFrame_outside _ _ _ _ _ (by rw [raised]; omega)]
      exact upper x high

/-- A routine runs: it has started from its own frame, and nothing above this one changes. -/
theorem routine (stacked : Stacked d sp ram k opens) {ram' : Mem} (below : Below d k (.routine ram')) :
    Stacked d sp ram (step d k (.routine ram')) (track d k opens (.routine ram')) := by
  obtain ⟨process, fits, vector, frame, depth, above, kept, starts⟩ := stacked
  have below : ∀ x, (k.desc.get32 d Desc.savedSp + if k.desc.get32 d Desc.icptDepth = 0 then 0 else frameSize) ≤ x →
      ram' x = k.ram x := below
  rw [depth] at below
  cases opens with
  | nil =>
    rw [if_pos List.length_nil] at below
    refine ⟨process, fits, vector, frame, depth, fun x high => ?_, fun i intercept here => ?_, fun i intercept here => ?_⟩
    · rw [List.length_nil, Nat.zero_mul] at frame
      exact (below x (by omega)).trans (above x high)
    · cases here
    · cases here
  | cons inner opens =>
    rw [if_neg (by rw [List.length_cons]; exact Nat.succ_ne_zero _)] at below
    have high_frame := frame
    rw [List.length_cons, Nat.succ_mul] at high_frame
    refine ⟨process, fits, vector, frame, depth, fun x high => ?_, fun i intercept here x high => ?_, fun i intercept here waits => ?_⟩
    · exact (below x (by omega)).trans (above x high)
    · have high' := high
      rw [Nat.succ_mul] at high'
      refine (below x (by unfold step at high'; dsimp only at high'; omega)).trans ?_
      cases i with
      | zero =>
        cases here
        exact kept 0 inner rfl x high
      | succ i => exact kept (i + 1) intercept here x high
    · cases i with
      | zero =>
        cases here
        cases waits
      | succ i =>
        refine (starts (i + 1) intercept here waits).of_same fun x high => below x ?_
        rw [Nat.succ_mul] at high
        omega

theorem keeps (stacked : Stacked d sp ram k opens) {event : Event} (below : Below d k event) (roomy : Roomy d k event) :
    Stacked d sp ram (step d k event) (track d k opens event) ∧ Resumes d k opens event := by
  cases event with
  | deliver signal =>
    have word := signal.toNat_lt
    have tracked : track d k opens (.deliver signal) =
        if k.icptReady d then opening d k signal.toNat :: opens else opens := rfl
    refine ⟨?_, trivial⟩
    rw [tracked]
    by_cases ready : k.icptReady d = true
    · rw [if_pos ready]
      exact stacked.deliver (by omega) ready (roomy ready)
    · have same : step d k (.deliver signal) = k := if_neg ready
      rw [if_neg ready, same]
      exact stacked
  | pend signal =>
    obtain ⟨process, fits, vector, frame, depth, above, kept, starts⟩ := stacked
    have field (off : Nat) (apart : Desc.signal + 2 ≤ off ∨ off + 4 ≤ Desc.signal) :
        (step d k (.pend signal)).desc.get32 d off = k.desc.get32 d off := get32_set16_off _ _ _ _ apart
    have saved := field Desc.savedSp (by decide)
    refine ⟨⟨process, fits, ?_, ?_, ?_, above, ?_, ?_⟩, trivial⟩
    · rw [field Desc.sigVec (by decide)]
      exact vector
    · rw [saved]
      exact frame
    · rw [field Desc.icptDepth (by decide)]
      exact depth
    · rw [saved]
      exact kept
    · rw [saved]
      exact starts
  | rte => exact stacked.rte
  | routine ram' => exact ⟨stacked.routine below, trivial⟩

end Stacked

theorem Start.stacked {d sp : Nat} {k : Kernel} (start : Start d sp k) : Stacked d sp k.ram k [] := by
  obtain ⟨process, frame, -, vector, depth⟩ := start
  refine ⟨process, ?_, vector, ?_, depth, fun _ _ => rfl, fun i intercept here => ?_, fun i intercept here => ?_⟩
  · rw [← frame]
    exact k.desc.get32_lt _ _
  · rw [frame, List.length_nil, Nat.zero_mul, Nat.add_zero]
  · cases here
  · cases here

theorem upheld_of_stacked {d sp : Nat} {ram : Mem} {k : Kernel} {opens : List Intercept} {events : List Event}
    (stacked : Stacked d sp ram k opens)
    (meets : RunMeets (fun k event => some (step d k event)) (fun k event => Below d k event ∧ Roomy d k event) k
      events) : Upheld d sp ram opens k events := by
  induction events generalizing k opens with
  | nil => exact stacked.restored
  | cons event events ih =>
    obtain ⟨⟨below, roomy⟩, rest⟩ := meets
    obtain ⟨after, resumes⟩ := stacked.keeps below roomy
    exact ⟨stacked.restored, resumes, ih after (rest _ rfl)⟩

/-- As long as each delivery has room for its frame, every routine starts with its signal and its data, every F$RTE goes
on with the frame below which it was put, and returning from all intercepts brings the saved frame back, whatever
the nesting. -/
theorem intercepts_undone {d sp : Nat} {k : Kernel} {events : List Event} (start : Start d sp k)
    (meets : RunMeets (fun k event => some (step d k event)) (fun k event => Below d k event ∧ Roomy d k event) k
      events) : Upheld d sp k.ram [] k events :=
  upheld_of_stacked start.stacked meets

/-! ### One process -/

/-- Process 1 with its frame at `sp`, d0 all ones there. -/
def sampleKernel (sp : Nat) : Kernel :=
  { Kernel.zeroed 0 0 with
    desc := ((Kernel.zeroed 0 0).desc.set32 1 Desc.savedSp sp).set32 1 Desc.sigVec 0x8000
    ram := fun x => if sp ≤ x ∧ x < sp + 4 then 0xFF else 0 }

theorem sampleKernel_start : Start 1 0x1000 (sampleKernel 0x1000) :=
  ⟨by decide, by decide, by decide, by decide, by decide⟩

/-- All below the saved frame worn by a routine. -/
def wornRam : Mem := fun x => if 0x1000 ≤ x ∧ x < 0x1004 then 0xFF else if x < 0x1000 then 0x55 else 0

theorem wornRam_below : Below 1 (step 1 (sampleKernel 0x1000) (.deliver 5)) (.routine wornRam) := by
  intro x high
  have saved : (step 1 (sampleKernel 0x1000) (.deliver 5)).desc.get32 1 Desc.savedSp +
      (if (step 1 (sampleKernel 0x1000) (.deliver 5)).desc.get32 1 Desc.icptDepth = 0 then 0 else frameSize) = 0x1000 := by
    decide
  rw [saved] at high
  have ram : (step 1 (sampleKernel 0x1000) (.deliver 5)).ram =
      pushFrame (sampleKernel 0x1000).ram 0xFBC 0x1000 5 0 0x8000 := deliver_ram (by decide) (by decide)
  rw [ram, pushFrame_outside _ _ _ _ _ (by unfold frameSize; omega)]
  show wornRam x = if 0x1000 ≤ x ∧ x < 0x1004 then 0xFF else 0
  unfold wornRam
  split_ifs
  · rfl
  · omega
  · rfl

/-- The first routine has run when two more signals come, one of them over a routine that waits, and a fourth one stays
pending. Where the second signal comes over the first, the first routine starts behind the second. -/
theorem intercepts_undone_nested :
    Start 1 0x1000 (sampleKernel 0x1000) ∧
      Upheld 1 0x1000 (sampleKernel 0x1000).ram [] (sampleKernel 0x1000)
        [.deliver 5, .routine wornRam, .deliver 6, .deliver 7, .pend 8, .rte, .rte, .rte, .rte, .rte] ∧
      (let k := step 1 (step 1 (step 1 (sampleKernel 0x1000) (.deliver 5)) (.deliver 6)) .rte
       k.desc.get32 1 Desc.savedSp = 0xFBC ∧ getFrameReg k.ram (k.desc.get32 1 Desc.savedSp) frameRegD1 = 5) := by
  refine ⟨sampleKernel_start, intercepts_undone sampleKernel_start ⟨⟨trivial, fun _ => by decide⟩, ?_⟩, by decide⟩
  intro k is
  obtain rfl := Option.some.inj is
  refine ⟨⟨wornRam_below, trivial⟩, ?_⟩
  intro k is
  obtain rfl := Option.some.inj is
  refine ⟨⟨trivial, fun _ => by decide⟩, ?_⟩
  intro k is
  obtain rfl := Option.some.inj is
  refine ⟨⟨trivial, fun _ => by decide⟩, ?_⟩
  exact fun _ _ => ⟨⟨trivial, trivial⟩, fun _ _ => ⟨⟨trivial, trivial⟩, fun _ _ => ⟨⟨trivial, trivial⟩,
    fun _ _ => ⟨⟨trivial, trivial⟩, fun _ _ => ⟨⟨trivial, trivial⟩, fun _ _ => ⟨⟨trivial, trivial⟩, fun _ _ => trivial⟩⟩⟩⟩⟩⟩

/-- Less than 68 bytes below the frame: the new one starts at the top of the address space. -/
theorem intercept_wraps :
    ¬ ∀ (d sp : Nat) (k : Kernel) (events : List Event), Start d sp k →
      RunMeets (fun k event => some (step d k event)) (Below d) k events → Upheld d sp k.ram [] k events := by
  intro always
  have start : Start 1 64 (sampleKernel 64) :=
    ⟨by decide, by decide, by decide, by decide, by decide⟩
  obtain ⟨-, -, restored⟩ := always 1 64 (sampleKernel 64) [.deliver 5] start ⟨trivial, fun _ _ => trivial⟩
  have same := restored.above 0xFFFFFFFC (by decide) (by decide)
  revert same
  decide

end Stack

end Q9OS

import Q9OS.Process.Calls
import Q9OS.Process.Stack
import Q9OS.Process.Undo

/-!
# F$Chain

A process goes on with another program: what the scheduler sees of it, and what
the old program held.
-/

namespace Q9OS.Kernel

open Heap

variable {k : Kernel} {args : ForkArgs}

/-- The kernel once the new program is there. -/
def chained (k : Kernel) (args : ForkArgs) (image : Image) : Kernel :=
  let k := k.setStore (forkImage k.mods k.ram args).2
  let priority := if args.priority ≠ 0 then args.priority else k.desc.get8 k.proc chainPriority
  let built := k.chainStack args image priority
  { k with ram := built.2, desc := chainDesc k.desc k.proc image built.1 priority }

theorem procChain_ok (success : (k.procChain args).1.isOk) :
    k.proc ≠ 0 ∧ ∃ image, (forkImage k.mods k.ram args).1 = .ok image ∧ (k.procChain args).2 = k.chained args image := by
  unfold procChain at *
  by_cases nobody : k.proc = 0
  · rw [if_pos nobody] at success
    cases success
  · rw [if_neg nobody] at success ⊢
    refine ⟨nobody, ?_⟩
    unfold chained
    generalize forkImage k.mods k.ram args = loaded at *
    obtain ⟨result, store⟩ := loaded
    cases result with
    | error code => cases success
    | ok image => exact ⟨image, rfl, rfl⟩

/-! ### The priority of the new program -/

/-- The priority byte a chain asks for. -/
def chainWants (k : Kernel) (args : ForkArgs) : Nat :=
  if args.priority ≠ 0 then args.priority % 256 else k.desc.get8 k.proc Desc.priority

/-- What the scheduler reads of the caller, and what the new program is told in d2. -/
structure ChainScheduled (k : Kernel) (args : ForkArgs) (k' : Kernel) : Prop where
  priority : k'.desc.get8 k.proc Desc.priority = k.chainWants args
  passed : getFrameReg k'.ram (k'.desc.get32 k.proc Desc.savedSp) 2 = k.chainWants args
  state : k'.desc.get8 k.proc Desc.state = k.desc.get8 k.proc Desc.state
  age : k'.desc.get16 k.proc Desc.age = k.desc.get16 k.proc Desc.age
  next : k'.desc.get32 k.proc Desc.next = k.desc.get32 k.proc Desc.next
  prev : k'.desc.get32 k.proc Desc.prev = k.desc.get32 k.proc Desc.prev

/-- What the descriptor of a chained process is told of its program. -/
def ChainOff (o : Nat) : Prop :=
  (Desc.savedSp ≤ o ∧ o < Desc.savedSp + 4) ∨ o = chainPriority ∨ (Desc.signal ≤ o ∧ o < Desc.next) ∨
    (Desc.modHdr ≤ o ∧ o < Desc.modHdr + 4) ∨ (Desc.allocBase ≤ o ∧ o < Desc.allocSize + 4) ∨
    (Desc.entryPc ≤ o ∧ o < Desc.entryPc + 4)

theorem chainDesc_agree (h : Heap) (desc : Nat) (image : Image) (frame priority : Nat) :
    Agree (fun o => ¬ ChainOff o) h (chainDesc h desc image frame priority) := by
  unfold chainDesc setImage
  refine ((((((((Agree.rfl.set32 _ _ ?_).set32 _ _ ?_).set32 _ _ ?_).set32 _ _ ?_).set32 _ _ ?_).set8 _ _ ?_).set16 _ _ ?_).set32
    _ _ ?_).set32 _ _ ?_
  all_goals
    intro x outside
    simp only [ChainOff, Desc.savedSp, chainPriority, Desc.signal, Desc.next, Desc.modHdr, Desc.allocBase,
      Desc.allocSize, Desc.entryPc, Desc.sigVec, Desc.sigDat] at *
    omega

theorem chainDesc_savedSp (h : Heap) (desc : Nat) (image : Image) {frame : Nat} (priority : Nat) (small : frame < 4294967296) :
    (chainDesc h desc image frame priority).get32 desc Desc.savedSp = frame := by
  unfold chainDesc setImage
  dsimp only
  rw [get32_set32_off _ _ _ _ (by decide), get32_set32_off _ _ _ _ (by decide), get32_set16_off _ _ _ _ (by decide),
    get32_set8_off _ _ _ _ (by decide), get32_set32_off _ _ _ _ (by decide), get32_set32_of_lt _ _ _ small]

/-- The value `Q9K_ProcChain` takes for the priority. -/
def chainTakes (k : Kernel) (args : ForkArgs) : Nat :=
  if args.priority ≠ 0 then args.priority else k.desc.get8 k.proc chainPriority

theorem chained_savedSp (image : Image) :
    (k.chained args image).desc.get32 k.proc Desc.savedSp =
      sub32 (sub32 (add32 image.block image.size) args.paramSize) frameSize := by
  apply chainDesc_savedSp
  unfold chainStack sub32
  exact Nat.mod_lt _ (by decide)

theorem chained_d2 (image : Image) :
    getFrameReg (k.chained args image).ram ((k.chained args image).desc.get32 k.proc Desc.savedSp) 2 =
      k.chainTakes args % 4294967296 := by
  rw [chained_savedSp]
  exact getFrameReg_startFrame _ _ rfl rfl

theorem chained_agree (image : Image) : Agree (fun o => ¬ ChainOff o) k.desc (k.chained args image).desc :=
  chainDesc_agree _ _ _ _ _

theorem chainTakes_lt (word : args.priority < 65536) : k.chainTakes args < 65536 := by
  have byte := k.desc.get8_lt k.proc chainPriority
  unfold chainTakes
  split
  · exact word
  · omega

/-- The bytes the scheduler reads are none of those a chain writes. -/
theorem chained_schedule (image : Image) :
    (k.chained args image).desc.get8 k.proc Desc.priority = k.desc.get8 k.proc Desc.priority ∧
      (k.chained args image).desc.get8 k.proc Desc.state = k.desc.get8 k.proc Desc.state ∧
      (k.chained args image).desc.get16 k.proc Desc.age = k.desc.get16 k.proc Desc.age ∧
      (k.chained args image).desc.get32 k.proc Desc.next = k.desc.get32 k.proc Desc.next ∧
      (k.chained args image).desc.get32 k.proc Desc.prev = k.desc.get32 k.proc Desc.prev := by
  have agree := @chained_agree k args image
  have apart : ∀ o, 0x19 ≤ o → o < 0x26 ∨ 0x30 ≤ o ∧ o < 0x38 → ¬ ChainOff o := by
    intro o low range
    simp only [ChainOff, Desc.savedSp, chainPriority, Desc.signal, Desc.next, Desc.modHdr, Desc.allocBase,
      Desc.allocSize, Desc.entryPc]
    omega
  refine ⟨agree.get8 _ ?_, agree.get8 _ ?_, agree.get16 _ ?_, agree.get32 _ ?_, agree.get32 _ ?_⟩
  · exact apart _ (by decide) (by decide)
  · exact apart _ (by decide) (by decide)
  all_goals
    intro x low high
    simp only [Desc.age, Desc.next, Desc.prev] at low high
    exact apart x (by omega) (by omega)

/-- The scheduler's priority is right exactly when the chain asks for the one the process has
already, or for none while the byte in front of it happens to hold the same. -/
theorem chain_priority_iff (word : args.priority < 65536) (success : (k.procChain args).1.isOk) :
    ChainScheduled k args (k.procChain args).2 ↔
      if args.priority ≠ 0 then args.priority = k.desc.get8 k.proc Desc.priority
      else k.desc.get8 k.proc chainPriority = k.desc.get8 k.proc Desc.priority := by
  obtain ⟨-, image, -, is⟩ := procChain_ok success
  have byte := k.desc.get8_lt k.proc Desc.priority
  have taken := @chainTakes_lt k args word
  obtain ⟨priority, state, age, next, prev⟩ := @chained_schedule k args image
  have passed := @chained_d2 k args image
  rw [Nat.mod_eq_of_lt (by omega)] at passed
  rw [is]
  unfold chainTakes at passed
  by_cases asked : args.priority ≠ 0
  · have wants : k.chainWants args = args.priority % 256 := if_pos asked
    rw [if_pos asked] at passed ⊢
    constructor
    · rintro ⟨wanted, told, -, -, -, -⟩
      omega
    · intro same
      exact ⟨by omega, by omega, state, age, next, prev⟩
  · have wants : k.chainWants args = k.desc.get8 k.proc Desc.priority := if_neg asked
    rw [if_neg asked] at passed ⊢
    constructor
    · rintro ⟨-, told, -, -, -, -⟩
      omega
    · intro same
      exact ⟨by omega, by omega, state, age, next, prev⟩

/-- Process 1 of priority 5, which can chain to the module `a`. -/
def chainer : Kernel :=
  { crowded 1 with proc := 1, desc := (crowded 1).desc.set8 1 Desc.priority 5 }

def oneChain (priority : Nat) : ForkArgs := { oneFork with priority := priority }

/-- A chain to the priority the process has. -/
theorem chain_priority_kept :
    (chainer.procChain (oneChain 5)).1.isOk ∧ ChainScheduled chainer (oneChain 5) (chainer.procChain (oneChain 5)).2 := by
  have success : (chainer.procChain (oneChain 5)).1.isOk := by decide
  exact ⟨success, (chain_priority_iff (by decide) success).mpr (by decide)⟩

/-- A chain to priority 9: the scheduler goes on with 5. -/
theorem chain_priority_lost :
    ¬ ∀ (k : Kernel) (args : ForkArgs), args.priority < 65536 → (k.procChain args).1.isOk →
      ChainScheduled k args (k.procChain args).2 := by
  intro always
  have priority := (always chainer (oneChain 9) (by decide) (by decide)).priority
  revert priority
  decide

end Q9OS.Kernel

import Mathlib.Tactic
import Q9OS.Lib.LastWrite
import Q9OS.Lib.Mem
import Q9OS.Lib.Run
import Q9OS.Process.Calls

/-!
# System variables

F$SetSys as a store: what a variable holds over a sequence of calls.
-/

namespace Q9OS

namespace SetSys

/-! ### Single calls -/

/-- The call reads. -/
def Reads (flags : Nat) : Prop := flags / getFlag % 2 = 1

/-- F$SetSys fails, reads or writes. -/
theorem procSetSys_cases (k : Kernel) (vars : Vars) (globals : Nat → Nat) (varCode flags value : Nat) :
    (∃ code, procSetSys k vars globals varCode flags value = (.error code, vars, k) ∨
      procSetSys k vars globals varCode flags value = (.error code, fetched vars varCode, k)) ∨
    (∃ old writable, Reads flags ∧ current k vars globals varCode = some (old, writable) ∧
      procSetSys k vars globals varCode flags value = (.ok (truncate old (sizeOf flags)), fetched vars varCode, k)) ∨
    (∃ old, ¬ Reads flags ∧ callerIsSuper k = true ∧ current k vars globals varCode = some (old, true) ∧
      ¬ (refusesZero varCode ∧ truncate value (sizeOf flags) = 0) ∧
      procSetSys k vars globals varCode flags value =
        (.ok (truncate old (sizeOf flags)),
          assign k (fetched vars varCode) varCode (truncate value (sizeOf flags)))) := by
  unfold procSetSys
  dsimp only
  split
  · exact .inl ⟨_, .inl rfl⟩
  · split
    · exact .inl ⟨_, .inl rfl⟩
    · rename_i old writable known
      split
      · rename_i reads
        exact .inr (.inl ⟨old, writable, reads, known, rfl⟩)
      · rename_i writes
        unfold write
        split
        · exact .inl ⟨_, .inr rfl⟩
        · rename_i super
          split
          · exact .inl ⟨_, .inr rfl⟩
          · rename_i may
            obtain rfl := Bool.eq_true_of_not_eq_false may
            dsimp only
            split
            · exact .inl ⟨_, .inr rfl⟩
            · rename_i accepted
              exact .inr (.inr ⟨old, writes, Bool.eq_true_of_not_eq_false super, known, accepted, rfl⟩)

/-! ### The variables -/

/-- What F$SetSys can change. -/
inductive Var where
  | mallocIncrement
  | tickSeconds
  | timeSlice
  | minPty
  | maxAge
  deriving DecidableEq

def varOf (varCode : Nat) : Option Var :=
  if varCode = varCslMallocIncr then some .mallocIncrement
  else if varCode = varTckSec then some .tickSeconds
  else if varCode = varTslice ∨ varCode = varTsliceHdr then some .timeSlice
  else if varCode = varMinPty then some .minPty
  else if varCode = varMaxAge then some .maxAge
  else none

/-- The scheduler keeps words. -/
def Var.cut : Var → Nat → Nat
  | .minPty, value => value % 65536
  | .maxAge, value => value % 65536
  | _, value => value

/-- The cells of the variables. -/
structure Store where
  vars : Vars
  minPty : Nat
  maxAge : Nat

def Store.value (s : Store) : Var → Nat
  | .mallocIncrement => orDefault s.vars.mallocIncrement 4096
  | .tickSeconds => orDefault s.vars.tickSeconds 100
  | .timeSlice => orDefault s.vars.timeSlice 2
  | .minPty => s.minPty
  | .maxAge => s.maxAge

/-- The size of a global that can only be read: D_Compat and D_Compat2 are bytes, D_SysConf is a word. -/
def ownSize (varCode : Nat) : Option Nat :=
  if varCode = 0x2E ∨ varCode = 0x3E0 then some 1
  else if varCode = 0x38 then some 2
  else if varCode ∈ readonlyVars then some 4
  else none

/-- The number in `size` bytes. -/
def number (m : Mem) (a size : Nat) : Nat :=
  if size = 1 then m.getU8 a else if size = 2 then m.getU16 a else m.getU32 a

/-! ### Sequences of calls -/

/-- A call, with the kernel and the system globals as it finds them. -/
structure Ask where
  kernel : Kernel
  globals : Mem
  varCode : Nat
  flags : Nat
  value : Nat

namespace Ask

/-- The kernel of a call: D_Proc is one of the globals, and the calls before have left the scheduler's words. -/
def kernelWith (ask : Ask) (s : Store) : Kernel :=
  { ask.kernel with proc := ask.globals.getU32 0x4C
                    sched := { ask.kernel.sched with minPty := s.minPty, maxAge := s.maxAge } }

def answer (ask : Ask) (s : Store) : Except Nat Nat × Vars × Kernel :=
  procSetSys (ask.kernelWith s) s.vars ask.globals.getU32 ask.varCode ask.flags ask.value

def after (ask : Ask) (s : Store) : Store :=
  let out := ask.answer s
  ⟨out.2.1, out.2.2.sched.minPty, out.2.2.sched.maxAge⟩

def size (ask : Ask) : Nat := sizeOf ask.flags

/-- The group of the caller, 0 for the kernel itself. -/
def group (ask : Ask) : Nat :=
  if ask.globals.getU32 0x4C = 0 then 0 else ask.kernel.desc.get32 (ask.globals.getU32 0x4C) Desc.user / 65536

/-- The variable a successful call sets, and what to. -/
def sets (ask : Ask) (s : Store) : Option (Var × Nat) :=
  match (ask.answer s).1 with
  | .error _ => none
  | .ok _ =>
    if ask.flags / getFlag % 2 = 1 then none
    else (varOf ask.varCode).map fun v => (v, v.cut (truncate ask.value ask.size))

end Ask

/-- The store, what it held at first, and the successful writes since. -/
structure Kept where
  store : Store
  first : Var → Nat
  writes : List (Var × Nat)

namespace Kept

def start (s : Store) : Kept := ⟨s, s.value, []⟩

/-- The value of the last successful write. -/
def last (s : Kept) (v : Var) : Nat := lastValue (fun w => w.1 = v) Prod.snd s.writes (s.first v)

def step (s : Kept) (ask : Ask) : Option Kept :=
  some ⟨ask.after s.store, s.first, s.writes ++ (ask.sets s.store).toList⟩

end Kept

/-- What a store promises of a call. -/
structure Faithful (s : Kept) (ask : Ask) : Prop where
  globals : ∀ size, ownSize ask.varCode = some size → ask.size = size → Reads ask.flags →
    (ask.answer s.store).1 = .ok (number ask.globals ask.varCode size)
  reads : ∀ v, varOf ask.varCode = some v → ask.size ∈ [1, 2, 4] → Reads ask.flags →
    (ask.answer s.store).1 = .ok (truncate (s.last v) ask.size)
  writes : ∀ old, (ask.answer s.store).1 = .ok old → ¬ Reads ask.flags →
    ∃ v, varOf ask.varCode = some v ∧ old = truncate (s.last v) ask.size ∧
      (ask.after s.store).value = Function.update s.store.value v (v.cut (truncate ask.value ask.size))
  unchanged : (∃ code, (ask.answer s.store).1 = .error code) ∨ Reads ask.flags ∨ ask.group ≠ 0 →
    (ask.after s.store).value = s.store.value
  kernel : (ask.answer s.store).2.2 = ask.kernelWith (ask.after s.store)

/-- F$SetSys reads the low end of the long at the offset. A shorter global stands at its high end. -/
def LowEndAgrees (_ : Kept) (ask : Ask) : Prop :=
  Reads ask.flags →
    ((ask.varCode = 0x2E ∨ ask.varCode = 0x3E0) → ask.size = 1 →
      ask.globals.getU8 ask.varCode = ask.globals.getU8 (ask.varCode + 3)) ∧
    (ask.varCode = 0x38 → ask.size = 2 → ask.globals.getU16 ask.varCode = ask.globals.getU16 (ask.varCode + 2))

/-! ### What the parts of F$SetSys do to the store -/

section

variable {s : Store} {ask : Ask}

theorem current_var (k : Kernel) (vars : Vars) (globals : Nat → Nat) {varCode : Nat} {v : Var} (names : varOf varCode = some v) :
    current k vars globals varCode = some (Store.value ⟨vars, k.sched.minPty, k.sched.maxAge⟩ v, true) := by
  unfold varOf at names
  unfold current
  split_ifs at names ⊢ <;> (obtain rfl := Option.some.inj names; rfl)

/-- Only these can be changed. -/
theorem current_writable {k : Kernel} {vars : Vars} {globals : Nat → Nat} {varCode old : Nat}
    (known : current k vars globals varCode = some (old, true)) :
    ∃ v, varOf varCode = some v ∧ old = Store.value ⟨vars, k.sched.minPty, k.sched.maxAge⟩ v := by
  cases names : varOf varCode with
  | some v =>
    rw [current_var k vars globals names] at known
    exact ⟨v, rfl, (Prod.mk.inj (Option.some.inj known)).1.symm⟩
  | none =>
    unfold varOf at names
    unfold current at known
    split_ifs at names known
    · simp at known
    · obtain ⟨value, -, same⟩ := Option.map_eq_some_iff.mp known
      simp at same

theorem ownSize_mem {varCode size : Nat} (own : ownSize varCode = some size) : varCode ∈ readonlyVars := by
  unfold ownSize at own
  split at own
  · rename_i byte
    rcases byte with rfl | rfl <;> decide
  · split at own
    · rename_i word
      subst word
      decide
    · exact (Option.ite_none_right_eq_some.mp own).1

theorem current_global (k : Kernel) (vars : Vars) (globals : Nat → Nat) {varCode : Nat} (listed : varCode ∈ readonlyVars) :
    current k vars globals varCode = some (globals varCode, false) := by
  unfold readonlyVars at listed
  fin_cases listed <;> rfl

theorem fetched_value (s : Store) (varCode : Nat) :
    Store.value ⟨fetched s.vars varCode, s.minPty, s.maxAge⟩ = s.value := by
  have again (value default : Nat) : orDefault (orDefault value default) default = orDefault value default := by
    unfold orDefault
    split_ifs <;> rfl
  funext v
  unfold fetched
  split_ifs <;> cases v <;> first | rfl | exact again _ _

theorem assign_value (ask : Ask) (s : Store) {varCode value : Nat} {v : Var} (names : varOf varCode = some v)
    (accepted : ¬ (refusesZero varCode ∧ value = 0)) :
    Store.value ⟨(assign (ask.kernelWith s) s.vars varCode value).1,
        (assign (ask.kernelWith s) s.vars varCode value).2.sched.minPty,
        (assign (ask.kernelWith s) s.vars varCode value).2.sched.maxAge⟩ =
      Function.update s.value v (v.cut value) := by
  have kept (default : Nat) (nonzero : value ≠ 0) : orDefault value default = value := if_neg nonzero
  have nonzero (refuses : refusesZero varCode = true) : value ≠ 0 := fun zero => accepted ⟨refuses, zero⟩
  funext w
  unfold varOf at names
  unfold assign
  split_ifs at names ⊢
  · obtain rfl := Option.some.inj names
    have nonzero := nonzero (by simp [refusesZero, *])
    cases w <;> first | exact kept _ nonzero | rfl
  · obtain rfl := Option.some.inj names
    have nonzero := nonzero (by simp [refusesZero, *])
    cases w <;> first | exact kept _ nonzero | rfl
  · rename_i slice
    obtain rfl := Option.some.inj names
    have nonzero := nonzero (by rcases slice with rfl | rfl <;> decide)
    cases w <;> first | exact kept _ nonzero | rfl
  · obtain rfl := Option.some.inj names
    cases w <;> rfl
  · obtain rfl := Option.some.inj names
    cases w <;> rfl

theorem assign_kernel (ask : Ask) (s : Store) (vars : Vars) (varCode value : Nat) :
    (assign (ask.kernelWith s) vars varCode value).2 =
      ask.kernelWith ⟨(assign (ask.kernelWith s) vars varCode value).1,
        (assign (ask.kernelWith s) vars varCode value).2.sched.minPty,
        (assign (ask.kernelWith s) vars varCode value).2.sched.maxAge⟩ := by
  unfold assign
  split_ifs <;> rfl

/-- A call fails, reads or writes. -/
inductive Answered (ask : Ask) (s : Store) : Prop where
  | failed (code : Nat) (is : (ask.answer s).1 = .error code) (value : (ask.after s).value = s.value)
      (kernel : (ask.answer s).2.2 = ask.kernelWith (ask.after s))
  | read (old : Nat) (writable : Bool) (reads : Reads ask.flags)
      (known : current (ask.kernelWith s) s.vars ask.globals.getU32 ask.varCode = some (old, writable))
      (is : (ask.answer s).1 = .ok (truncate old ask.size)) (value : (ask.after s).value = s.value)
      (kernel : (ask.answer s).2.2 = ask.kernelWith (ask.after s))
  | wrote (v : Var) (writes : ¬ Reads ask.flags) (super : ask.group = 0) (names : varOf ask.varCode = some v)
      (is : (ask.answer s).1 = .ok (truncate (s.value v) ask.size))
      (value : (ask.after s).value = Function.update s.value v (v.cut (truncate ask.value ask.size)))
      (kernel : (ask.answer s).2.2 = ask.kernelWith (ask.after s))

theorem super_group {ask : Ask} {s : Store} (super : callerIsSuper (ask.kernelWith s) = true) : ask.group = 0 := by
  unfold callerIsSuper at super
  unfold Ask.group
  split
  · rfl
  · rename_i someone
    rcases Bool.or_eq_true _ _ ▸ super with nobody | zero
    · exact absurd (beq_iff_eq.mp nobody) someone
    · exact beq_iff_eq.mp zero

theorem answered (ask : Ask) (s : Store) : Answered ask s := by
  rcases procSetSys_cases (ask.kernelWith s) s.vars ask.globals.getU32 ask.varCode ask.flags ask.value with
    ⟨code, failed | failed⟩ | ⟨old, writable, reads, known, is⟩ | ⟨old, writes, super, known, accepted, is⟩
  · have is : ask.answer s = (.error code, s.vars, ask.kernelWith s) := failed
    refine .failed code (by rw [is]) ?_ ?_
    all_goals
      unfold Ask.after
      rw [is]
      rfl
  · have is : ask.answer s = (.error code, fetched s.vars ask.varCode, ask.kernelWith s) := failed
    refine .failed code (by rw [is]) ?_ ?_
    · unfold Ask.after
      rw [is]
      exact fetched_value s _
    · unfold Ask.after
      rw [is]
      rfl
  · have is : ask.answer s = (.ok (truncate old ask.size), fetched s.vars ask.varCode, ask.kernelWith s) := is
    refine .read old writable reads known (by rw [is]) ?_ ?_
    · unfold Ask.after
      rw [is]
      exact fetched_value s _
    · unfold Ask.after
      rw [is]
      rfl
  · obtain ⟨v, names, rfl⟩ := current_writable known
    have is : ask.answer s = (.ok (truncate (s.value v) ask.size),
      assign (ask.kernelWith s) (fetched s.vars ask.varCode) ask.varCode (truncate ask.value ask.size)) := is
    refine .wrote v writes (super_group super) names (by rw [is]) ?_ ?_
    · unfold Ask.after
      rw [is, ← fetched_value s ask.varCode]
      exact assign_value ask ⟨fetched s.vars ask.varCode, s.minPty, s.maxAge⟩ names accepted
    · unfold Ask.after
      rw [is]
      exact assign_kernel ask s _ _ _

theorem read_answer {ask : Ask} {s : Store} {old : Nat} {writable : Bool} (reads : Reads ask.flags) (valid : ask.size ∈ [1, 2, 4])
    (known : current (ask.kernelWith s) s.vars ask.globals.getU32 ask.varCode = some (old, writable)) :
    (ask.answer s).1 = .ok (truncate old ask.size) := by
  have accepted : ¬ (sizeOf ask.flags ≠ 1 ∧ sizeOf ask.flags ≠ 2 ∧ sizeOf ask.flags ≠ 4) := by
    rintro ⟨not_byte, not_word, not_long⟩
    rcases List.mem_cons.mp valid with byte | valid
    · exact not_byte byte
    · rcases List.mem_cons.mp valid with word | valid
      · exact not_word word
      · exact not_long (List.mem_singleton.mp valid)
  unfold Ask.answer procSetSys
  rw [if_neg accepted, known]
  exact congrArg Prod.fst (if_pos reads)

/-! ### Numbers in memory -/

theorem truncate_one (value : Nat) : truncate value 1 = value % 256 := rfl

theorem truncate_two (value : Nat) : truncate value 2 = value % 65536 := rfl

theorem truncate_four (value : Nat) : truncate value 4 = value % 4294967296 := rfl

theorem truncate_byte (m : Mem) (a : Nat) : truncate (m.getU32 a) 1 = m.getU8 (a + 3) := by
  have low := m.getU8_lt (a + 3)
  rw [truncate_one]
  unfold Mem.getU32 Mem.getU16
  rw [show a + 2 + 1 = a + 3 from rfl]
  omega

theorem truncate_word (m : Mem) (a : Nat) : truncate (m.getU32 a) 2 = m.getU16 (a + 2) := by
  have low := m.getU16_lt (a + 2)
  rw [truncate_two]
  unfold Mem.getU32
  omega

theorem truncate_long (m : Mem) (a : Nat) : truncate (m.getU32 a) 4 = m.getU32 a := by
  rw [truncate_four]
  exact Nat.mod_eq_of_lt (m.getU32_lt a)

/-! ### Runs -/

/-- Every variable holds what was last written to it. -/
def Recorded (s : Kept) : Prop := s.store.value = s.last

theorem start_recorded (s : Store) : Recorded (Kept.start s) := rfl

theorem last_snoc (s : Kept) (store : Store) (v : Var) (value : Nat) :
    Kept.last ⟨store, s.first, s.writes ++ [(v, value)]⟩ = Function.update s.last v value := by
  funext w
  unfold Kept.last lastValue
  rw [lastWith_append_one]
  by_cases same : v = w
  · subst same
    simp
  · rw [Function.update_of_ne (Ne.symm same)]
    simp [same]

theorem step_recorded {s s' : Kept} {ask : Ask} (recorded : Recorded s) (stepped : s.step ask = some s') : Recorded s' := by
  obtain rfl := Option.some.inj stepped
  have idle (unset : ask.sets s.store = none) (value : (ask.after s.store).value = s.store.value) :
      Recorded ⟨ask.after s.store, s.first, s.writes ++ (ask.sets s.store).toList⟩ := by
    rw [unset, Option.toList_none, List.append_nil]
    exact value.trans recorded
  cases answered ask s.store with
  | failed code is value kernel => exact idle (by rw [Ask.sets, is]) value
  | read old writable reads known is value kernel => exact idle (by rw [Ask.sets, is]; exact if_pos reads) value
  | wrote v writes super names is value kernel =>
    have set : ask.sets s.store = some (v, v.cut (truncate ask.value ask.size)) := by
      rw [Ask.sets, is, names]
      exact if_neg writes
    rw [set]
    exact value.trans ((congrArg (Function.update · v _) recorded).trans (last_snoc s _ v _).symm)

theorem ownSize_cases {varCode size : Nat} (own : ownSize varCode = some size) :
    ((varCode = 0x2E ∨ varCode = 0x3E0) ∧ size = 1) ∨ (varCode = 0x38 ∧ size = 2) ∨ size = 4 := by
  unfold ownSize at own
  split_ifs at own with byte word
  · exact .inl ⟨byte, (Option.some.inj own).symm⟩
  · exact .inr (.inl ⟨word, (Option.some.inj own).symm⟩)
  · exact .inr (.inr (Option.some.inj own).symm)

/-- Only short globals can be read wrong, and where they are it shows. -/
theorem faithful_iff {s : Kept} (recorded : Recorded s) (ask : Ask) : LowEndAgrees s ask ↔ Faithful s ask := by
  have global {size : Nat} (own : ownSize ask.varCode = some size) (is : ask.size = size) (valid : size ∈ [1, 2, 4])
      (reads : Reads ask.flags) : (ask.answer s.store).1 = .ok (truncate (ask.globals.getU32 ask.varCode) size) := by
    have known := current_global (ask.kernelWith s.store) s.store.vars ask.globals.getU32 (ownSize_mem own)
    rw [read_answer reads (is ▸ valid) known, is]
  constructor
  · intro agrees
    have shape := answered ask s.store
    refine ⟨fun size own is reads => ?_, fun v names valid reads => ?_, fun old is writes => ?_, fun idle => ?_, ?_⟩
    · obtain ⟨bytes, words⟩ := agrees reads
      rcases ownSize_cases own with ⟨byte, rfl⟩ | ⟨word, rfl⟩ | rfl
      · rw [global own is (by decide) reads, truncate_byte, ← bytes byte is]
        rfl
      · rw [global own is (by decide) reads, truncate_word, ← words word is]
        rfl
      · rw [global own is (by decide) reads, truncate_long]
        rfl
    · rw [read_answer reads valid (current_var _ _ _ names), ← recorded]
      rfl
    · cases shape with
      | failed code failed value kernel => rw [failed] at is; cases is
      | read old' writable reads known ok value kernel => exact absurd reads writes
      | wrote v _ super names ok value kernel =>
        refine ⟨v, names, ?_, value⟩
        rw [← recorded]
        exact (Except.ok.inj (ok.symm.trans is)).symm
    · cases shape with
      | failed code failed value kernel => exact value
      | read old writable reads known ok value kernel => exact value
      | wrote v writes super names ok value kernel =>
        rcases idle with ⟨code, failed⟩ | reads | outsider
        · rw [failed] at ok
          cases ok
        · exact absurd reads writes
        · exact absurd super outsider
    · cases shape <;> assumption
  · intro faithful reads
    refine ⟨fun byte is => ?_, fun word is => ?_⟩
    · have own : ownSize ask.varCode = some 1 := if_pos byte
      have shown := faithful.globals 1 own is reads
      rw [global own is (by decide) reads, truncate_byte] at shown
      exact (Except.ok.inj shown).symm
    · have own : ownSize ask.varCode = some 2 := by rw [word]; rfl
      have shown := faithful.globals 2 own is reads
      rw [global own is (by decide) reads, truncate_word] at shown
      exact (Except.ok.inj shown).symm

/-- Over every sequence of calls, whoever makes them and whatever the globals hold: F$SetSys is a faithful store
if and only if no read of a short global meets another number at the low end of its long. -/
theorem setSys_faithful_iff (s : Store) (asks : List Ask) :
    RunMeets Kept.step Faithful (Kept.start s) asks ↔ RunMeets Kept.step LowEndAgrees (Kept.start s) asks := by
  have ran (s : Kept) : ∃ s', run Kept.step s asks = some s' := by
    induction asks generalizing s with
    | nil => exact ⟨s, rfl⟩
    | cons ask asks ih => exact ih _
  obtain ⟨s', ran⟩ := ran (Kept.start s)
  exact (runMeets_congr (fun _ _ _ recorded stepped _ => step_recorded recorded stepped)
    (fun _ ask _ recorded _ => faithful_iff recorded ask) (start_recorded s) ran).symm

/-- D_Compat is 1 and D_Julian, right behind it, is 0. -/
def readCompat : Ask := ⟨Kernel.zeroed 0x10000 2, fun a => if a = 0x2E then 1 else 0, 0x2E, getFlag + 1, 0⟩

theorem compat_unread : ¬ RunMeets Kept.step Faithful (Kept.start ⟨⟨0, 0, 0⟩, 0, 0⟩) [readCompat] := by
  rintro ⟨faithful, -⟩
  have shown := faithful.globals 1 rfl rfl rfl
  exact absurd (Except.ok.inj shown) (by decide)

end

end SetSys

end Q9OS

import Mathlib.Tactic
import Q9OS.Lib.Brackets
import Q9OS.Trace.Decode

/-!
# The hooks of the trace

`q9kernel_dbg.c` hooks entry and return of system calls. Each process keeps the
codes of its open calls in its descriptor, for the records of their returns.
-/

namespace Q9OS

namespace Trace

open Brackets

/-! ### What is recorded -/

/-- `Q9TraceFilter`, less the mask of internal functions. -/
structure Filter where
  syscallMask : Nat → UInt8
  pid : UInt16
  user : UInt16
  path : UInt16
  fileId : UInt32
  errorOnly : UInt8
  detail : UInt8

/-- What a hook finds: the caller with its registers, and how the trace is set. -/
structure Moment where
  cur : Nat
  pid : UInt16
  groupUser : UInt32
  tick : UInt32
  enabled : UInt32
  buffer : UInt32
  filter : Filter
  regs : Option Regs
  mem : Nat → UInt8

/-- The arguments of `LogCommon`. -/
structure Asked where
  kind : Kind
  code : UInt8
  depth : Nat
  carry : Bool
  pid : UInt16
  tick : UInt32

def maskTest (mask : Nat → UInt8) (code : UInt8) : Bool := mask (code.toNat / 8) &&& (1 <<< (code &&& 7)) ≠ 0

/-- The calls with a path number in d0. -/
def takesPath (code : UInt8) : Bool := code = 0x82 ∨ (0x88 ≤ code ∧ code ≤ 0x8F)

/-- I$Create and I$Open: the path number is what they return. -/
def givesPath (code : UInt8) : Bool := code = 0x83 ∨ code = 0x84

def dbgPath (kind : Kind) (code : UInt8) (carry : Bool) : Option Regs → UInt16
  | none => 0xFFFF
  | some regs =>
    match kind with
    | .entry => if takesPath code then regs.d0.toUInt16 else 0xFFFF
    | .return =>
      if givesPath code then if carry then 0xFFFF else regs.d0.toUInt16
      else if takesPath code then regs.d0.toUInt16
      else 0xFFFF

/-- Group and user as a byte each, unknown if they do not fit. -/
def Moment.user (m : Moment) : UInt16 :=
  let groupUser := if m.cur ≠ 0 then m.groupUser.toNat else 0
  let group := groupUser / 65536
  let user := groupUser % 65536
  if group ≤ 255 ∧ user ≤ 255 then (group * 256 + user).toUInt16 else 0

/-- `Q9TraceShouldLog` for entries and returns. -/
def shouldLog (f : Filter) (kind : Kind) (code : UInt8) (pid user path : UInt16) (fileId : UInt32) (carry : Bool) : Bool :=
  if ¬ maskTest f.syscallMask code then false
  else if f.pid ≠ 0 ∧ f.pid ≠ pid then false
  else if f.user ≠ 0 ∧ f.user ≠ user then false
  else if f.path ≠ 0xFFFF ∧ path ≠ 0xFFFF ∧ f.path ≠ path then false
  else if f.fileId ≠ 0 ∧ fileId ≠ 0 ∧ f.fileId ≠ fileId then false
  else if f.errorOnly ≠ 0 ∧ kind = .return ∧ ¬ carry then false
  else true

/-- The record that is asked for. -/
def Moment.event (m : Moment) (a : Asked) : Event :=
  ⟨a.kind, a.code, ⟨a.depth % 16, Nat.mod_lt _ (by decide)⟩, a.carry, a.pid, a.tick, m.filter.detail.toNat, m.regs, m.mem⟩

/-- `LogCommon` up to the ring. -/
def Moment.logCommon (m : Moment) (a : Asked) : Option Event :=
  if m.enabled = 0 then none
  else if m.buffer = 0 then none
  else if ¬ shouldLog m.filter a.kind a.code a.pid m.user (dbgPath a.kind a.code a.carry m.regs) 0 a.carry then none
  else some (m.event a)

/-- `Q9TraceFilterInit`: everything is recorded. -/
def filterInit : Filter := ⟨fun _ => 0xFF, 0, 0, 0xFFFF, 0, 0, 1⟩

/-! ### The hooks -/

def trapMaxDepth : Nat := 8

/-- F$Q9Dbg, never recorded itself. -/
def callCodeSelf : UInt8 := 0x7F

/-- F$Wait, F$Chain, F$Exit, F$Sleep, F$RTE and F$NProc do not come back through the hook. -/
def dbgNoReturn (code : UInt8) : Bool := code ∈ ([0x04, 0x05, 0x06, 0x0A, 0x1E, 0x2D] : List UInt8)

/-- Depth and codes of the open calls in a descriptor. -/
structure Nest where
  depth : UInt8
  codes : Nat → UInt8

/-- What a hook asks `LogCommon` for, unless the call is F$Q9Dbg. -/
def asks (kind : Kind) (m : Moment) (code : UInt8) (depth : Nat) (carry : Bool) (pid : UInt16) : Option Asked :=
  if code ≠ callCodeSelf then some ⟨kind, code, depth, carry, pid, m.tick⟩ else none

structure Hooks where
  nest : Nat → Nest
  trapDepth : UInt32
  trapCode : Nat → UInt32
  trace : Traced

namespace Hooks

def log (s : Hooks) (m : Moment) (asked : Option Asked) : Hooks :=
  match asked.bind m.logCommon with
  | none => s
  | some e => { s with trace := (s.trace.step (.log e)).getD s.trace }

def setNest (s : Hooks) (cur : Nat) (nest : Nest) : Hooks := { s with nest := Function.update s.nest cur nest }

/-- The depth an entry is recorded at: what stands in the descriptor, cut. -/
def entryDepth (nest : Nest) : Nat :=
  if nest.depth.toNat ≥ trapMaxDepth then trapMaxDepth - 1 else nest.depth.toNat

/-- `Q9K_DbgLogEntryImpl`, with what it asks `LogCommon` for. -/
def logEntry (s : Hooks) (m : Moment) (code : UInt8) : Option Asked × Hooks :=
  if m.cur ≠ 0 then
    let nest := s.nest m.cur
    let depth := entryDepth nest
    let asked := asks .entry m code depth false m.pid
    (asked,
      if ¬ dbgNoReturn code ∧ depth + 1 < trapMaxDepth then
        (s.log m asked).setNest m.cur ⟨(depth + 1).toUInt8, Function.update nest.codes depth code⟩
      else s.log m asked)
  else
    let depth := s.trapDepth.toNat
    let asked := if depth < trapMaxDepth then asks .entry m code depth false 0 else none
    let s' := if depth < trapMaxDepth then { s with trapCode := Function.update s.trapCode depth code.toUInt32 } else s
    (asked, { s'.log m asked with trapDepth := s.trapDepth + 1 })

/-- `Q9K_DbgLogReturnImpl`, with what it asks `LogCommon` for. -/
def logReturn (s : Hooks) (m : Moment) (carry : Bool) : Option Asked × Hooks :=
  if m.cur ≠ 0 then
    let nest := s.nest m.cur
    if nest.depth = 0 ∨ nest.depth.toNat > trapMaxDepth then (none, s)
    else
      let depth := nest.depth.toNat - 1
      let asked := asks .return m (nest.codes depth) depth carry m.pid
      (asked, (s.log m asked).setNest m.cur ⟨depth.toUInt8, nest.codes⟩)
  else if s.trapDepth = 0 then (none, s)
  else
    let depth := s.trapDepth.toNat - 1
    let asked := if depth < trapMaxDepth then asks .return m (s.trapCode depth).toUInt8 depth carry 0 else none
    (asked, { s.log m asked with trapDepth := s.trapDepth - 1 })

end Hooks

/-- The hooks as the dispatcher calls them, for whatever process runs. -/
inductive Hooked where
  | entry (m : Moment) (code : UInt8)
  | return (m : Moment) (carry : Bool)

def Hooks.step (s : Hooks) : Hooked → Hooks
  | .entry m code => (s.logEntry m code).2
  | .return m carry => (s.logReturn m carry).2

def Hooks.after (s : Hooks) (events : List Hooked) : Hooks := events.foldl Hooks.step s

/-- What an event is to the process with descriptor `p`. -/
def Hooked.mark (p : Nat) : Hooked → Option (Brackets.Mark UInt8)
  | .entry m code => if m.cur = p then some (if dbgNoReturn code then .plain else .opening code) else none
  | .return m _ => if m.cur = p then some .closing else none

def marks (p : Nat) (events : List Hooked) : List (Brackets.Mark UInt8) := events.filterMap (Hooked.mark p)

/-- `front` ends inside the call that was entered after `before`, and all it called came back. -/
structure Inside (p : Nat) (front before : List Hooked) (m : Moment) (code : UInt8) : Prop where
  cur : m.cur = p
  comes : dbgNoReturn code = false
  nested : ∃ inside, front = before ++ .entry m code :: inside ∧ Nested (marks p inside)

/-- Every record of a return of `p` has code and depth of the entry it belongs to. -/
def Matched (p : Nat) (s : Hooks) (events : List Hooked) : Prop :=
  ∀ front m carry after, events = front ++ .return m carry :: after → m.cur = p →
    ∃ before m' code, Inside p front before m' code ∧
      ∀ r, ((s.after front).logReturn m carry).1.bind m.logCommon = some r →
        ∃ a, ((s.after before).logEntry m' code).1 = some a ∧ (m'.event a).code = r.code ∧ (m'.event a).depth = r.depth

/-- The process is between its calls, and its depth is 0. -/
def Closed (p : Nat) (s : Hooks) (events : List Hooked) : Prop :=
  ∀ front, front <+: events → Nested (marks p front) → ((s.after front).nest p).depth = 0

/-! ### Steps -/

variable {p : Nat} {s : Hooks} {m : Moment}

@[simp]
theorem log_nest (s : Hooks) (m : Moment) (asked : Option Asked) : (s.log m asked).nest = s.nest := by
  unfold Hooks.log
  split <;> rfl

@[simp]
theorem setNest_self (s : Hooks) (nest : Nest) : (s.setNest p nest).nest p = nest := Function.update_self ..

theorem setNest_other (s : Hooks) (nest : Nest) (other : m.cur ≠ p) : (s.setNest m.cur nest).nest p = s.nest p :=
  Function.update_of_ne other.symm ..

theorem logEntry_other (code : UInt8) (other : m.cur ≠ p) : (s.logEntry m code).2.nest p = s.nest p := by
  unfold Hooks.logEntry
  split
  · dsimp only
    split
    · rw [setNest_other _ _ other, log_nest]
    · rw [log_nest]
  · dsimp only
    rw [log_nest]
    split <;> rfl

theorem logReturn_other (carry : Bool) (other : m.cur ≠ p) : (s.logReturn m carry).2.nest p = s.nest p := by
  unfold Hooks.logReturn
  split
  · dsimp only
    split
    · rfl
    · rw [setNest_other _ _ other, log_nest]
  · split
    · rfl
    · dsimp only
      rw [log_nest]

/-- The hooks of other processes leave the nesting of this one alone. -/
theorem step_other {event : Hooked} (other : event.mark p = none) : (s.step event).nest p = s.nest p := by
  cases event with
  | entry m code =>
    refine logEntry_other code fun same => ?_
    simp [Hooked.mark, same] at other
  | «return» m carry =>
    refine logReturn_other carry fun same => ?_
    simp [Hooked.mark, same] at other

/-- An entry of the process: recorded at its depth, and kept if there is room. -/
theorem logEntry_self (s : Hooks) (code : UInt8) (live : m.cur ≠ 0) :
    (s.logEntry m code).1 = asks .entry m code (Hooks.entryDepth (s.nest m.cur)) false m.pid ∧
      (s.logEntry m code).2.nest m.cur =
        if ¬ dbgNoReturn code ∧ Hooks.entryDepth (s.nest m.cur) + 1 < trapMaxDepth then
          ⟨(Hooks.entryDepth (s.nest m.cur) + 1).toUInt8,
            Function.update (s.nest m.cur).codes (Hooks.entryDepth (s.nest m.cur)) code⟩
        else s.nest m.cur := by
  unfold Hooks.logEntry
  rw [if_pos live]
  refine ⟨rfl, ?_⟩
  dsimp only
  split
  · rw [setNest_self]
  · rw [log_nest]

theorem logReturn_self (carry : Bool) (live : m.cur ≠ 0) (few : (s.nest m.cur).depth.toNat < trapMaxDepth)
    (some_open : (s.nest m.cur).depth ≠ 0) :
    (s.logReturn m carry).1 = asks .return m ((s.nest m.cur).codes ((s.nest m.cur).depth.toNat - 1))
        ((s.nest m.cur).depth.toNat - 1) carry m.pid ∧
      (s.logReturn m carry).2.nest m.cur = ⟨((s.nest m.cur).depth.toNat - 1).toUInt8, (s.nest m.cur).codes⟩ := by
  have kept : ¬ ((s.nest m.cur).depth = 0 ∨ (s.nest m.cur).depth.toNat > trapMaxDepth) := by
    rintro (none_open | beyond)
    · exact some_open none_open
    · omega
  unfold Hooks.logReturn
  rw [if_pos live, if_neg kept]
  exact ⟨rfl, setNest_self _ _⟩

theorem logReturn_idle (carry : Bool) (live : m.cur ≠ 0) (none_open : (s.nest m.cur).depth = 0) :
    s.logReturn m carry = (none, s) := by
  unfold Hooks.logReturn
  rw [if_pos live, if_pos (.inl none_open)]

/-! ### The nesting kept in the descriptor is the true one -/

/-- The codes of the open calls, outermost first in the descriptor. -/
def Stacked (codes : Nat → UInt8) : List UInt8 → Prop
  | [] => True
  | code :: stack => codes stack.length = code ∧ Stacked codes stack

theorem Stacked.update {codes : Nat → UInt8} {stack : List UInt8} (stacked : Stacked codes stack) {at_ : Nat}
    (above : stack.length ≤ at_) (code : UInt8) : Stacked (Function.update codes at_ code) stack := by
  induction stack with
  | nil => trivial
  | cons c stack ih =>
    obtain ⟨top, rest⟩ := stacked
    rw [List.length_cons] at above
    have below : stack.length ≠ at_ := by omega
    exact ⟨(Function.update_of_ne below ..).trans top, ih rest (by omega)⟩

structure Nest.Holds (nest : Nest) (stack : List UInt8) : Prop where
  depth : nest.depth.toNat = stack.length
  codes : Stacked nest.codes stack

theorem Nest.Holds.entryDepth_eq {nest : Nest} {stack : List UInt8} (holds : nest.Holds stack)
    (fits : stack.length < trapMaxDepth) : Hooks.entryDepth nest = stack.length := by
  unfold Hooks.entryDepth
  rw [holds.depth, if_neg (Nat.not_le.mpr fits)]

theorem Nest.Holds.push {nest : Nest} {stack : List UInt8} (holds : nest.Holds stack) (code : UInt8)
    (room : stack.length + 1 < trapMaxDepth) :
    (Nest.mk (stack.length + 1).toUInt8 (Function.update nest.codes stack.length code)).Holds (code :: stack) := by
  have small : stack.length + 1 < 256 := room.trans (by decide)
  refine ⟨?_, Function.update_self .., holds.codes.update (Nat.le_refl _) code⟩
  rw [List.length_cons]
  exact Nat.mod_eq_of_lt small

theorem Nest.Holds.pop {nest : Nest} {code : UInt8} {stack : List UInt8} (holds : nest.Holds (code :: stack))
    (fits : stack.length < trapMaxDepth) : (Nest.mk stack.length.toUInt8 nest.codes).Holds stack := by
  have small : stack.length < 256 := fits.trans (by decide)
  exact ⟨Nat.mod_eq_of_lt small, holds.codes.2⟩

theorem Nest.Holds.depth_ne {nest : Nest} {code : UInt8} {stack : List UInt8} (holds : nest.Holds (code :: stack)) :
    nest.depth ≠ 0 := by
  intro zero
  have depth := holds.depth
  rw [zero, List.length_cons] at depth
  exact absurd depth (by simp)

/-- What a hook call is to a process: a call of another one, an entry that does not come back or one that
does, or a return. -/
theorem open_cases {event : Hooked} {stack out : List UInt8} (opened : openAfter stack (event.mark p).toList = some out) :
    (event.mark p = none ∧ out = stack) ∨
      (∃ m code, event = .entry m code ∧ m.cur = p ∧ dbgNoReturn code = true ∧ out = stack) ∨
      (∃ m code, event = .entry m code ∧ m.cur = p ∧ dbgNoReturn code = false ∧ out = code :: stack) ∨
      ∃ m carry code, event = .return m carry ∧ m.cur = p ∧ stack = code :: out := by
  cases marked : event.mark p with
  | none =>
    rw [marked] at opened
    exact .inl ⟨rfl, (Option.some.inj opened).symm⟩
  | some mark =>
    rw [marked] at opened
    cases event with
    | entry m code =>
      obtain ⟨cur, named⟩ := Option.ite_none_right_eq_some.mp marked
      cases gone : dbgNoReturn code with
      | true =>
        rw [gone] at named
        obtain rfl := Option.some.inj named
        exact .inr (.inl ⟨m, code, rfl, cur, gone, (Option.some.inj opened).symm⟩)
      | false =>
        rw [gone] at named
        obtain rfl := Option.some.inj named
        exact .inr (.inr (.inl ⟨m, code, rfl, cur, gone, (Option.some.inj opened).symm⟩))
    | «return» m carry =>
      obtain ⟨cur, named⟩ := Option.ite_none_right_eq_some.mp marked
      obtain rfl := Option.some.inj named
      cases stack with
      | nil => cases opened
      | cons code stack =>
        obtain rfl := Option.some.inj opened
        exact .inr (.inr (.inr ⟨m, carry, code, rfl, cur, rfl⟩))

theorem logEntry_gone {code : UInt8} (live : m.cur ≠ 0) (gone : dbgNoReturn code = true) :
    (s.step (.entry m code)).nest m.cur = s.nest m.cur := by
  obtain ⟨-, kept⟩ := logEntry_self s code live
  rw [gone, if_neg (by simp)] at kept
  exact kept

theorem step_holds {event : Hooked} {stack out : List UInt8} (live : p ≠ 0) (holds : (s.nest p).Holds stack)
    (fits : stack.length < trapMaxDepth) (opened : openAfter stack (event.mark p).toList = some out)
    (few : out.length < trapMaxDepth) : ((s.step event).nest p).Holds out := by
  obtain ⟨other, rfl⟩ | ⟨m, code, rfl, rfl, gone, rfl⟩ | ⟨m, code, rfl, rfl, comes, rfl⟩ | ⟨m, carry, code, rfl, rfl, rfl⟩ :=
    open_cases opened
  · rw [step_other other]
    exact holds
  · rw [logEntry_gone live gone]
    exact holds
  · obtain ⟨-, kept⟩ := logEntry_self s code live
    rw [holds.entryDepth_eq fits, if_pos ⟨by simp [comes], few⟩] at kept
    exact kept.symm ▸ holds.push code few
  · have few_now : (s.nest m.cur).depth.toNat < trapMaxDepth := holds.depth ▸ fits
    obtain ⟨-, kept⟩ := logReturn_self carry live few_now holds.depth_ne
    rw [holds.depth] at kept
    exact kept.symm ▸ holds.pop few

/-- With too many calls open some are not kept; there are never more kept than open. -/
structure Nest.Within (nest : Nest) (stack : List UInt8) : Prop where
  below : nest.depth.toNat ≤ stack.length
  few : nest.depth.toNat < trapMaxDepth

theorem step_within {event : Hooked} {stack out : List UInt8} (live : p ≠ 0) (within : (s.nest p).Within stack)
    (opened : openAfter stack (event.mark p).toList = some out) : ((s.step event).nest p).Within out := by
  obtain ⟨below, few⟩ := within
  obtain ⟨other, rfl⟩ | ⟨m, code, rfl, rfl, gone, rfl⟩ | ⟨m, code, rfl, rfl, comes, rfl⟩ | ⟨m, carry, code, rfl, rfl, rfl⟩ :=
    open_cases opened
  · rw [step_other other]
    exact ⟨below, few⟩
  · rw [logEntry_gone live gone]
    exact ⟨below, few⟩
  · obtain ⟨-, kept⟩ := logEntry_self s code live
    have uncut : Hooks.entryDepth (s.nest m.cur) = (s.nest m.cur).depth.toNat := if_neg (Nat.not_le.mpr few)
    rw [uncut] at kept
    show ((s.logEntry m code).2.nest m.cur).Within (code :: stack)
    rw [kept]
    split
    · rename_i pushed
      have small : (s.nest m.cur).depth.toNat + 1 < 256 := pushed.2.trans (by decide)
      have depth : ((s.nest m.cur).depth.toNat + 1).toUInt8.toNat = (s.nest m.cur).depth.toNat + 1 := Nat.mod_eq_of_lt small
      exact ⟨depth.le.trans (Nat.succ_le_succ below), depth.trans_lt pushed.2⟩
    · exact ⟨below.trans (Nat.le_succ _), few⟩
  · show ((s.logReturn m carry).2.nest m.cur).Within out
    by_cases none_open : (s.nest m.cur).depth = 0
    · rw [logReturn_idle carry live none_open]
      exact ⟨by simp [none_open], few⟩
    · obtain ⟨-, kept⟩ := logReturn_self carry live few none_open
      have depth : ((s.nest m.cur).depth.toNat - 1).toUInt8.toNat = (s.nest m.cur).depth.toNat - 1 :=
        Nat.mod_eq_of_lt (by have := (s.nest m.cur).depth.toNat_lt; omega)
      rw [kept]
      rw [List.length_cons] at below
      exact ⟨depth.le.trans (by omega), depth.trans_lt (by omega)⟩

/-! ### Runs -/

theorem marks_append (p : Nat) (front back : List Hooked) : marks p (front ++ back) = marks p front ++ marks p back :=
  List.filterMap_append

theorem marks_cons (p : Nat) (event : Hooked) (events : List Hooked) :
    marks p (event :: events) = (event.mark p).toList ++ marks p events := by
  unfold marks
  rw [List.filterMap_cons]
  cases event.mark p <;> rfl

theorem marks_singleton (p : Nat) (event : Hooked) : marks p [event] = (event.mark p).toList := by
  rw [marks_cons]
  exact List.append_nil _

theorem after_snoc (s : Hooks) (front : List Hooked) (event : Hooked) :
    s.after (front ++ [event]) = (s.after front).step event := by
  unfold Hooks.after
  rw [List.foldl_append]
  rfl

/-- The process keeps its open calls, as long as they are not too many. -/
theorem after_holds {events : List Hooked} (live : p ≠ 0) (fresh : (s.nest p).depth = 0) {stack : List UInt8}
    (opened : openAfter [] (marks p events) = some stack) (shallow : Shallow (trapMaxDepth - 1) (marks p events)) :
    ((s.after events).nest p).Holds stack := by
  induction events using List.reverseRecOn generalizing stack with
  | nil =>
    obtain rfl := Option.some.inj opened
    exact ⟨congrArg UInt8.toNat fresh, trivial⟩
  | append_singleton front event ih =>
    have few := shallow _ _ (List.prefix_refl _) opened
    rw [marks_append, marks_singleton] at opened shallow
    obtain ⟨mid, front_open, opened⟩ := openAfter_front opened
    have fits := shallow _ _ (List.prefix_append _ _) front_open
    rw [after_snoc]
    exact step_holds live (ih front_open shallow.front) (Nat.lt_succ_of_le fits) opened (Nat.lt_succ_of_le few)

theorem after_within {events : List Hooked} (live : p ≠ 0) (fresh : (s.nest p).depth = 0) {stack : List UInt8}
    (opened : openAfter [] (marks p events) = some stack) : ((s.after events).nest p).Within stack := by
  induction events using List.reverseRecOn generalizing stack with
  | nil =>
    obtain rfl := Option.some.inj opened
    show (s.nest p).Within []
    exact ⟨by simp [fresh], by simp [fresh, trapMaxDepth]⟩
  | append_singleton front event ih =>
    rw [marks_append, marks_singleton] at opened
    obtain ⟨mid, front_open, opened⟩ := openAfter_front opened
    rw [after_snoc]
    exact step_within live (ih front_open) opened

/-- Where a call is open, it was entered, and since then all it called came back. -/
theorem inside_of_open {front : List Hooked} {code : UInt8} {stack : List UInt8}
    (opened : openAfter [] (marks p front) = some (code :: stack)) :
    ∃ before m, Inside p front before m code ∧ openAfter [] (marks p before) = some stack := by
  induction h : front.length using Nat.strong_induction_on generalizing front code stack with
  | _ n ih =>
    subst h
    cases front using List.reverseRecOn with
    | nil => cases opened
    | append_singleton front event =>
      rw [marks_append, marks_singleton] at opened
      obtain ⟨mid, front_open, opened⟩ := openAfter_front opened
      have shorter : front.length < (front ++ [event]).length := by simp
      -- An event that leaves the stack alone lengthens what is inside.
      have longer (same : mid = code :: stack) (idle : openAfter [] (event.mark p).toList = some []) :
          ∃ before m, Inside p (front ++ [event]) before m code ∧ openAfter [] (marks p before) = some stack := by
        obtain ⟨before, m, ⟨cur, comes, inside, rfl, nested⟩, before_open⟩ := ih _ shorter (same ▸ front_open) rfl
        refine ⟨before, m, ⟨cur, comes, inside ++ [event], by simp, ?_⟩, before_open⟩
        show openAfter [] (marks p (inside ++ [event])) = some []
        rw [marks_append, marks_singleton, openAfter_append, nested]
        exact idle
      obtain ⟨other, same⟩ | ⟨m, c, rfl, cur, gone, same⟩ | ⟨m, c, rfl, cur, comes, same⟩ | ⟨m, carry, c, rfl, cur, same⟩ :=
        open_cases opened
      · exact longer same.symm (by rw [other]; rfl)
      · exact longer same.symm (by rw [Hooked.mark, if_pos cur, gone]; rfl)
      · obtain ⟨rfl, rfl⟩ := List.cons.inj same
        exact ⟨front, m, ⟨cur, comes, [], rfl, rfl⟩, front_open⟩
      · obtain ⟨b₁, m₁, ⟨cur₁, comes₁, inside₁, rfl, nested₁⟩, open₁⟩ := ih _ shorter (same ▸ front_open) rfl
        have shorter₁ : b₁.length < (b₁ ++ Hooked.entry m₁ c :: inside₁ ++ [Hooked.return m carry]).length := by simp
        obtain ⟨before, m₀, ⟨cur₀, comes₀, inside₀, rfl, nested₀⟩, open₀⟩ := ih _ shorter₁ open₁ rfl
        refine ⟨before, m₀, ⟨cur₀, comes₀, inside₀ ++ Hooked.entry m₁ c :: (inside₁ ++ [Hooked.return m carry]), by simp, ?_⟩,
          open₀⟩
        rw [marks_append, marks_cons, marks_append, marks_singleton, Hooked.mark, Hooked.mark, if_pos cur₁, if_pos cur, comes₁]
        exact nested₀.append (nested₁.enclose c)

/-! ### Entries and returns -/

theorem logCommon_event {a : Asked} {r : Event} (logged : m.logCommon a = some r) : r = m.event a := by
  unfold Moment.logCommon at logged
  split at logged
  · cases logged
  · split at logged
    · cases logged
    · split at logged
      · cases logged
      · exact (Option.some.inj logged).symm

theorem closed (s : Hooks) (live : p ≠ 0) (fresh : (s.nest p).depth = 0) (events : List Hooked) : Closed p s events := by
  rintro front - nested
  have below := (after_within live fresh nested).below
  exact UInt8.toNat_inj.mp (Nat.le_zero.mp below)

/-- While not too many calls of the process are open, every return is recorded as its call was entered. -/
theorem returns_matched (s : Hooks) (p : Nat) (live : p ≠ 0) (fresh : (s.nest p).depth = 0) (events : List Hooked)
    (nested : Nested (marks p events)) :
    Closed p s events ∧ (Shallow (trapMaxDepth - 1) (marks p events) → Matched p s events) := by
  refine ⟨closed s live fresh events, ?_⟩
  rintro shallow front m carry after rfl rfl
  have returned : (Hooked.return m carry).mark m.cur = some .closing := if_pos rfl
  rw [marks_append, marks_cons, returned] at nested shallow
  obtain ⟨mid, front_open, rest⟩ := openAfter_front nested
  cases mid with
  | nil => cases rest
  | cons code stack =>
    obtain ⟨before, m', inside, before_open⟩ := inside_of_open front_open
    refine ⟨before, m', code, inside, ?_⟩
    have few := shallow _ _ (List.prefix_append _ _) front_open
    rw [List.length_cons] at few
    have held := after_holds live fresh front_open shallow.front
    have fits : ((s.after front).nest m.cur).depth.toNat < trapMaxDepth := by
      rw [held.depth, List.length_cons]
      exact Nat.lt_of_le_of_lt few (by decide)
    obtain ⟨asked, -⟩ := logReturn_self carry live fits held.depth_ne
    rw [held.depth, List.length_cons, Nat.add_sub_cancel, held.codes.1] at asked
    obtain ⟨middle, front_eq, -⟩ := inside.nested
    have shallow_before : Shallow (trapMaxDepth - 1) (marks m.cur before) := by
      rw [front_eq, marks_append] at shallow
      exact shallow.front.front
    have held' := after_holds live fresh before_open shallow_before
    have cur' := inside.cur
    obtain ⟨entered, -⟩ := logEntry_self (s.after before) code (cur'.symm ▸ live : m'.cur ≠ 0)
    rw [cur', held'.entryDepth_eq (by omega)] at entered
    intro r written
    rw [asked] at written
    obtain ⟨a, asks_eq, logged⟩ := Option.bind_eq_some_iff.mp written
    obtain ⟨shown, same⟩ := Option.ite_none_right_eq_some.mp asks_eq
    obtain rfl := Option.some.inj same
    obtain rfl := logCommon_event logged
    exact ⟨_, entered.trans (if_pos shown), rfl, rfl⟩

/-! ### A chain of calls -/

/-- A process at $8000 with the trace on. -/
def traced : Moment := ⟨0x8000, 5, 0, 1234, 1, 0x10000, filterInit, none, fun _ => 0⟩

def untouched : Hooks := ⟨fun _ => ⟨0, fun _ => 0⟩, 0, fun _ => 0, Traced.start (fun _ => 0) 65536 .overwrite⟩

/-- `n` F$ID calls, each within the one before. -/
def chain (n : Nat) : List Hooked := List.replicate n (.entry traced 0x0C) ++ List.replicate n (.return traced false)

theorem returns_matched_two : Matched 0x8000 untouched (chain 2) :=
  (returns_matched untouched 0x8000 (by decide) rfl (chain 2) rfl).2 (shallow_of_length (by decide))

/-- The return of the eighth call is recorded as one of the seventh. -/
theorem chain_unmatched : Nested (marks 0x8000 (chain 8)) ∧ ¬ Matched 0x8000 untouched (chain 8) := by
  refine ⟨rfl, fun matched => ?_⟩
  obtain ⟨before, m, code, ⟨-, -, inside, front_eq, nested⟩, recorded⟩ :=
    matched (List.replicate 8 (.entry traced 0x0C)) traced false (List.replicate 7 (.return traced false)) rfl rfl
  obtain ⟨count, before_eq, rest_eq⟩ := List.replicate_eq_append_iff.mp front_eq
  rw [List.length_cons] at count rest_eq
  obtain ⟨entered, inside_eq⟩ := List.cons.inj rest_eq
  have few : inside.length < 8 := by omega
  -- Nothing is open inside, and there are entries only.
  have none_inside : inside.length = 0 := by
    have unclosed : ∀ n < 8, Nested (marks 0x8000 (List.replicate n (.entry traced 0x0C))) → n = 0 := by decide
    rw [inside_eq] at nested
    exact unclosed _ few nested
  have seven : before.length = 7 := by omega
  rw [seven] at before_eq
  obtain ⟨rfl, rfl⟩ := Hooked.entry.inj entered
  obtain rfl := before_eq
  obtain ⟨a, asked, -, depth⟩ := recorded ⟨.return, 0x0C, 6, false, 5, 1234, 1, none, fun _ => 0⟩ rfl
  obtain rfl := Option.some.inj asked
  exact absurd depth (by decide)

end Trace

end Q9OS

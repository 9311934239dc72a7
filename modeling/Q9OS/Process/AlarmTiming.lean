import Mathlib.Tactic
import Mathlib.Algebra.Order.Floor.Div
import Q9OS.Lib.Run
import Q9OS.Process.Alarms

/-!
# When alarms fire

F$Alarm over runs: calls, ticks and anything else that leaves an alarm alone,
in any order. IDs are handed out from a counter that wraps, and nothing keeps a
new one apart from an ID still in use; where two alarms of the caller share
one, A$Delete takes both.
-/

namespace Q9OS.Alarms

/-! ### Runs -/

/-- The calls of F$Alarm by the running process, the tick, and whatever the kernel does besides. -/
inductive Event where
  | set (signal : UInt16) (interval cycle : UInt32)
  | atJul (signal : UInt16) (day sec : UInt32)
  | atDate (signal : UInt16) (packed clock : UInt32)
  | reset (id : Nat) (signal : UInt16) (interval : UInt32)
  | delete (id : Nat)
  | tick (dev : Devices)
  | meanwhile (next : Kernel)

def step (k : Kernel) : Event → Option Kernel
  | .set signal interval cycle => some (k.alarmSet signal.toNat interval.toNat cycle.toNat).2
  | .atJul signal day sec => some (k.alarmSetAbsolute signal.toNat day.toNat sec.toNat).2
  | .atDate signal packed clock => some (k.alarmAtDate signal.toNat packed clock).2
  | .reset id signal interval => some (k.alarmReset id signal.toNat interval.toNat).2
  | .delete id => some (k.alarmDelete id).2
  | .tick dev => some (k.alarmTick dev)
  | .meanwhile next => some next

def Event.ticks : Event → Nat
  | .tick _ => 1
  | _ => 0

def ticks (events : List Event) : Nat := (events.map Event.ticks).sum

/-- The process number under which the running process sets alarms. -/
def caller (k : Kernel) : Nat := k.procIdForDesc k.proc

/-- The event is not about the alarms of `pid` with this ID. -/
def Spares (pid id : Nat) (k : Kernel) : Event → Prop
  | .reset named _ _ => named = id → caller k ≠ pid
  | .delete named => named = id ∨ named = 0 → caller k ≠ pid
  | .meanwhile next => ∀ j < alarmSlots, (k.alarms.slots j).pid = pid → (k.alarms.slots j).id = id →
      next.alarms.slots j = k.alarms.slots j
  | _ => True

/-- What an event that spares an alarm leaves in its slot. -/
def after (k : Kernel) : Event → Alarm → Alarm
  | .tick dev => ticked (now k dev)
  | _ => fun alarm => alarm

/-! ### The calls -/

/-- A new alarm went into the free slot `i`. -/
structure Stored (k k' : Kernel) (i : Nat) (alarm : Alarm) : Prop where
  slot : i < alarmSlots
  unused : (k.alarms.slots i).id = 0
  live : alarm.id ≠ 0
  slots : ∀ j, k'.alarms.slots j = if j = i then alarm else k.alarms.slots j
  clock : k'.clock = k.clock

theorem alarmFreeFrom_ok {k : Kernel} {slots : List Nat} {i : Nat} (found : k.alarmFreeFrom slots = some i) :
    i ∈ slots ∧ (k.alarms.slots i).id = 0 := by
  induction slots with
  | nil => cases found
  | cons j slots ih =>
    unfold Kernel.alarmFreeFrom at found
    split at found
    · next unused =>
      obtain rfl := Option.some.inj found
      exact ⟨List.mem_cons_self, unused⟩
    · exact ⟨List.mem_cons_of_mem _ (ih found).1, (ih found).2⟩

theorem alarmFreeFrom_some {k : Kernel} {slots : List Nat} {i : Nat} (member : i ∈ slots)
    (unused : (k.alarms.slots i).id = 0) : ∃ j, k.alarmFreeFrom slots = some j := by
  induction slots with
  | nil => cases member
  | cons j slots ih =>
    unfold Kernel.alarmFreeFrom
    split
    · exact ⟨j, rfl⟩
    · next used =>
      rcases List.mem_cons.mp member with rfl | later
      · exact absurd unused used
      · exact ih later

theorem alarmStore_cases (k : Kernel) (signal ticks day sec cycle : Nat) :
    (∃ e, k.alarmStore signal ticks day sec cycle = (.error e, k)) ∨
    ∃ i id k', k.alarmStore signal ticks day sec cycle = (.ok id, k') ∧
      Stored k k' i ⟨id, caller k, signal, ticks, day, sec, cycle⟩ := by
  unfold Kernel.alarmStore
  dsimp only
  split
  · exact .inl ⟨_, rfl⟩
  · cases found : k.alarmFreeFrom (List.range alarmSlots) with
    | none => exact .inl ⟨_, rfl⟩
    | some i =>
      obtain ⟨member, unused⟩ := alarmFreeFrom_ok found
      refine .inr ⟨i, _, _, rfl, List.mem_range.mp member, unused, ?_, fun j => rfl, rfl⟩
      show (if (k.alarms.nextId + 1) % 4294967296 = 0 then 1 else (k.alarms.nextId + 1) % 4294967296) ≠ 0
      split
      · exact one_ne_zero
      · next positive => exact positive

theorem alarmStore_succeeds {k : Kernel} (running : k.proc ≠ 0) (known : caller k ≠ 0)
    {i : Nat} (slot : i < alarmSlots) (unused : (k.alarms.slots i).id = 0) (signal ticks day sec cycle : Nat) :
    ∃ id, (k.alarmStore signal ticks day sec cycle).1 = .ok id := by
  obtain ⟨j, found⟩ := alarmFreeFrom_some (List.mem_range.mpr slot) unused
  unfold Kernel.alarmStore
  dsimp only
  have accepted : ¬ (k.proc = 0 ∨ k.procIdForDesc k.proc = 0) := not_or.mpr ⟨running, known⟩
  rw [if_neg accepted, found]
  exact ⟨_, rfl⟩

theorem alarmSet_cases (k : Kernel) (signal interval cycle : Nat) :
    (∃ e, k.alarmSet signal interval cycle = (.error e, k)) ∨
    Kernel.alarmIntervalToTicks interval ≠ 0 ∧ ∃ i id day sec k',
      k.alarmSet signal interval cycle = (.ok id, k') ∧ Stored k k' i ⟨id, caller k, signal,
        Kernel.alarmIntervalToTicks interval, day, sec, Kernel.alarmIntervalToTicks cycle⟩ := by
  unfold Kernel.alarmSet
  dsimp only
  split
  · exact .inl ⟨_, rfl⟩
  · next positive =>
    cases k.alarmFreeFrom (List.range alarmSlots) with
    | none =>
      rcases alarmStore_cases k signal (Kernel.alarmIntervalToTicks interval) 0 0
        (Kernel.alarmIntervalToTicks cycle) with failed | ⟨i, id, k', is, stored⟩
      · exact .inl failed
      · exact .inr ⟨positive, i, id, _, _, k', is, stored⟩
    | some free =>
      rcases alarmStore_cases k signal (Kernel.alarmIntervalToTicks interval) (k.alarms.slots free).day
        (k.alarms.slots free).sec (Kernel.alarmIntervalToTicks cycle) with failed | ⟨i, id, k', is, stored⟩
      · exact .inl failed
      · exact .inr ⟨positive, i, id, _, _, k', is, stored⟩

theorem alarmSetAbsolute_cases (k : Kernel) (signal day sec : Nat) :
    (∃ e, k.alarmSetAbsolute signal day sec = (.error e, k)) ∨
    ∃ i id k', k.alarmSetAbsolute signal day sec = (.ok id, k') ∧ Stored k k' i ⟨id, caller k, signal, 0, day, sec, 0⟩ := by
  unfold Kernel.alarmSetAbsolute
  split
  · exact .inl ⟨_, rfl⟩
  · exact alarmStore_cases k signal 0 day sec 0

/-- Day and second of a packed date and time. -/
def target (packed clock : UInt32) : Nat × Nat :=
  let jd := Date.julianFromDate (packed >>> 16) (packed >>> 8 &&& 0xFF) (packed &&& 0xFF)
  let hh := clock >>> 16 &&& 0xFF
  let mm := clock >>> 8 &&& 0xFF
  let ss := clock &&& 0xFF
  (jd.toNat, (hh * 3600 + mm * 60 + ss).toNat)

theorem alarmAtDate_cases (k : Kernel) (signal : Nat) (packed clock : UInt32) :
    (∃ e, k.alarmAtDate signal packed clock = (.error e, k)) ∨
    k.alarmAtDate signal packed clock = k.alarmSetAbsolute signal (target packed clock).1 (target packed clock).2 := by
  unfold Kernel.alarmAtDate
  dsimp only
  split
  · exact .inl ⟨_, rfl⟩
  · exact .inr rfl

theorem alarmFind_ok {k : Kernel} {id pid : Nat} {slots : List Nat} {i : Nat} (found : k.alarmFind id pid slots = some i) :
    i ∈ slots ∧ (k.alarms.slots i).id = id ∧ (k.alarms.slots i).pid = pid := by
  induction slots with
  | nil => cases found
  | cons j slots ih =>
    unfold Kernel.alarmFind at found
    split at found
    · exact ⟨List.mem_cons_of_mem _ (ih found).1, (ih found).2⟩
    · next named =>
      obtain rfl := Option.some.inj found
      push Not at named
      exact ⟨List.mem_cons_self, named⟩

theorem alarmReset_cases (k : Kernel) (id signal interval : Nat) :
    (∃ e, k.alarmReset id signal interval = (.error e, k)) ∨
    Kernel.alarmIntervalToTicks interval ≠ 0 ∧ ∃ i < alarmSlots,
      (k.alarms.slots i).id = id ∧ (k.alarms.slots i).pid = caller k ∧
      k.alarmReset id signal interval = (.ok (), k.setAlarm i { k.alarms.slots i with
        signal := signal, ticks := Kernel.alarmIntervalToTicks interval, day := 0, sec := 0 }) := by
  unfold Kernel.alarmReset
  dsimp only
  split
  · exact .inl ⟨_, rfl⟩
  · next positive =>
    split
    · exact .inl ⟨_, rfl⟩
    · cases found : k.alarmFind id (k.procIdForDesc k.proc) (List.range alarmSlots) with
      | none => exact .inl ⟨_, rfl⟩
      | some i =>
        obtain ⟨member, named, owned⟩ := alarmFind_ok found
        exact .inr ⟨positive, i, List.mem_range.mp member, named, owned, rfl⟩

/-- A$Delete with this ID is about this alarm. -/
def Named (pid id : Nat) (alarm : Alarm) : Prop := alarm.id ≠ 0 ∧ alarm.pid = pid ∧ (id = 0 ∨ alarm.id = id)

instance (pid id : Nat) (alarm : Alarm) : Decidable (Named pid id alarm) := inferInstanceAs (Decidable (_ ∧ _ ∧ _))

theorem alarmDeleteSlots_slots (k : Kernel) (id pid : Nat) (slots : List Nat) (j : Nat) :
    (k.alarmDeleteSlots id pid slots).alarms.slots j =
      if j ∈ slots ∧ Named pid id (k.alarms.slots j) then Alarm.clear else k.alarms.slots j := by
  induction slots generalizing k with
  | nil => rfl
  | cons i slots ih =>
    unfold Kernel.alarmDeleteSlots
    dsimp only
    split
    · next other =>
      have spared : ¬ Named pid id (k.alarms.slots i) := by
        unfold Named
        tauto
      rw [ih]
      refine if_congr ?_ rfl rfl
      constructor
      · exact fun hit => ⟨List.mem_cons_of_mem _ hit.1, hit.2⟩
      · rintro ⟨member, named⟩
        rcases List.mem_cons.mp member with rfl | later
        · exact absurd named spared
        · exact ⟨later, named⟩
    · next hit =>
      have named : Named pid id (k.alarms.slots i) := by
        unfold Named
        tauto
      rw [ih, setAlarm_slots]
      by_cases same : j = i
      · subst same
        rw [if_pos rfl, if_pos (⟨List.mem_cons_self, named⟩ : _ ∧ _), ite_self]
      · simp only [List.mem_cons, same, false_or, if_false]

theorem alarmDelete_slots {k : Kernel} (running : k.proc ≠ 0) (id : Nat) {j : Nat} (slot : j < alarmSlots) :
    (k.alarmDelete id).2.alarms.slots j =
      if Named (caller k) id (k.alarms.slots j) then Alarm.clear else k.alarms.slots j := by
  unfold Kernel.alarmDelete
  rw [if_neg running]
  refine (alarmDeleteSlots_slots k id _ _ j).trans (if_congr ?_ rfl rfl)
  exact and_iff_right (List.mem_range.mpr slot)

theorem alarmDelete_clock (k : Kernel) (id : Nat) : (k.alarmDelete id).2.clock = k.clock := by
  have cleared : ∀ (slots : List Nat) (k : Kernel) (pid : Nat), (k.alarmDeleteSlots id pid slots).clock = k.clock := by
    intro slots
    induction slots with
    | nil => intro k pid; rfl
    | cons i slots ih =>
      intro k pid
      unfold Kernel.alarmDeleteSlots
      dsimp only
      split
      · exact ih k pid
      · exact ih _ pid
  unfold Kernel.alarmDelete
  split
  · rfl
  · exact cleared _ k _

theorem alarmDelete_idle {k : Kernel} (idle : k.proc = 0) (id : Nat) : (k.alarmDelete id).2 = k := by
  unfold Kernel.alarmDelete
  rw [if_pos idle]

/-! ### A slot over a run -/

section Runs

variable {k k' : Kernel} {alarm : Alarm} {i n : Nat} {events : List Event}

theorem Stored.kept (stored : Stored k k' i alarm) {j : Nat} (live : (k.alarms.slots j).id ≠ 0) :
    k'.alarms.slots j = k.alarms.slots j := by
  rw [stored.slots j]
  exact if_neg (fun same : j = i => live (same ▸ stored.unused))

/-- One event: an alarm it spares stays as it is, or counts a tick. -/
theorem step_slot {event : Event} (slot : i < alarmSlots) (armed : k.alarms.slots i = alarm) (live : alarm.id ≠ 0)
    (spared : Spares alarm.pid alarm.id k event) (stepped : step k event = some k') :
    k'.alarms.slots i = after k event alarm := by
  subst armed
  cases event with
  | set signal interval cycle =>
    obtain rfl := Option.some.inj stepped
    dsimp only [after]
    rcases alarmSet_cases k signal.toNat interval.toNat cycle.toNat with ⟨e, is⟩ | ⟨-, j, id, day, sec, next, is, stored⟩
    · rw [is]
    · rw [is]
      exact stored.kept live
  | atJul signal day sec =>
    obtain rfl := Option.some.inj stepped
    dsimp only [after]
    rcases alarmSetAbsolute_cases k signal.toNat day.toNat sec.toNat with ⟨e, is⟩ | ⟨j, id, next, is, stored⟩
    · rw [is]
    · rw [is]
      exact stored.kept live
  | atDate signal packed clock =>
    obtain rfl := Option.some.inj stepped
    dsimp only [after]
    rcases alarmAtDate_cases k signal.toNat packed clock with ⟨e, is⟩ | is
    · rw [is]
    · rw [is]
      rcases alarmSetAbsolute_cases k signal.toNat (target packed clock).1 (target packed clock).2 with
        ⟨e, is⟩ | ⟨j, id, next, is, stored⟩
      · rw [is]
      · rw [is]
        exact stored.kept live
  | reset named signal interval =>
    obtain rfl := Option.some.inj stepped
    dsimp only [after]
    rcases alarmReset_cases k named signal.toNat interval.toNat with ⟨e, is⟩ | ⟨-, j, -, hit, owned, is⟩
    · rw [is]
    · rw [is, setAlarm_slots]
      refine if_neg (fun same => ?_)
      subst same
      exact spared hit.symm owned.symm
  | delete named =>
    obtain rfl := Option.some.inj stepped
    dsimp only [after]
    by_cases running : k.proc = 0
    · rw [alarmDelete_idle running]
    · rw [alarmDelete_slots running named slot]
      refine if_neg ?_
      rintro ⟨-, owned, all | hit⟩
      · exact spared (.inr all) owned.symm
      · exact spared (.inl hit.symm) owned.symm
  | tick dev =>
    obtain rfl := Option.some.inj stepped
    exact alarmTick_slots k dev slot
  | meanwhile next =>
    obtain rfl := Option.some.inj stepped
    exact spared i slot rfl rfl

theorem after_silent {event : Event} (silent : event.ticks = 0) (k : Kernel) (alarm : Alarm) : after k event alarm = alarm := by
  cases event with
  | tick dev => cases silent
  | _ => rfl

/-- An event counts no tick, or is one. -/
theorem ticks_cases (event : Event) : event.ticks = 0 ∨ ∃ dev, event = .tick dev := by
  cases event with
  | tick dev => exact .inr ⟨dev, rfl⟩
  | _ => exact .inl rfl

@[simp] theorem ticks_nil : ticks [] = 0 := rfl

@[simp] theorem ticks_cons (event : Event) (events : List Event) : ticks (event :: events) = event.ticks + ticks events :=
  List.sum_cons

theorem fires_left {now : Clock} (live : alarm.id ≠ 0) (left : n ≠ 0) :
    fires now { alarm with ticks := n } = decide (n = 1) := by
  have relative : fires now { alarm with ticks := n } = decide (n ≤ 1) := fires_relative live left
  rw [relative, decide_eq_decide]
  omega

theorem firing_left {now : Clock} (live : alarm.id ≠ 0) (left : n ≠ 0) :
    firing now { alarm with ticks := n } = if n = 1 then some (message alarm) else none := by
  unfold firing
  rw [fires_left live left]
  exact if_congr decide_eq_true_iff rfl rfl

theorem ticked_more {now : Clock} (live : alarm.id ≠ 0) (more : 1 < n) :
    ticked now { alarm with ticks := n } = { alarm with ticks := n - 1 } := by
  have waits : fires now { alarm with ticks := n } = false := by
    rw [fires_left live (by omega)]
    exact decide_eq_false (by omega)
  exact ticked_waits live waits

theorem ticked_last {now : Clock} (live : alarm.id ≠ 0) : ticked now { alarm with ticks := 1 } = fired alarm := by
  have fire : fires now { alarm with ticks := 1 } = true := fires_left live one_ne_zero
  exact ticked_fires live fire

/-- A one-shot alarm with `n` ticks left fires at the `n`-th tick and not before. -/
theorem firing_once (slot : i < alarmSlots) (live : alarm.id ≠ 0) (left : n ≠ 0)
    (armed : k.alarms.slots i = { alarm with ticks := n }) (spared : RunMeets step (Spares alarm.pid alarm.id) k events)
    (ran : run step k events = some k') (early : ticks events < n) :
    k'.alarms.slots i = { alarm with ticks := n - ticks events } := by
  induction events generalizing k n with
  | nil =>
    cases ran
    exact armed
  | cons event events ih =>
    obtain ⟨mid, stepped, rest⟩ := run_cons ran
    have next := step_slot slot armed live spared.1 stepped
    rw [ticks_cons] at early ⊢
    rcases ticks_cases event with silent | ⟨dev, rfl⟩
    · rw [after_silent silent] at next
      rw [silent, Nat.zero_add] at early ⊢
      exact ih left next (spared.2 mid stepped) rest early
    · have more : 1 + ticks events < n := early
      have next : mid.alarms.slots i = { alarm with ticks := n - 1 } := next.trans (ticked_more live (by omega))
      rw [ih (by omega) next (spared.2 mid stepped) rest (by omega), Nat.sub_sub]
      rfl

/-- A cyclic alarm with `n` ticks left fires at the `n`-th tick and every `cycle` ticks after it. -/
theorem firing_again (slot : i < alarmSlots) (live : alarm.id ≠ 0) (cyclic : alarm.cycle ≠ 0) (left : n ≠ 0)
    (armed : k.alarms.slots i = { alarm with ticks := n }) (spared : RunMeets step (Spares alarm.pid alarm.id) k events)
    (ran : run step k events = some k') (now : Clock) :
    firing now (k'.alarms.slots i) =
      if n ≤ ticks events + 1 ∧ alarm.cycle ∣ ticks events + 1 - n then some (message alarm) else none := by
  induction events generalizing k n with
  | nil =>
    cases ran
    rw [armed, firing_left live left]
    refine if_congr ?_ rfl rfl
    rw [ticks_nil]
    constructor
    · rintro rfl
      exact ⟨le_rfl, dvd_zero _⟩
    · omega
  | cons event events ih =>
    obtain ⟨mid, stepped, rest⟩ := run_cons ran
    have next := step_slot slot armed live spared.1 stepped
    rw [ticks_cons]
    rcases ticks_cases event with silent | ⟨dev, rfl⟩
    · rw [after_silent silent] at next
      rw [silent, Nat.zero_add]
      exact ih left next (spared.2 mid stepped) rest
    · show _ = if n ≤ 1 + ticks events + 1 ∧ alarm.cycle ∣ 1 + ticks events + 1 - n then _ else _
      by_cases last : n = 1
      · -- it fires now, and counts a whole cycle from here
        subst last
        have next : mid.alarms.slots i = { alarm with ticks := alarm.cycle } :=
          next.trans ((ticked_last live).trans (if_pos cyclic))
        rw [ih cyclic next (spared.2 mid stepped) rest]
        refine if_congr ?_ rfl rfl
        have shift : 1 + ticks events + 1 - 1 = ticks events + 1 := by omega
        rw [shift]
        constructor
        · rintro ⟨reached, whole⟩
          have sum := Nat.dvd_add whole (dvd_refl alarm.cycle)
          rw [Nat.sub_add_cancel reached] at sum
          exact ⟨by omega, sum⟩
        · rintro ⟨-, whole⟩
          exact ⟨Nat.le_of_dvd (Nat.succ_pos _) whole, Nat.dvd_sub whole dvd_rfl⟩
      · have next : mid.alarms.slots i = { alarm with ticks := n - 1 } :=
          next.trans (ticked_more live (by omega))
        rw [ih (by omega) next (spared.2 mid stepped) rest]
        refine if_congr ?_ rfl rfl
        have shift : 1 + ticks events + 1 - n = ticks events + 1 - (n - 1) := by omega
        rw [shift]
        exact and_congr_left' (by omega)

/-- The clock has come to this day and second. -/
def reaches (now : Clock) (day sec : Nat) : Prop := toLex (day, sec) ≤ toLex (now.day.toNat, now.sec.toNat)

instance (now : Clock) (day sec : Nat) : Decidable (reaches now day sec) := inferInstanceAs (Decidable (_ ≤ _))

/-- The event is no tick whose clock has reached the target. -/
def Early (day sec : Nat) (k : Kernel) : Event → Prop
  | .tick dev => ¬ reaches (now k dev) day sec
  | _ => True

theorem firing_absolute {now : Clock} (live : alarm.id ≠ 0) (absolute : alarm.ticks = 0) :
    firing now alarm = if reaches now alarm.day alarm.sec then some (message alarm) else none := by
  unfold firing
  rw [fires_absolute live absolute]
  exact if_congr (alarmDue_iff alarm now) rfl rfl

/-- An absolute alarm stays until a tick reads a clock that has reached its target. -/
theorem absolute_waits (slot : i < alarmSlots) (live : alarm.id ≠ 0) (absolute : alarm.ticks = 0)
    (armed : k.alarms.slots i = alarm)
    (meets : RunMeets step (fun k event => Spares alarm.pid alarm.id k event ∧ Early alarm.day alarm.sec k event) k events)
    (ran : run step k events = some k') : k'.alarms.slots i = alarm := by
  induction events generalizing k with
  | nil =>
    cases ran
    exact armed
  | cons event events ih =>
    obtain ⟨mid, stepped, rest⟩ := run_cons ran
    obtain ⟨⟨spared, early⟩, later⟩ := meets
    have next := step_slot slot armed live spared stepped
    refine ih (next.trans ?_) (later mid stepped) rest
    rcases ticks_cases event with silent | ⟨dev, rfl⟩
    · exact after_silent silent k alarm
    · apply ticked_absolute absolute
      rw [fires_absolute live absolute, Bool.eq_false_iff]
      exact fun due => early ((alarmDue_iff alarm (now k dev)).mp due)

end Runs

/-! ### The claim about a state -/

/-- The ticks of an interval: 256ths of a second where bit 31 is set, rounded up. -/
def intervalTicks (interval : UInt32) : Nat :=
  if interval.toNat < 2147483648 then interval.toNat else ((interval.toNat - 2147483648) * 100) ⌈/⌉ 256

theorem alarmIntervalToTicks_eq (interval : UInt32) :
    Kernel.alarmIntervalToTicks interval.toNat = intervalTicks interval := by
  unfold Kernel.alarmIntervalToTicks intervalTicks ticksPerSec
  dsimp only
  split
  · rfl
  · rw [Nat.ceilDiv_eq_add_pred_div]
    omega

theorem intervalTicks_lt (interval : UInt32) : intervalTicks interval < 4294967296 := by
  have range := interval.toNat_lt
  unfold intervalTicks
  split
  · omega
  · rw [Nat.ceilDiv_eq_add_pred_div]
    omega

/-- The alarm in slot `i` fires at the `n`-th tick from here and, if it is cyclic, every `cycle`
ticks after it, whatever happens besides that is not about this alarm. -/
structure FiresAfter (k : Kernel) (i n : Nat) : Prop where
  once : (k.alarms.slots i).cycle = 0 → ∀ events k' dev,
    RunMeets step (Spares (k.alarms.slots i).pid (k.alarms.slots i).id) k events → run step k events = some k' →
    ticks events < n → firing (now k' dev) (k'.alarms.slots i) =
      if ticks events + 1 = n then some (message (k.alarms.slots i)) else none
  freed : (k.alarms.slots i).cycle = 0 → ∀ events k' dev,
    RunMeets step (Spares (k.alarms.slots i).pid (k.alarms.slots i).id) k events → run step k events = some k' →
    ticks events + 1 = n → (k'.alarmTick dev).alarms.slots i = Alarm.clear
  again : (k.alarms.slots i).cycle ≠ 0 → ∀ events k' dev,
    RunMeets step (Spares (k.alarms.slots i).pid (k.alarms.slots i).id) k events → run step k events = some k' →
    firing (now k' dev) (k'.alarms.slots i) =
      if n ≤ ticks events + 1 ∧ (k.alarms.slots i).cycle ∣ ticks events + 1 - n
        then some (message (k.alarms.slots i)) else none

/-- The alarm in slot `i` fires at the first tick whose clock has reached its target, and is gone. -/
structure FiresAt (k : Kernel) (i day sec : Nat) : Prop where
  reached : ∀ events k' dev,
    RunMeets step (fun s event => Spares (k.alarms.slots i).pid (k.alarms.slots i).id s event ∧ Early day sec s event)
      k events → run step k events = some k' →
    firing (now k' dev) (k'.alarms.slots i) =
      if reaches (now k' dev) day sec then some (message (k.alarms.slots i)) else none
  freed : ∀ events k' dev,
    RunMeets step (fun s event => Spares (k.alarms.slots i).pid (k.alarms.slots i).id s event ∧ Early day sec s event)
      k events → run step k events = some k' →
    reaches (now k' dev) day sec → (k'.alarmTick dev).alarms.slots i = Alarm.clear

theorem firesAfter {k : Kernel} {i : Nat} (slot : i < alarmSlots) (live : (k.alarms.slots i).id ≠ 0)
    (left : (k.alarms.slots i).ticks ≠ 0) : FiresAfter k i (k.alarms.slots i).ticks := by
  refine ⟨fun _ events k' dev spared ran early => ?_, fun shot events k' dev spared ran last => ?_,
    fun cyclic events k' dev spared ran => firing_again slot live cyclic left rfl spared ran _⟩
  · rw [firing_once slot live left rfl spared ran early, firing_left live (by omega)]
    exact if_congr (by omega) rfl rfl
  · have now := firing_once slot live left rfl spared ran (by omega)
    have one : (k.alarms.slots i).ticks - ticks events = 1 := by omega
    rw [alarmTick_slots k' dev slot, now, one, ticked_last live]
    exact if_neg (not_not_intro shot)

theorem firesAt {k : Kernel} {i : Nat} (slot : i < alarmSlots) (live : (k.alarms.slots i).id ≠ 0)
    (absolute : (k.alarms.slots i).ticks = 0) (shot : (k.alarms.slots i).cycle = 0) :
    FiresAt k i (k.alarms.slots i).day (k.alarms.slots i).sec := by
  refine ⟨fun events k' dev meets ran => ?_, fun events k' dev meets ran due => ?_⟩
  · rw [absolute_waits slot live absolute rfl meets ran]
    exact firing_absolute live absolute
  · have fire : fires (now k' dev) (k.alarms.slots i) = true :=
      (fires_absolute live absolute).trans ((alarmDue_iff _ _).mpr due)
    rw [alarmTick_slots k' dev slot, absolute_waits slot live absolute rfl meets ran, ticked_fires live fire]
    exact if_neg (not_not_intro shot)

/-- At most one slot is not as before, and the clock is. -/
def Alone (k k' : Kernel) : Prop :=
  (∃ i, ∀ j < alarmSlots, j ≠ i → k'.alarms.slots j = k.alarms.slots j) ∧ k'.clock = k.clock

/-- A call about one alarm; A$Delete with ID 0 is about all of them. -/
def Event.single : Event → Prop
  | .tick _ => False
  | .meanwhile _ => False
  | .delete id => id ≠ 0
  | _ => True

/-- The alarms of a state keep their times, and so do those set from it. -/
structure AlarmTiming (k : Kernel) : Prop where
  interval : ∀ interval : UInt32, Kernel.alarmIntervalToTicks interval.toNat = intervalTicks interval ∧
    intervalTicks interval < 4294967296
  sends : ∀ dev, ∃ alarms clock, k.alarmTick dev = timed (sendAll (k.conSSigTick dev)
    ((List.range alarmSlots).filterMap (fun i => firing (now k dev) (k.alarms.slots i)))) alarms clock
  accepts : ∀ (signal : UInt16) (interval cycle : UInt32), 1 ≤ intervalTicks interval → k.proc ≠ 0 → caller k ≠ 0 →
    (∃ i < alarmSlots, (k.alarms.slots i).id = 0) →
    ∃ id, (k.alarmSet signal.toNat interval.toNat cycle.toNat).1 = .ok id
  set : ∀ (signal : UInt16) (interval cycle : UInt32) id k',
    k.alarmSet signal.toNat interval.toNat cycle.toNat = (.ok id, k') → ∃ i alarm, Stored k k' i alarm ∧
      alarm.id = id ∧ message alarm = (caller k, signal.toNat) ∧ alarm.cycle = intervalTicks cycle ∧
      FiresAfter k' i (intervalTicks interval)
  reset : ∀ id (signal : UInt16) (interval : UInt32) k', id ≠ 0 →
    k.alarmReset id signal.toNat interval.toNat = (.ok (), k') → ∃ i < alarmSlots,
      (k.alarms.slots i).id = id ∧ (k.alarms.slots i).pid = caller k ∧ (k'.alarms.slots i).id = id ∧
      message (k'.alarms.slots i) = (caller k, signal.toNat) ∧
      (k'.alarms.slots i).cycle = (k.alarms.slots i).cycle ∧ FiresAfter k' i (intervalTicks interval)
  absolute : ∀ (signal : UInt16) (day sec : UInt32) id k',
    k.alarmSetAbsolute signal.toNat day.toNat sec.toNat = (.ok id, k') → ∃ i alarm, Stored k k' i alarm ∧
      alarm.id = id ∧ message alarm = (caller k, signal.toNat) ∧ FiresAt k' i day.toNat sec.toNat
  atDate : ∀ (signal : UInt16) (packed clock : UInt32) id k',
    k.alarmAtDate signal.toNat packed clock = (.ok id, k') → ∃ i alarm, Stored k k' i alarm ∧
      alarm.id = id ∧ message alarm = (caller k, signal.toNat) ∧
      FiresAt k' i (target packed clock).1 (target packed clock).2
  deleted : ∀ id i, id ≠ 0 → i < alarmSlots → k.proc ≠ 0 → (k.alarms.slots i).id = id → (k.alarms.slots i).pid = caller k →
    (k.alarmDelete id).2.alarms.slots i = Alarm.clear
  apart : ∀ event k', event.single → step k event = some k' → Alone k k'

/-- No two alarms of the running process share an ID. -/
def DistinctIds (k : Kernel) : Prop :=
  k.proc ≠ 0 → ∀ i < alarmSlots, ∀ j < alarmSlots, (k.alarms.slots i).id ≠ 0 → (k.alarms.slots i).pid = caller k →
    (k.alarms.slots j).pid = caller k → (k.alarms.slots j).id = (k.alarms.slots i).id → j = i

theorem caller_lt (k : Kernel) : caller k < 65536 := by
  unfold caller Kernel.procIdForDesc
  dsimp only
  split_ifs
  · exact Nat.succ_pos _
  · exact Nat.succ_pos _
  · exact Nat.mod_lt _ (Nat.succ_pos _)

theorem message_eq {k : Kernel} {alarm : Alarm} {signal : UInt16} (owner : alarm.pid = caller k)
    (sig : alarm.signal = signal.toNat) : message alarm = (caller k, signal.toNat) := by
  have range := signal.toNat_lt
  rw [message, owner, sig, Nat.mod_eq_of_lt (caller_lt k), Nat.mod_eq_of_lt range]

theorem Stored.alone {k k' : Kernel} {i : Nat} {alarm : Alarm} (stored : Stored k k' i alarm) : Alone k k' :=
  ⟨⟨i, fun j _ other => (stored.slots j).trans (if_neg other)⟩, stored.clock⟩

theorem Alone.rfl {k : Kernel} : Alone k k := ⟨⟨0, fun _ _ _ => Eq.refl _⟩, Eq.refl _⟩

theorem Stored.here {k k' : Kernel} {i : Nat} {alarm : Alarm} (stored : Stored k k' i alarm) : k'.alarms.slots i = alarm :=
  (stored.slots i).trans (if_pos (Eq.refl i))

theorem Stored.absolute {k k' : Kernel} {i : Nat} {alarm : Alarm} (stored : Stored k k' i alarm) (absolute : alarm.ticks = 0)
    (shot : alarm.cycle = 0) : FiresAt k' i alarm.day alarm.sec := by
  have fire := firesAt (k := k') stored.slot
  rw [stored.here] at fire
  exact fire stored.live absolute shot

theorem Stored.relative {k k' : Kernel} {i : Nat} {alarm : Alarm} (stored : Stored k k' i alarm) (left : alarm.ticks ≠ 0) :
    FiresAfter k' i alarm.ticks := by
  have fire := firesAfter (k := k') stored.slot
  rw [stored.here] at fire
  exact fire stored.live left

theorem setAlarm_here (k : Kernel) (i : Nat) (alarm : Alarm) : (k.setAlarm i alarm).alarms.slots i = alarm :=
  (setAlarm_slots k i i alarm).trans (if_pos (Eq.refl i))

theorem setAlarm_fires {k : Kernel} {i : Nat} {alarm : Alarm} (slot : i < alarmSlots) (live : alarm.id ≠ 0)
    (left : alarm.ticks ≠ 0) : FiresAfter (k.setAlarm i alarm) i alarm.ticks := by
  have fire := firesAfter (k := k.setAlarm i alarm) slot
  rw [setAlarm_here] at fire
  exact fire live left

theorem setAlarm_alone (k : Kernel) (i : Nat) (alarm : Alarm) : Alone k (k.setAlarm i alarm) :=
  ⟨⟨i, fun j _ other => (setAlarm_slots k i j alarm).trans (if_neg other)⟩, Eq.refl _⟩

/-! ### The calls keep to their alarm -/

section Timing

variable (k : Kernel)

theorem set_timing (signal : UInt16) (interval cycle : UInt32) (id : Nat) (k' : Kernel)
    (is : k.alarmSet signal.toNat interval.toNat cycle.toNat = (.ok id, k')) : ∃ i alarm, Stored k k' i alarm ∧
      alarm.id = id ∧ message alarm = (caller k, signal.toNat) ∧ alarm.cycle = intervalTicks cycle ∧
      FiresAfter k' i (intervalTicks interval) := by
  rcases alarmSet_cases k signal.toNat interval.toNat cycle.toNat with
    ⟨e, failed⟩ | ⟨positive, i, id', day, sec, next, done, stored⟩
  · rw [is] at failed
    cases failed
  · rw [is] at done
    cases done
    have fire := stored.relative positive
    rw [alarmIntervalToTicks_eq] at fire
    exact ⟨i, _, stored, rfl, message_eq rfl rfl, alarmIntervalToTicks_eq cycle, fire⟩

theorem reset_timing (id : Nat) (signal : UInt16) (interval : UInt32) (k' : Kernel) (named : id ≠ 0)
    (is : k.alarmReset id signal.toNat interval.toNat = (.ok (), k')) : ∃ i < alarmSlots,
      (k.alarms.slots i).id = id ∧ (k.alarms.slots i).pid = caller k ∧ (k'.alarms.slots i).id = id ∧
      message (k'.alarms.slots i) = (caller k, signal.toNat) ∧
      (k'.alarms.slots i).cycle = (k.alarms.slots i).cycle ∧ FiresAfter k' i (intervalTicks interval) := by
  rcases alarmReset_cases k id signal.toNat interval.toNat with ⟨e, failed⟩ | ⟨positive, i, slot, hit, owned, done⟩
  · rw [is] at failed
    cases failed
  · rw [is] at done
    cases done
    rw [alarmIntervalToTicks_eq] at positive ⊢
    refine ⟨i, slot, hit, owned, ?_, ?_, ?_, setAlarm_fires slot (hit ▸ named) positive⟩
    · rw [setAlarm_here]
      exact hit
    · rw [setAlarm_here]
      exact message_eq owned rfl
    · rw [setAlarm_here]

theorem absolute_timing (signal : UInt16) (day sec id : Nat) (k' : Kernel)
    (is : k.alarmSetAbsolute signal.toNat day sec = (.ok id, k')) : ∃ i alarm, Stored k k' i alarm ∧
      alarm.id = id ∧ message alarm = (caller k, signal.toNat) ∧ FiresAt k' i day sec := by
  rcases alarmSetAbsolute_cases k signal.toNat day sec with ⟨e, failed⟩ | ⟨i, id', next, done, stored⟩
  · rw [is] at failed
    cases failed
  · rw [is] at done
    cases done
    exact ⟨i, _, stored, rfl, message_eq rfl rfl, stored.absolute rfl rfl⟩

theorem atDate_timing (signal : UInt16) (packed clock : UInt32) (id : Nat) (k' : Kernel)
    (is : k.alarmAtDate signal.toNat packed clock = (.ok id, k')) : ∃ i alarm, Stored k k' i alarm ∧
      alarm.id = id ∧ message alarm = (caller k, signal.toNat) ∧
      FiresAt k' i (target packed clock).1 (target packed clock).2 := by
  rcases alarmAtDate_cases k signal.toNat packed clock with ⟨e, failed⟩ | same
  · rw [is] at failed
    cases failed
  · exact absolute_timing k signal _ _ id k' (same.symm.trans is)

theorem absolute_alone (signal day sec : Nat) : Alone k (k.alarmSetAbsolute signal day sec).2 := by
  rcases alarmSetAbsolute_cases k signal day sec with ⟨e, is⟩ | ⟨i, id, next, is, stored⟩
  · rw [is]
    exact Alone.rfl
  · rw [is]
    exact stored.alone

theorem delete_alone {id : Nat} (named : id ≠ 0) (distinct : DistinctIds k) : Alone k (k.alarmDelete id).2 := by
  by_cases running : k.proc = 0
  · rw [alarmDelete_idle running]
    exact Alone.rfl
  · refine ⟨?_, alarmDelete_clock k id⟩
    by_cases hit : ∃ i < alarmSlots, Named (caller k) id (k.alarms.slots i)
    · obtain ⟨i, slot, live, owned, is⟩ := hit
      refine ⟨i, fun j slot' other => ?_⟩
      rw [alarmDelete_slots running id slot']
      refine if_neg ?_
      rintro ⟨-, owned', is'⟩
      have same := (is'.resolve_left named).trans (is.resolve_left named).symm
      exact other (distinct running i slot j slot' live owned owned' same)
    · refine ⟨0, fun j slot' _ => ?_⟩
      rw [alarmDelete_slots running id slot']
      exact if_neg (fun named => hit ⟨j, slot', named⟩)

theorem calls_alone (distinct : DistinctIds k) {event : Event} {k' : Kernel} (single : event.single)
    (stepped : step k event = some k') : Alone k k' := by
  cases event with
  | set signal interval cycle =>
    obtain rfl := Option.some.inj stepped
    rcases alarmSet_cases k signal.toNat interval.toNat cycle.toNat with
      ⟨e, is⟩ | ⟨-, i, id, day, sec, next, is, stored⟩
    · rw [is]
      exact Alone.rfl
    · rw [is]
      exact stored.alone
  | atJul signal day sec =>
    obtain rfl := Option.some.inj stepped
    exact absolute_alone k _ _ _
  | atDate signal packed clock =>
    obtain rfl := Option.some.inj stepped
    rcases alarmAtDate_cases k signal.toNat packed clock with ⟨e, is⟩ | is
    · rw [is]
      exact Alone.rfl
    · rw [is]
      exact absolute_alone k _ _ _
  | reset id signal interval =>
    obtain rfl := Option.some.inj stepped
    rcases alarmReset_cases k id signal.toNat interval.toNat with ⟨e, is⟩ | ⟨-, i, -, -, -, is⟩
    · rw [is]
      exact Alone.rfl
    · rw [is]
      exact setAlarm_alone k i _
  | delete id =>
    obtain rfl := Option.some.inj stepped
    exact delete_alone k single distinct
  | tick dev => exact single.elim
  | meanwhile next => exact single.elim

theorem delete_clears {i : Nat} (slot : i < alarmSlots) (running : k.proc ≠ 0) (live : (k.alarms.slots i).id ≠ 0)
    (owned : (k.alarms.slots i).pid = caller k) {id : Nat} (named : (k.alarms.slots i).id = id) :
    (k.alarmDelete id).2.alarms.slots i = Alarm.clear := by
  rw [alarmDelete_slots running id slot]
  exact if_pos ⟨live, owned, .inr named⟩

theorem set_accepts (signal : UInt16) (interval cycle : UInt32) (positive : 1 ≤ intervalTicks interval)
    (running : k.proc ≠ 0) (known : caller k ≠ 0) (room : ∃ i < alarmSlots, (k.alarms.slots i).id = 0) :
    ∃ id, (k.alarmSet signal.toNat interval.toNat cycle.toNat).1 = .ok id := by
  obtain ⟨i, slot, unused⟩ := room
  obtain ⟨j, found⟩ := alarmFreeFrom_some (List.mem_range.mpr slot) unused
  have some : Kernel.alarmIntervalToTicks interval.toNat ≠ 0 := by
    rw [alarmIntervalToTicks_eq]
    omega
  unfold Kernel.alarmSet
  dsimp only
  rw [if_neg some, found]
  exact alarmStore_succeeds running known slot unused _ _ _ _ _

variable {k}

theorem AlarmTiming.distinct (timing : AlarmTiming k) : DistinctIds k := by
  intro running i slot j slot' live owned owned' same
  obtain ⟨⟨only, kept⟩, -⟩ := timing.apart (.delete (k.alarms.slots i).id) _ live rfl
  by_contra other
  have first := delete_clears k slot running live owned rfl
  have second := delete_clears k slot' running (same ▸ live) owned' same
  by_cases here : i = only
  · subst here
    have stays := kept j slot' other
    exact live (same.symm.trans ((congrArg Alarm.id (stays.symm.trans second)).trans rfl))
  · have stays := kept i slot here
    exact live ((congrArg Alarm.id (stays.symm.trans first)).trans rfl)

end Timing

/-- Alarms keep their times, exactly in the states where no two alarms of the caller share an ID. -/
theorem alarm_timing_iff (k : Kernel) : AlarmTiming k ↔ DistinctIds k := by
  refine ⟨AlarmTiming.distinct, fun distinct => ?_⟩
  refine ⟨fun interval => ⟨alarmIntervalToTicks_eq interval, intervalTicks_lt interval⟩, alarmTick_sends k, set_accepts k,
    set_timing k, reset_timing k, fun signal day sec => absolute_timing k signal _ _, atDate_timing k, ?_,
    fun event k' => calls_alone k distinct⟩
  intro id i named slot running is owned
  exact delete_clears k slot running (is ▸ named) owned is

/-- One process with a cyclic alarm under ID 1; the counter has gone all the way round since. -/
def worn : Kernel :=
  { Kernel.zeroed 0x1000 1 with
    proc := 0x1000
    desc := fun b => if b = 0x1000 then (Kernel.zeroed 0 0).ram.setU8 Desc.state stateActive else fun _ => 0
    alarms := ⟨fun i => if i = 0 then ⟨1, 1, 10, 100, 0, 0, 100⟩ else Alarm.clear, 0xFFFFFFFF, 0, 0⟩ }

/-- The next alarm gets ID 1 again, and A$Delete for either takes both. -/
theorem worn_alarms_collide : ¬ AlarmTiming (worn.alarmSet 20 5 0).2 := by
  intro timing
  have same := timing.distinct (by decide) 0 (by decide) 1 (by decide) (by decide) (by decide) (by decide) (by decide)
  cases same

end Q9OS.Alarms

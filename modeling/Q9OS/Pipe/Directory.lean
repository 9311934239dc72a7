import Q9OS.Lib.Chain
import Q9OS.Lib.Run
import Q9OS.Pipe.Open

/-!
# The directory of named pipes

The calls of `pipe_open.a` on one device, one after another, beside the pipes
and paths they are meant to keep. A descriptor comes filled in by the caller of
the manager and is laid over the 256 bytes at `a1` before the call.
-/

namespace Q9OS.Pipe.Names

/-- The memory, the open paths with their master descriptors and the live named pipes. -/
structure Mgr where
  mem : Mem
  paths : List (Nat × Nat)
  named : List (Nat × List UInt8)

inductive Event
  | create (q : Req) (fresh : Mem)
  | «open» (q : Req) (fresh : Mem)
  | close (q : Req)
  | delete (q : Req) (fresh : Mem)

def Event.req : Event → Req
  | .create q _ => q
  | .open q _ => q
  | .close q => q
  | .delete q _ => q

/-- The new descriptor at `a1`. -/
def laid (m : Mem) (a1 : Nat) (fresh : Mem) : Mem := m.blit a1 fresh 0 256

/-- The call as the code runs it. -/
def Mgr.answer (s : Mgr) : Event → Option Left
  | .create q fresh => create (laid s.mem q.a1 fresh) q
  | .open q fresh => «open» (laid s.mem q.a1 fresh) q
  | .close q => close s.mem q
  | .delete q fresh => delete (laid s.mem q.a1 fresh) q

/-- The name a call is about, none if it is about an anonymous pipe or no proper name. -/
def parsed (m : Mem) (q : Req) : Option (List UInt8) :=
  match parseName q m q.name with
  | .error _ => none
  | .ok (a0, d1) => if d1 = 0 then none else some (m.bytes a0 d1)

def asked (m : Mem) (q : Req) : Option (List UInt8) :=
  if (m.getU8 (q.a1 + pdMod)).testBit 7 ∨ q.name = 0 then none else parsed m q

def folded (name : List UInt8) : List Nat := name.map (fun c => fold c.toNat)

/-- The live pipe of a name, whatever its case. -/
def Mgr.live (s : Mgr) (name : List UInt8) : Option Nat :=
  (s.named.find? (fun p => folded p.2 == folded name)).map Prod.fst

def Mgr.masterOf (s : Mgr) (a1 : Nat) : Nat := ((s.paths.find? (fun p => p.1 == a1)).map Prod.snd).getD a1

/-- A pipe is live from its creation until the last of its paths is closed or it is deleted. -/
def Mgr.after (s : Mgr) (event : Event) (left : Left) : Mgr :=
  if left.err ≠ none then { s with mem := left.mem }
  else
    match event with
    | .create q fresh =>
      { mem := left.mem, paths := (q.a1, q.a1) :: s.paths,
        named := match asked (laid s.mem q.a1 fresh) q with
          | none => s.named
          | some name => (q.a1, name) :: s.named }
    | .open q fresh =>
      { s with
        mem := left.mem
        paths := (q.a1, ((asked (laid s.mem q.a1 fresh) q).bind s.live).getD q.a1) :: s.paths }
    | .close q =>
      let paths := s.paths.filter (fun p => p.1 != q.a1)
      { mem := left.mem, paths := paths,
        named := s.named.filter (fun p => p.1 != s.masterOf q.a1 || paths.any (fun path => path.2 == p.1)) }
    | .delete q fresh =>
      { s with
        mem := left.mem
        named := s.named.filter (fun p => some p.1 != (parsed (laid s.mem q.a1 fresh) q).bind s.live) }

def Mgr.step (s : Mgr) (event : Event) : Option Mgr := (s.answer event).map (s.after event)

/-! ### What the directory is for -/

/-- The list of the device is the live named pipes, with their names, and a search finds just them. -/
structure Directory (stat : Nat) (s : Mgr) : Prop where
  listed : ∃ nodes, Linked (fun a => s.mem.getU32 (a + pdNext)) 0 (s.mem.getU32 (stat + vPipes)) nodes ∧
    nodes.Perm (s.named.map Prod.fst)
  names : ∀ p ∈ s.named, s.mem.bytes (p.1 + pdName) p.2.length = p.2 ∧
    (s.mem.getU8 (p.1 + pdName + p.2.length) = 0 ∨ 0x80 ≤ s.mem.getU8 (p.1 + pdName + p.2.length))
  distinct : s.named.Pairwise (fun p p' => folded p.2 ≠ folded p'.2)
  found : ∀ a0 d1, 1 ≤ d1 → d1 ≤ pipeMaxNam → ∃ r, findNamed s.mem a0 d1 stat = some r ∧
    ∀ a, r = .pipe a ↔ s.live (s.mem.bytes a0 d1) = some a
  unlocked : s.mem.getU16 (stat + vBusy) = 0

/-- The descriptors a call may write to. -/
def Mgr.concerned (s : Mgr) (event : Event) : List Nat :=
  event.req.a1 :: s.masterOf event.req.a1 :: s.named.map Prod.fst

/-- One call: an open finds just the live pipes, and nothing is written beside the descriptors, the
head of the list and the lock. -/
structure Lawful (stat : Nat) (s : Mgr) (event : Event) (left : Left) : Prop where
  finds : ∀ q fresh name, event = .open q fresh → asked (laid s.mem q.a1 fresh) q = some name →
    (left.err = some errPnnf ↔ s.live name = none)
  frame : ∀ x, (∀ a ∈ s.concerned event, x < a ∨ a + 256 ≤ x) → (x < stat + vPipes ∨ stat + vPipes + 4 ≤ x) →
    (x < stat + vBusy ∨ stat + vBusy + 4 ≤ x) → left.mem x = s.mem x

/-- Every call of the run returns and is lawful, and the directory is right in every state. -/
def Upheld (stat : Nat) : Mgr → List Event → Prop
  | s, [] => Directory stat s
  | s, event :: events =>
    Directory stat s ∧ ∃ left, s.answer event = some left ∧ Lawful stat s event left ∧
      Upheld stat (s.after event left) events

/-! ### What callers promise -/

def Apart (a n b k : Nat) : Prop := a + n ≤ b ∨ b + k ≤ a

/-- A new descriptor lies apart from everything in use, names the device and has no name yet. -/
structure Laid (dev stat : Nat) (s : Mgr) (a1 : Nat) (fresh : Mem) : Prop where
  fits : a1 + 256 ≤ 4294967296
  dev_apart : Apart a1 256 dev 8
  stat_apart : Apart a1 256 stat 108
  paths_apart : ∀ p ∈ s.paths, Apart a1 256 p.1 256 ∧ Apart a1 256 p.2 256
  device : fresh.getU32 pdDev = dev
  unnamed : fresh.getU8 pdName = 0

def Proper (dev stat : Nat) (s : Mgr) : Event → Prop
  | .create q fresh => Laid dev stat s q.a1 fresh
  | .open q fresh => Laid dev stat s q.a1 fresh
  | .delete q fresh => Laid dev stat s q.a1 fresh
  | .close q => ∃ p ∈ s.paths, p.1 = q.a1

/-- A create with a name is of a name that is live already. -/
def Bound (s : Mgr) : Event → Prop
  | .create q fresh => ∀ name, asked (laid s.mem q.a1 fresh) q = some name → s.live name ≠ none
  | _ => True

/-- The device after its initialization: no paths, an empty list, the lock free. -/
structure Start (dev stat : Nat) (s : Mgr) : Prop where
  paths : s.paths = []
  named : s.named = []
  apart : Apart dev 8 stat 108
  device : s.mem.getU32 (dev + dtStat) = stat
  empty : s.mem.getU32 (stat + vPipes) = 0
  free : s.mem.getU16 (stat + vBusy) = 0

/-! ### Calls while the list is empty -/

theorem lockDev_free {m : Mem} {stat : Nat} (free : m.getU16 (stat + vBusy) = 0) (pid : Nat) :
    lockDev m stat pid = some (m.setU16 (stat + vBusy) pid) :=
  if_pos (.inl free)

theorem findNamed_empty {m : Mem} {stat : Nat} (empty : m.getU32 (stat + vPipes) = 0) (name len : Nat) :
    findNamed m name len stat = some (.nothing stat) := by
  unfold findNamed
  rw [show chainBound = 4294967295 + 1 from rfl, findLoop, if_pos empty]

theorem unlockDev_outside (m : Mem) {a2 x : Nat} (apart : x < a2 + vBusy ∨ a2 + vBusy + 4 ≤ x) :
    (unlockDev m a2).1 x = m x := by
  unfold vBusy at apart
  simp only [unlockDev]
  split
  all_goals
    simp only [vBusy, vWake]
    simp (disch := omega) only [Mem.setU16_outside]

theorem unlockDev_free (m : Mem) (a2 : Nat) : (unlockDev m a2).1.getU16 (a2 + vBusy) = 0 := by
  simp only [unlockDev]
  split
  · exact Mem.getU16_setU16 m _ 0
  · rw [Mem.getU16_setU16_apart _ _ (by unfold vBusy vWake; omega)]
    exact Mem.getU16_setU16 m _ 0

/-- Cells a new anonymous pipe leaves alone: those outside its descriptor and the start of its name. -/
def Spared (a1 x : Nat) : Prop := x < a1 ∨ a1 + 256 ≤ x ∨ x = a1 + pdName

theorem startCounts_spared (m : Mem) {a1 x : Nat} (spared : Spared a1 x) : startCounts m a1 x = m x := by
  unfold Spared pdName at spared
  simp only [startCounts]
  split_ifs
  all_goals
    simp only [pdRdOpn, pdWrOpn]
    simp (disch := omega) only [Mem.setU16_outside]

theorem initPD_spared (m : Mem) (q : Req) (a2 d0 : Nat) {x : Nat} (spared : Spared q.a1 x) :
    initPD m q a2 d0 x = m x := by
  have counts := fun m' => startCounts_spared m' spared
  unfold Spared pdName at spared
  simp only [initPD, pdBuf, pdBufSz, pdBufEnd, pdRdPtr, pdWrPtr, pdRdByt, pdWrSpc, pdRdWat, pdWrWat, pdWrWat2,
    pdRdSig, pdWrSig, pdFlags, pdDel, pdErr, pdXmask, pdHead, pdSelf, pdOwn, pdGrp, pdPerm]
  simp (disch := omega) only [Mem.setU8_of_ne, Mem.setU16_outside, Mem.setU32_outside, counts]

theorem startCounts_head (m : Mem) (a1 : Nat) : (startCounts m a1).getU32 (a1 + pdHead) = m.getU32 (a1 + pdHead) := by
  simp only [startCounts]
  split_ifs
  all_goals
    simp only [pdRdOpn, pdWrOpn, pdHead]
    simp (disch := omega) only [Mem.getU32_setU16_apart]

theorem initPD_head (m : Mem) {q : Req} (a2 d0 : Nat) (fits : q.a1 < 4294967296) :
    (initPD m q a2 d0).getU32 (q.a1 + pdHead) = q.a1 := by
  have self : ∀ m' : Mem, (m'.setU32 (q.a1 + 252) q.a1).getU32 (q.a1 + 100) = m'.getU32 (q.a1 + 100) :=
    fun m' => Mem.getU32_setU32_apart m' _ (by omega)
  have counts := fun m' => startCounts_head m' q.a1
  simp only [pdHead] at counts
  simp only [initPD, pdXmask, pdHead, pdSelf, pdOwn, pdGrp, pdPerm]
  simp (disch := omega) only [Mem.getU32_setU8_apart, counts, self, Mem.getU32_setU32_of_lt]

/-- A call that leaves the list alone: nothing but its descriptor and the lock changes. -/
structure Quiet (stat : Nat) (m : Mem) (a1 : Nat) (left : Left) : Prop where
  spared : ∀ x, Spared a1 x → (x < stat + vBusy ∨ stat + vBusy + 4 ≤ x) → left.mem x = m x
  unlocked : left.mem.getU16 (stat + vBusy) = 0
  headed : left.err = none → left.mem.getU32 (a1 + pdHead) = a1

section Quiet
variable {stat : Nat} {m : Mem} {q : Req}

theorem failed_quiet (free : m.getU16 (stat + vBusy) = 0) (code : Nat) : Quiet stat m q.a1 (failed m code) :=
  ⟨fun _ _ _ => rfl, free, nofun⟩

theorem failedUnlock_quiet (v code : Nat) :
    Quiet stat m q.a1 (failedUnlock (m.setU16 (stat + vBusy) v) stat code) := by
  refine ⟨?_, unlockDev_free _ _, nofun⟩
  intro x _ apart
  exact (unlockDev_outside _ apart).trans (Mem.setU16_outside _ _ (by omega))

theorem setupBuffer_unnamed (m : Mem) (q : Req) {d3 : Nat} (unnamed : d3 % 65536 = 0) :
    (∃ code, setupBuffer m q d3 = { mem := m, err := some code, sent := [], freed := [] }) ∨
      ∃ a2 d0, setupBuffer m q d3 =
        { mem := (initPD m q a2 d0).setU16 (q.a1 + pdCount) 1, err := none, sent := [], freed := [] } := by
  simp only [setupBuffer, unnamed, if_true]
  split
  · exact .inr ⟨_, _, rfl⟩
  · split
    · next code _ => exact .inl ⟨code, rfl⟩
    · exact .inr ⟨_, _, rfl⟩

/-- Without a name the length the caller left in `d3` has no lower half. -/
theorem createAnonymous_cases (m : Mem) (q : Req) :
    ∃ m', (∀ x, Spared q.a1 x → m' x = m x) ∧
      ((∃ code, createAnonymous m q = { mem := m', err := some code, sent := [], freed := [] }) ∨
        ∃ a2 d0, createAnonymous m q =
          { mem := (initPD m' q a2 d0).setU16 (q.a1 + pdCount) 1, err := none, sent := [], freed := [] }) := by
  refine ⟨(m.setU8 (q.a1 + pdMod) (m.getU8 (q.a1 + pdMod) ||| 3)).setU8 (q.a1 + pdFlags)
    ((m.setU8 (q.a1 + pdMod) (m.getU8 (q.a1 + pdMod) ||| 3)).getU8 (q.a1 + pdFlags) ||| 0x80), ?_, ?_⟩
  · intro x spared
    unfold Spared pdName at spared
    rw [Mem.setU8_of_ne _ _ (by unfold pdFlags; omega), Mem.setU8_of_ne _ _ (by unfold pdMod; omega)]
  · rw [createAnonymous]
    exact setupBuffer_unnamed _ q (Nat.mul_mod_left _ _)

theorem createAnonymous_quiet (free : m.getU16 (stat + vBusy) = 0) (apart : Apart q.a1 256 stat 108)
    (fits : q.a1 < 4294967296) : Quiet stat m q.a1 (createAnonymous m q) := by
  obtain ⟨m', same, ⟨code, made⟩ | ⟨a2, d0, made⟩⟩ := createAnonymous_cases m q
  all_goals rw [made]; unfold Apart at apart
  · refine ⟨fun x spared _ => same x spared, ?_, nofun⟩
    rw [← free]
    exact Mem.getU16_congr (fun x low high => same x (by unfold Spared; unfold vBusy at low high; omega))
  · have kept : ∀ x, Spared q.a1 x → ((initPD m' q a2 d0).setU16 (q.a1 + pdCount) 1) x = m x := by
      intro x spared
      rw [Mem.setU16_outside _ _ (by unfold Spared pdName at spared; unfold pdCount; omega),
        initPD_spared m' q a2 d0 spared, same x spared]
    refine ⟨fun x spared _ => kept x spared, ?_, ?_⟩
    · rw [← free]
      exact Mem.getU16_congr (fun x low high => kept x (by unfold Spared; unfold vBusy at low high; omega))
    · intro _
      rw [Mem.getU32_setU16_apart _ _ (by unfold pdHead pdCount; omega)]
      exact initPD_head m' a2 d0 fits

theorem create_quiet (free : m.getU16 (stat + vBusy) = 0) (apart : Apart q.a1 256 stat 108)
    (fits : q.a1 < 4294967296) (anonymous : asked m q = none) :
    ∃ left, create m q = some left ∧ Quiet stat m q.a1 left := by
  have made := createAnonymous_quiet free apart fits
  unfold asked parsed at anonymous
  unfold create
  by_cases badMode : (m.getU8 (q.a1 + pdMod)).testBit 7
  · exact ⟨_, if_pos badMode, failed_quiet free _⟩
  rw [if_neg badMode]
  by_cases noName : q.name = 0
  · exact ⟨_, if_pos noName, made⟩
  rw [if_neg noName]
  rw [if_neg (by simp [badMode, noName])] at anonymous
  cases parse : parseName q m q.name with
  | error code => exact ⟨_, rfl, failed_quiet free _⟩
  | ok name =>
    obtain ⟨a0, d1⟩ := name
    rw [parse] at anonymous
    by_cases none : d1 = 0
    · exact ⟨_, if_pos none, made⟩
    · simp only [none, if_false, reduceCtorEq] at anonymous

/-- What the empty list answers once the device is locked. -/
theorem locked_empty (free : m.getU16 (stat + vBusy) = 0) (empty : m.getU32 (stat + vPipes) = 0) (pid a0 d1 : Nat) :
    lockDev m stat pid = some (m.setU16 (stat + vBusy) pid) ∧
      findNamed (m.setU16 (stat + vBusy) pid) a0 d1 stat = some (.nothing stat) := by
  refine ⟨lockDev_free free pid, findNamed_empty ?_ a0 d1⟩
  rw [Mem.getU32_setU16_apart _ _ (by unfold vPipes vBusy; omega), empty]

theorem open_quiet (free : m.getU16 (stat + vBusy) = 0) (apart : Apart q.a1 256 stat 108)
    (fits : q.a1 < 4294967296) (empty : m.getU32 (stat + vPipes) = 0) (device : statOf m q.a1 = stat) :
    ∃ left, «open» m q = some left ∧ Quiet stat m q.a1 left ∧
      ∀ name, asked m q = some name → left.err = some errPnnf := by
  have made := createAnonymous_quiet free apart fits
  unfold asked parsed «open»
  by_cases badMode : (m.getU8 (q.a1 + pdMod)).testBit 7
  · exact ⟨_, if_pos badMode, failed_quiet free _, by simp [badMode]⟩
  rw [if_neg badMode]
  by_cases noName : q.name = 0
  · exact ⟨_, if_pos noName, made, by simp [noName]⟩
  rw [if_neg noName]
  cases parse : parseName q m q.name with
  | error code => exact ⟨_, rfl, failed_quiet free _, by simp⟩
  | ok name =>
    obtain ⟨a0, d1⟩ := name
    by_cases none : d1 = 0
    · exact ⟨_, if_pos none, made, by simp [none]⟩
    · obtain ⟨locked, missing⟩ := locked_empty free empty q.pid a0 d1
      refine ⟨failedUnlock (m.setU16 (stat + vBusy) q.pid) stat errPnnf, ?_, failedUnlock_quiet _ _, fun _ _ => rfl⟩
      refine (if_neg none).trans ?_
      rw [device, locked]
      dsimp only
      rw [missing]

theorem delete_quiet (free : m.getU16 (stat + vBusy) = 0) (empty : m.getU32 (stat + vPipes) = 0)
    (device : statOf m q.a1 = stat) : ∃ left, delete m q = some left ∧ Quiet stat m q.a1 left ∧ left.err ≠ none := by
  unfold delete
  cases parse : parseName q m q.name with
  | error code => exact ⟨_, rfl, failed_quiet free _, nofun⟩
  | ok name =>
    obtain ⟨a0, d1⟩ := name
    obtain ⟨locked, missing⟩ := locked_empty free empty q.pid a0 d1
    refine ⟨failedUnlock (m.setU16 (stat + vBusy) q.pid) stat errPnnf, ?_, failedUnlock_quiet _ _, nofun⟩
    dsimp only
    rw [device, locked]
    dsimp only
    rw [missing]

end Quiet

/-! ### Closing -/

theorem closeEnds_outside (m : Mem) (a1 : Nat) {a2 x : Nat}
    (apart : (x < a2 + pdCount ∨ a2 + pdCount + 2 ≤ x) ∧ (x < a2 + pdRdWat ∨ a2 + pdFlags ≤ x) ∧
      (x < a2 + pdWrWat ∨ a2 + pdWrWat + 2 ≤ x)) : (closeEnds m a1 a2).1 x = m x := by
  unfold pdCount pdRdWat pdFlags pdWrWat at apart
  simp only [closeEnds]
  split
  all_goals
    simp only [setEnds, pdCount, pdRdWat, pdRdOpn, pdWrOpn, pdWrWat]
    simp (disch := omega) only [Mem.setU16_outside]

/-- Closing a path of a pipe without a name. -/
theorem close_unnamed {m : Mem} {q : Req} (unnamed : m.getU8 (headOf m q.a1 + pdName) = 0) :
    ∃ left, close m q = some left ∧ left.err = none ∧ left.mem = (closeEnds m q.a1 (headOf m q.a1)).1 := by
  have kept : (closeEnds m q.a1 (headOf m q.a1)).1.getU8 (headOf m q.a1 + pdName) = 0 := by
    rw [Mem.getU8_congr (closeEnds_outside m q.a1 (by unfold pdName pdCount pdRdWat pdFlags pdWrWat; omega)), unnamed]
  simp only [close, kept, if_true]
  split
  · exact ⟨_, rfl, rfl, rfl⟩
  · exact ⟨_, rfl, rfl, rfl⟩

/-! ### The run -/

/-- An open path of an anonymous pipe. -/
structure Settled (dev stat : Nat) (m : Mem) (p : Nat × Nat) : Prop where
  own : p.2 = p.1
  dev_apart : Apart p.1 256 dev 8
  stat_apart : Apart p.1 256 stat 108
  headed : m.getU32 (p.1 + pdHead) = p.1
  unnamed : m.getU8 (p.1 + pdName) = 0

theorem Settled.congr {dev stat : Nat} {m m' : Mem} {p : Nat × Nat} (settled : Settled dev stat m p)
    (same : ∀ x, p.1 ≤ x → x < p.1 + 256 → m' x = m x) : Settled dev stat m' p := by
  obtain ⟨own, dev_apart, stat_apart, headed, unnamed⟩ := settled
  refine ⟨own, dev_apart, stat_apart, ?_, ?_⟩
  · refine (Mem.getU32_congr ?_).trans headed
    intro x low high
    unfold pdHead at low high
    exact same x (by omega) (by omega)
  · rw [← unnamed]
    exact Mem.getU8_congr (same _ (by omega) (by unfold pdName; omega))

/-- As long as no pipe has a name. -/
structure Nameless (dev stat : Nat) (s : Mgr) : Prop where
  apart : Apart dev 8 stat 108
  named : s.named = []
  device : s.mem.getU32 (dev + dtStat) = stat
  empty : s.mem.getU32 (stat + vPipes) = 0
  free : s.mem.getU16 (stat + vBusy) = 0
  settled : ∀ p ∈ s.paths, Settled dev stat s.mem p
  paths_apart : s.paths.Pairwise (fun p p' => Apart p.1 256 p'.1 256)

namespace Nameless
variable {dev stat : Nat} {s : Mgr}

theorem live_none (nameless : Nameless dev stat s) (name : List UInt8) : s.live name = none := by
  unfold Mgr.live
  rw [nameless.named]
  rfl

theorem directory (nameless : Nameless dev stat s) : Directory stat s := by
  have none := nameless.live_none
  obtain ⟨_, named, _, empty, free, _, _⟩ := nameless
  refine ⟨⟨[], empty, ?_⟩, ?_, ?_, ?_, free⟩
  · rw [named]
    exact List.Perm.refl _
  · rw [named]
    nofun
  · rw [named]
    exact List.Pairwise.nil
  · intro a0 d1 _ _
    refine ⟨_, findNamed_empty empty a0 d1, ?_⟩
    intro a
    simp [none]

/-- The memory after a call that writes only to `[a1, a1 + 256)` and the lock. -/
theorem after_quiet (nameless : Nameless dev stat s) {m : Mem} {a1 : Nat}
    (dev_apart : Apart a1 256 dev 8) (stat_apart : Apart a1 256 stat 108)
    (same : ∀ x, (x < a1 ∨ a1 + 256 ≤ x) → (x < stat + vBusy ∨ stat + vBusy + 4 ≤ x) → m x = s.mem x) :
    m.getU32 (dev + dtStat) = stat ∧ m.getU32 (stat + vPipes) = 0 ∧
      ∀ p ∈ s.paths, Apart a1 256 p.1 256 → Settled dev stat m p := by
  obtain ⟨apart, _, device, empty, _, settled, _⟩ := nameless
  unfold Apart at apart dev_apart stat_apart
  unfold vBusy at same
  refine ⟨?_, ?_, ?_⟩
  · refine (Mem.getU32_congr ?_).trans device
    intro x low high
    unfold dtStat at low high
    exact same x (by omega) (by omega)
  · rw [← empty]
    apply Mem.getU32_congr
    intro x low high
    unfold vPipes at low high
    exact same x (by omega) (by omega)
  · intro p member away
    have stat_away := (settled p member).stat_apart
    unfold Apart at away stat_away
    exact (settled p member).congr (fun x low high => same x (by omega) (by omega))

end Nameless

namespace Nameless
variable {dev stat : Nat} {s : Mgr}

theorem laid_outside (m : Mem) (fresh : Mem) {a1 x : Nat} (apart : x < a1 ∨ a1 + 256 ≤ x) : laid m a1 fresh x = m x :=
  Mem.blit_outside m fresh 0 apart

theorem laid_inside (m : Mem) (fresh : Mem) {a1 i : Nat} (inside : i < 256) : laid m a1 fresh (a1 + i) = fresh i := by
  unfold laid Mem.blit
  rw [if_pos ⟨by omega, by omega⟩]
  congr 1
  omega

theorem laid_dev (m fresh : Mem) (a1 : Nat) : (laid m a1 fresh).getU32 (a1 + pdDev) = fresh.getU32 pdDev := by
  unfold Mem.getU32 Mem.getU16 Mem.getU8 pdDev
  simp only [Nat.add_assoc, laid_inside m fresh (show 4 < 256 by decide), laid_inside m fresh (show 4 + 1 < 256 by decide),
    laid_inside m fresh (show 4 + 2 < 256 by decide), laid_inside m fresh (show 4 + (2 + 1) < 256 by decide)]

theorem laid_device {m fresh : Mem} {a1 : Nat} (device : fresh.getU32 pdDev = dev)
    (named : m.getU32 (dev + dtStat) = stat) (apart : Apart a1 256 dev 8) : statOf (laid m a1 fresh) a1 = stat := by
  unfold statOf
  rw [laid_dev, device, ← named]
  unfold Apart at apart
  apply Mem.getU32_congr
  intro x low high
  unfold dtStat at low high
  exact laid_outside m fresh (by omega)

/-- The state before a call with a new descriptor, as the call sees it. -/
theorem before (nameless : Nameless dev stat s) {a1 : Nat} {fresh : Mem} (new : Laid dev stat s a1 fresh) :
    (laid s.mem a1 fresh).getU16 (stat + vBusy) = 0 ∧ (laid s.mem a1 fresh).getU32 (stat + vPipes) = 0 ∧
      statOf (laid s.mem a1 fresh) a1 = stat := by
  obtain ⟨_, _, device, empty, free, _, _⟩ := nameless
  have apart := new.stat_apart
  unfold Apart at apart
  refine ⟨?_, ?_, laid_device new.device device new.dev_apart⟩
  · rw [← free]
    apply Mem.getU16_congr
    intro x low high
    unfold vBusy at low high
    exact laid_outside _ _ (by omega)
  · rw [← empty]
    apply Mem.getU32_congr
    intro x low high
    unfold vPipes at low high
    exact laid_outside _ _ (by omega)

/-- A quiet call changes nothing outside its descriptor and the lock. -/
theorem quiet_outside {a1 : Nat} {fresh : Mem} {left : Left} (quiet : Quiet stat (laid s.mem a1 fresh) a1 left) {x : Nat}
    (outside : x < a1 ∨ a1 + 256 ≤ x) (unlocked : x < stat + vBusy ∨ stat + vBusy + 4 ≤ x) :
    left.mem x = s.mem x := by
  rw [quiet.spared x (outside.elim .inl (fun high => .inr (.inl high))) unlocked]
  exact laid_outside _ _ outside

/-- After a quiet call, whether the path it was for is open now or not. -/
theorem keeps (nameless : Nameless dev stat s) {a1 : Nat} {fresh : Mem} {left : Left}
    (new : Laid dev stat s a1 fresh) (quiet : Quiet stat (laid s.mem a1 fresh) a1 left) :
    Nameless dev stat { s with mem := left.mem } ∧
      (left.err = none → Nameless dev stat { s with mem := left.mem, paths := (a1, a1) :: s.paths }) := by
  obtain ⟨device, empty, settled⟩ := nameless.after_quiet new.dev_apart new.stat_apart
    (fun x outside unlocked => quiet_outside quiet outside unlocked)
  have others : ∀ p ∈ s.paths, Settled dev stat left.mem p :=
    fun p member => settled p member (new.paths_apart p member).1
  refine ⟨⟨nameless.apart, nameless.named, device, empty, quiet.unlocked, others, nameless.paths_apart⟩, ?_⟩
  intro success
  refine ⟨nameless.apart, nameless.named, device, empty, quiet.unlocked, ?_, ?_⟩
  · intro p member
    obtain rfl | member := List.mem_cons.mp member
    · refine ⟨rfl, new.dev_apart, new.stat_apart, quiet.headed success, ?_⟩
      have away := new.stat_apart
      unfold Apart at away
      have kept := quiet.spared (a1 + pdName) (.inr (.inr rfl)) (by unfold pdName vBusy; omega)
      rw [laid_inside _ _ (by decide)] at kept
      rw [← new.unnamed]
      exact congrArg UInt8.toNat kept
    · exact others p member
  · exact List.Pairwise.cons (fun p member => (new.paths_apart p member).1) nameless.paths_apart

/-- A quiet call that does not look for a live pipe in vain. -/
theorem quiet_lawful (nameless : Nameless dev stat s) {event : Event} {left : Left} {fresh : Mem}
    (quiet : Quiet stat (laid s.mem event.req.a1 fresh) event.req.a1 left)
    (finds : ∀ q fresh name, event = .open q fresh → asked (laid s.mem q.a1 fresh) q = some name →
      left.err = some errPnnf) : Lawful stat s event left := by
  refine ⟨?_, ?_⟩
  · intro q fresh name is named
    exact iff_of_true (finds q fresh name is named) (nameless.live_none name)
  · intro x outside _ unlocked
    exact quiet_outside quiet (outside _ List.mem_cons_self) unlocked

theorem step_create (nameless : Nameless dev stat s) {q : Req} {fresh : Mem} (new : Laid dev stat s q.a1 fresh)
    (bound : Bound s (.create q fresh)) :
    ∃ left, s.answer (.create q fresh) = some left ∧ Lawful stat s (.create q fresh) left ∧
      Nameless dev stat (s.after (.create q fresh) left) := by
  have anonymous : asked (laid s.mem q.a1 fresh) q = none := by
    rw [Option.eq_none_iff_forall_ne_some]
    intro name is
    exact bound name is (nameless.live_none name)
  obtain ⟨free, _, _⟩ := nameless.before new
  obtain ⟨left, made, quiet⟩ := create_quiet free new.stat_apart (by have := new.fits; omega) anonymous
  obtain ⟨stays, opens⟩ := nameless.keeps new quiet
  refine ⟨left, made, nameless.quiet_lawful quiet (by simp), ?_⟩
  unfold Mgr.after
  by_cases success : left.err = none
  · simp only [success, ne_eq, not_true, if_false, anonymous]
    exact opens success
  · rw [if_pos success]
    exact stays

theorem step_open (nameless : Nameless dev stat s) {q : Req} {fresh : Mem} (new : Laid dev stat s q.a1 fresh) :
    ∃ left, s.answer (.open q fresh) = some left ∧ Lawful stat s (.open q fresh) left ∧
      Nameless dev stat (s.after (.open q fresh) left) := by
  obtain ⟨free, empty, device⟩ := nameless.before new
  obtain ⟨left, made, quiet, missing⟩ := open_quiet free new.stat_apart (by have := new.fits; omega) empty device
  obtain ⟨stays, opens⟩ := nameless.keeps new quiet
  refine ⟨left, made, nameless.quiet_lawful quiet ?_, ?_⟩
  · intro q' fresh' name is named
    cases is
    exact missing name named
  · unfold Mgr.after
    by_cases success : left.err = none
    · have own : ((asked (laid s.mem q.a1 fresh) q).bind s.live).getD q.a1 = q.a1 := by
        cases asked (laid s.mem q.a1 fresh) q with
        | none => rfl
        | some name => rw [Option.bind_some, nameless.live_none name]; rfl
      simp only [success, ne_eq, not_true, if_false, own]
      exact opens success
    · rw [if_pos success]
      exact stays

theorem step_delete (nameless : Nameless dev stat s) {q : Req} {fresh : Mem} (new : Laid dev stat s q.a1 fresh) :
    ∃ left, s.answer (.delete q fresh) = some left ∧ Lawful stat s (.delete q fresh) left ∧
      Nameless dev stat (s.after (.delete q fresh) left) := by
  obtain ⟨free, empty, device⟩ := nameless.before new
  obtain ⟨left, made, quiet, fails⟩ := delete_quiet free empty device
  refine ⟨left, made, nameless.quiet_lawful quiet (by simp), ?_⟩
  unfold Mgr.after
  rw [if_pos fails]
  exact (nameless.keeps new quiet).1

theorem step_close (nameless : Nameless dev stat s) {q : Req} (opened : Proper dev stat s (.close q)) :
    ∃ left, s.answer (.close q) = some left ∧ Lawful stat s (.close q) left ∧
      Nameless dev stat (s.after (.close q) left) := by
  obtain ⟨p, member, here⟩ := opened
  obtain ⟨own, dev_apart, stat_apart, headed, unnamed⟩ := nameless.settled p member
  rw [here] at dev_apart stat_apart headed unnamed
  have head : headOf s.mem q.a1 = q.a1 := by
    unfold headOf
    split
    · rfl
    · exact headed
  obtain ⟨left, made, success, mem⟩ := close_unnamed (m := s.mem) (q := q) (by rw [head]; exact unnamed)
  rw [head] at mem
  have outside : ∀ x, x < q.a1 ∨ q.a1 + 256 ≤ x → left.mem x = s.mem x := by
    intro x apart
    rw [mem]
    exact closeEnds_outside _ _ (by unfold pdCount pdRdWat pdFlags pdWrWat; omega)
  have free : left.mem.getU16 (stat + vBusy) = 0 := by
    rw [← nameless.free]
    unfold Apart at stat_apart
    apply Mem.getU16_congr
    intro x low high
    unfold vBusy at low high
    exact outside x (by omega)
  refine ⟨left, made, ⟨by simp, fun x apart _ _ => outside x (apart _ List.mem_cons_self)⟩, ?_⟩
  obtain ⟨device, empty, settled⟩ := nameless.after_quiet dev_apart stat_apart (fun x apart _ => outside x apart)
  simp only [Mgr.after, success, ne_eq, not_true, if_false]
  refine ⟨nameless.apart, by simp [nameless.named], device, empty, free, ?_, nameless.paths_apart.filter _⟩
  intro p' member'
  obtain ⟨listed, other⟩ := List.mem_filter.mp member'
  refine settled p' listed ?_
  have different : p ≠ p' := by
    rintro rfl
    simp [here] at other
  have symmetric : Std.Symm (fun p p' : Nat × Nat => Apart p.1 256 p'.1 256) := ⟨fun _ _ => Or.symm⟩
  rw [← here]
  exact nameless.paths_apart.forall member listed different

/-- One call of a run that makes no new named pipe. -/
theorem step_lawful (nameless : Nameless dev stat s) {event : Event} (proper : Proper dev stat s event)
    (bound : Bound s event) :
    ∃ left, s.answer event = some left ∧ Lawful stat s event left ∧ Nameless dev stat (s.after event left) := by
  cases event with
  | create q fresh => exact nameless.step_create proper bound
  | «open» q fresh => exact nameless.step_open proper
  | close q => exact nameless.step_close proper
  | delete q fresh => exact nameless.step_delete proper

end Nameless

theorem Start.nameless {dev stat : Nat} {s : Mgr} (start : Start dev stat s) : Nameless dev stat s := by
  obtain ⟨paths, named, apart, device, empty, free⟩ := start
  refine ⟨apart, named, device, empty, free, ?_, ?_⟩
  · rw [paths]
    nofun
  · rw [paths]
    exact List.Pairwise.nil

theorem upheld_of_nameless {dev stat : Nat} {s : Mgr} {events : List Event} (nameless : Nameless dev stat s)
    (meets : RunMeets Mgr.step (fun s event => Proper dev stat s event ∧ Bound s event) s events) :
    Upheld stat s events := by
  induction events generalizing s with
  | nil => exact nameless.directory
  | cons event events ih =>
    obtain ⟨⟨proper, bound⟩, rest⟩ := meets
    obtain ⟨left, made, lawful, next⟩ := nameless.step_lawful proper bound
    have stepped : s.step event = some (s.after event left) := by
      unfold Mgr.step
      rw [made]
      rfl
    exact ⟨nameless.directory, left, made, lawful, ih next (rest _ stepped)⟩

/-- In every run in which no call makes a new named pipe the directory is right throughout: a new
named pipe is entered with the length and the place of its name taken from registers that hold
something else by then. -/
theorem pipe_directory {dev stat : Nat} {s : Mgr} {events : List Event} (start : Start dev stat s)
    (meets : RunMeets Mgr.step (fun s event => Proper dev stat s event ∧ Bound s event) s events) :
    Upheld stat s events :=
  upheld_of_nameless start.nameless meets

/-! ### A device with one path descriptor -/

/-- `F$PrsNam` on paths of plain characters. -/
def namEnd (m : Mem) : Nat → Nat → Nat
  | 0, a => a
  | fuel + 1, a => if m.getU8 a = 0 ∨ m.getU8 a = 0x2F then a else namEnd m fuel (a + 1)

def samplePrs (m : Mem) (a : Nat) : Except Nat Prs :=
  let start := if m.getU8 a = 0x2F then a + 1 else a
  let behind := namEnd m 32 start
  if behind = start then .error errBpnam else .ok ⟨m.getU8 behind, behind - start, behind⟩

/-- The static storage at 0x2000, the device at 0x1000 and the text `/pipe/abc` at 0x4000. -/
def sampleMem : Mem := fun x =>
  if x = 0x1006 then 0x20
  else if 0x4000 ≤ x then [47, 112, 105, 112, 101, 47, 97, 98, 99].getD (x - 0x4000) 0
  else 0

def sampleFresh : Mem := fun x => if x = pdMod then 3 else if x = pdDev + 2 then 0x10 else 0

def sampleReq (name : Nat) : Req :=
  { a1 := 0x3000, pid := 5, user := 0, name := name, size := 0, perm := 3, d3 := 0, prsNam := samplePrs,
    grant := .error 0xED }

def sampleStart : Mgr := { mem := sampleMem, paths := [], named := [] }

theorem sampleStart_start : Start 0x1000 0x2000 sampleStart :=
  ⟨rfl, rfl, by unfold Apart; decide, by decide, by decide, by decide⟩

theorem sample_laid {s : Mgr} (paths : s.paths = []) : Laid 0x1000 0x2000 s 0x3000 sampleFresh :=
  ⟨by decide, by unfold Apart; decide, by unfold Apart; decide, by simp [paths], by decide, by decide⟩

/-- Nobody has made the pipe `abc` when it is opened and deleted; then an anonymous pipe is opened
and closed. -/
def unnamedCalls : List Event :=
  [.open (sampleReq 0x4000) sampleFresh, .delete (sampleReq 0x4000) sampleFresh, .open (sampleReq 0) sampleFresh,
    .close (sampleReq 0)]

/-- The two calls with the name do not find it, the others succeed. -/
theorem pipe_directory_anonymous :
    Start 0x1000 0x2000 sampleStart ∧ Upheld 0x2000 sampleStart unnamedCalls ∧
      (sampleStart.answer (.open (sampleReq 0x4000) sampleFresh)).map Left.err = some (some errPnnf) ∧
      (run Mgr.step sampleStart (unnamedCalls.take 3)).map Mgr.paths = some [(0x3000, 0x3000)] := by
  have none_first : (sampleStart.step (.open (sampleReq 0x4000) sampleFresh)).map Mgr.paths = some [] := by decide
  have none_second : (run Mgr.step sampleStart (unnamedCalls.take 2)).map Mgr.paths = some [] := by decide
  have one_third : (run Mgr.step sampleStart (unnamedCalls.take 3)).map Mgr.paths = some [(0x3000, 0x3000)] := by decide
  refine ⟨sampleStart_start, pipe_directory sampleStart_start ⟨⟨sample_laid rfl, trivial⟩, ?_⟩, by decide, one_third⟩
  intro s first
  rw [first] at none_first
  refine ⟨⟨sample_laid (Option.some.inj none_first), trivial⟩, fun s' second => ?_⟩
  have ran : run Mgr.step sampleStart (unnamedCalls.take 2) = some s' := run_step first (run_step second rfl)
  rw [ran] at none_second
  refine ⟨⟨sample_laid (Option.some.inj none_second), trivial⟩, fun s'' third => ?_⟩
  have ran : run Mgr.step sampleStart (unnamedCalls.take 3) = some s'' := run_step first (run_step second (run_step third rfl))
  rw [ran] at one_third
  refine ⟨⟨⟨(0x3000, 0x3000), ?_, rfl⟩, trivial⟩, fun _ _ => trivial⟩
  rw [Option.some.inj one_third]
  exact List.mem_singleton_self _

/-- The first pipe with a name, `abc`, is entered with an empty one. -/
theorem pipe_directory_misnamed :
    ¬ ∀ (dev stat : Nat) (s : Mgr) (events : List Event), Start dev stat s →
      RunMeets Mgr.step (Proper dev stat) s events → Upheld stat s events := by
  intro always
  obtain ⟨_, left, made, _, directory⟩ := always 0x1000 0x2000 sampleStart [.create (sampleReq 0x4000) sampleFresh]
    sampleStart_start ⟨sample_laid rfl, fun _ _ => trivial⟩
  have stored : (sampleStart.step (.create (sampleReq 0x4000) sampleFresh)).map
      (fun s => (s.named, s.mem.bytes (0x3000 + pdName) 3)) = some ([(0x3000, [97, 98, 99])], [0, 0, 0]) := by
    decide +kernel
  unfold Mgr.step at stored
  rw [made] at stored
  obtain ⟨named, bytes⟩ := Prod.mk.inj (Option.some.inj stored)
  have name := (directory.names (0x3000, [97, 98, 99]) (by rw [named]; exact List.mem_singleton_self _)).1
  have wrong := bytes.symm.trans name
  revert wrong
  decide

end Q9OS.Pipe.Names

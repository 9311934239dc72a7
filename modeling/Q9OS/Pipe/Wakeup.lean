import Q9OS.Pipe.Queue

/-!
# Wake-ups on a pipe

Who sleeps in a pipe and whom the waiter words name, over runs of reads,
writes and closes of any processes.
-/

namespace Q9OS.Pipe

/-! ### The machine -/

/-- What had happened when a process last left its call or went to sleep in it. -/
structure Mark where
  sent : Nat
  accepted : Nat
  delivered : Nat

/-- A pipe with its open paths, by number and mode byte. -/
structure Pipes where
  sys : Sys
  paths : List (Nat × Nat)
  mark : Nat → Mark

/-- A call begins, a sleep ends, a path is closed, or user memory, locks and signals change. -/
inductive Act
  | call (dir : Dir) (line : Bool) (pid path a0 d1 : Nat)
  | wake (pid : Nat)
  | close (path : Nat)
  | outside (user : Mem) (cpr signal : Nat → Nat)

def Sys.now (s : Sys) : Mark :=
  { sent := s.world.sent.length, accepted := s.accepted.length, delivered := s.delivered.length }

def Pipes.ran (s : Pipes) (pid : Nat) (sys : Sys) : Pipes :=
  { s with sys := sys, mark := Function.update s.mark pid sys.now }

/-- Process IDs are nonzero words. -/
def Pipes.step (s : Pipes) : Act → Option Pipes
  | .call dir line pid path a0 d1 =>
    if 0 < pid ∧ pid < 65536 then (s.sys.step (.call dir line pid path a0 d1)).map (s.ran pid) else none
  | .wake pid => (s.sys.step (.wake pid)).map (s.ran pid)
  | .close path =>
    match s.paths.find? (fun p => p.1 == path) with
    | none => none
    | some (_, mode) =>
      some { s with
        sys := { s.sys with world := s.sys.world.close mode }
        paths := s.paths.eraseP (fun p => p.1 == path) }
  | .outside user cpr signal =>
    some { s with sys := { s.sys with world := { s.sys.world with user := user, cpr := cpr, signal := signal } } }

/-- The bit of the mode byte that makes a path a partner for sleepers of this direction. -/
def Dir.partnerBit : Dir → Nat
  | .read => 1
  | .write => 0

/-- The open paths a sleeper of this direction waits for. -/
def Pipes.partners (s : Pipes) (dir : Dir) : Nat := s.paths.countP (fun p => p.2.testBit dir.partnerBit)

/-- What has gone into the ring that a sleeper of this direction waits for: bytes, or space. -/
def Sys.fed (s : Sys) : Dir → Nat
  | .read => s.accepted.length
  | .write => s.delivered.length

def Mark.fed (m : Mark) : Dir → Nat
  | .read => m.accepted
  | .write => m.delivered

/-- No wake-up has been sent to the process since it went to sleep. -/
def Pipes.Unwoken (s : Pipes) (pid : Nat) : Prop := (pid, 1) ∉ s.sys.world.sent.drop (s.mark pid).sent

/-- Whoever sleeps for data or space without a wake-up is known under its own PID, nothing has been
moved for it since, and the other side is still open. -/
def Pipes.NoneLost (s : Pipes) : Prop :=
  ∀ pid c, s.sys.calls pid = some (c, .wait) → s.Unwoken pid →
    s.sys.world.waiter c.dir = pid ∧ s.sys.fed c.dir = (s.mark pid).fed c.dir ∧ 0 < s.partners c.dir

/-! ### Where it holds -/

/-- The bytes a line call looks for a CR in before it would have to sleep. -/
def Call.ahead (r : Ring) (w : World) (c : Call) : List UInt8 :=
  match c.dir with
  | .read => r.queued
  | .write => w.user.bytes (c.a3 + c.d5) r.wrSpc

/-- The call does not first move something and then sleep: there is nothing to move, or enough for
the whole request, or the other side is closed, or its line ends in what there is. -/
def Fits (r : Ring) (w : World) (c : Call) : Prop :=
  r.avail c.dir = 0 ∨ c.d6 ≤ r.avail c.dir ∨ w.partners c.dir = 0 ∨ (c.line = true ∧ 13 ∈ c.ahead r w)

/-- The waiter word is free if the call sleeps at once. -/
def Clear (r : Ring) (w : World) (c : Call) : Prop :=
  r.avail c.dir = 0 → w.partners c.dir ≠ 0 → c.d6 ≠ 0 → w.waiter c.dir = 0

/-- What each step has to meet. A call must not sleep after a transfer, and not where another
process waits already. A process that wakes up must not find another one in its waiter word. A
path of both modes must not be closed unless bit 1 of the waiting writer's PID is set, which
`Pipe_Close` takes for the path's write mode. -/
def Pipes.Safe (s : Pipes) : Act → Prop
  | .call dir line pid path a0 d1 =>
    let c := Call.enter dir line pid path a0 (d1 % 4294967296)
    Fits s.sys.ring s.sys.world c ∧ Clear s.sys.ring s.sys.world c
  | .wake pid => ∀ c place, s.sys.calls pid = some (c, place) →
    (place = .wait → s.sys.world.waiter c.dir = 0 ∨ s.sys.world.waiter c.dir = pid) ∧
      (s.sys.world.cpr c.path = 0 → s.sys.world.signal pid = 0 →
        Fits s.sys.ring s.sys.world c ∧ (place = .acquire → Clear s.sys.ring s.sys.world c))
  | .close path => ∀ n mode, s.paths.find? (fun p => p.1 == path) = some (n, mode) →
    mode.testBit 1 → mode.testBit 0 → s.sys.world.rdOpn ≠ 0 → s.sys.world.wrWat.testBit 1
  | .outside _ _ _ => True

/-! ### The loops sleep for data or space -/

theorem rdLoop_place (fuel : Nat) (r : Ring) (w : World) (c c' : Call) :
    (rdLoop fuel r w c).2.2 ≠ .asleep c' .acquire := by
  induction fuel generalizing r w c with
  | zero => simp [rdLoop]
  | succ fuel ih =>
    unfold rdLoop
    split
    · simp
    · split
      · split
        · split <;> simp
        · simp
      · dsimp only
        split
        · simp
        · exact ih _ _ _

theorem wrLoop_place (fuel : Nat) (r : Ring) (w : World) (c c' : Call) :
    (wrLoop fuel r w c).2.2 ≠ .asleep c' .acquire := by
  induction fuel generalizing r w c with
  | zero => simp [wrLoop]
  | succ fuel ih =>
    unfold wrLoop
    split
    · simp
    · split
      · split <;> simp
      · split
        · simp
        · dsimp only
          split
          · simp
          · exact ih _ _ _

/-- A call whose request fits sleeps with nothing moved. -/
theorem Fits.nothing {r r' : Ring} {w : World} {c c' : Call} {new : List UInt8} (fits : Fits r w c) (ok : r.Ok)
    (ok' : r'.Ok) (moved : Moved c.dir r r' new) (before : c.Ok) (good : (Outcome.asleep c' .wait).Good c new)
    (source : c.dir = .write → new = w.user.bytes (c.a3 + c.d5) new.length)
    (empty : r'.avail c.dir = 0) (partners : w.partners c.dir ≠ 0) (more : c'.d6 ≠ 0) : new = [] := by
  obtain ⟨call, ⟨-, -, line, want⟩, grown, -⟩ := good
  have avail := moved.avail ok ok'
  have total := before.total
  have total' := call.total
  have count := before.count
  have count' := call.count
  have length := congrArg List.length grown
  rw [List.length_append] at length
  obtain none | enough | closed | ⟨isLine, ends⟩ := fits
  · exact List.length_eq_zero_iff.mp (by omega)
  · omega
  · exact absurd closed partners
  · have noCr := call.line (line.trans isLine)
    rw [grown] at noCr
    have here : c.ahead r w = new := by
      unfold Call.ahead
      cases dir : c.dir with
      | read =>
        rw [dir] at moved empty
        have rest : r'.queued = [] := List.length_eq_zero_iff.mp (by rw [Ring.length_queued]; exact empty)
        have queue := moved.queue
        rw [rest, List.append_nil] at queue
        exact queue
      | write =>
        rw [dir] at avail empty
        have filled : r.wrSpc = new.length := by
          rw [empty] at avail
          exact avail
        rw [filled]
        exact (source dir).symm
    rw [here] at ends
    exact absurd (List.mem_append_right _ ends) noCr

/-! ### The invariant -/

/-- Sleepers still have their descriptor in `a4`, the ones without a wake-up are in the waiter word
of their side with nothing to wake them for, and no side is counted higher than it is. -/
structure Pipes.Inv (s : Pipes) : Prop where
  ok : s.sys.Ok
  clean : ∀ pid c place, s.sys.calls pid = some (c, place) → 0 < pid ∧ c.a4 = .desc
  known : ∀ pid c, s.sys.calls pid = some (c, .wait) → s.Unwoken pid →
    s.sys.world.waiter c.dir = pid ∧ s.sys.ring.avail c.dir = 0 ∧ s.sys.world.partners c.dir ≠ 0 ∧
      s.sys.fed c.dir = (s.mark pid).fed c.dir
  marks : ∀ pid, (s.mark pid).sent ≤ s.sys.world.sent.length
  opens : ∀ dir, s.sys.world.partners dir ≤ s.partners dir

theorem Pipes.Inv.noneLost {s : Pipes} (inv : s.Inv) : s.NoneLost := by
  intro pid c sleeps unwoken
  obtain ⟨waiter, -, partners, fed⟩ := inv.known pid c sleeps unwoken
  have opens := inv.opens c.dir
  exact ⟨waiter, fed, by omega⟩

theorem Dir.eq_or_flip (dir other : Dir) : other = dir ∨ other = dir.flip := by
  cases dir <;> cases other <;> simp [Dir.flip]

/-- What a settled call leaves: its own place in the table and the histories. -/
theorem Sys.settle_spec {s : Sys} {before : Call} {out : Ring × World × Outcome} {new : List UInt8}
    (good : out.2.2.Good before new) :
    (s.settle before out).ring = out.1 ∧ (s.settle before out).world = out.2.1 ∧
      (s.settle before out).fed before.dir = s.fed before.dir ∧
      (s.settle before out).fed before.dir.flip = s.fed before.dir.flip + new.length ∧
      (∀ pid, pid ≠ before.pid → (s.settle before out).calls pid = s.calls pid) ∧
      (∀ c place, (s.settle before out).calls before.pid = some (c, place) → out.2.2 = .asleep c place) := by
  obtain ⟨r, w, res⟩ := out
  have histories : ∀ c : Call, c.moved = before.moved ++ new → c.moved.drop before.moved.length = new := by
    intro c grown
    rw [grown, List.drop_left]
  cases res with
  | asleep c place =>
    obtain ⟨-, -, grown, -⟩ := good
    unfold Sys.settle
    cases dir : before.dir with
    | read =>
      simp only [histories c grown]
      refine ⟨trivial, trivial, rfl, List.length_append, fun pid other => Function.update_of_ne other _ _, ?_⟩
      intro c' place' is
      rw [Function.update_self] at is
      cases is
      rfl
    | write =>
      simp only [histories c grown]
      refine ⟨trivial, trivial, rfl, List.length_append, fun pid other => Function.update_of_ne other _ _, ?_⟩
      intro c' place' is
      rw [Function.update_self] at is
      cases is
      rfl
  | back c err =>
    obtain ⟨-, -, grown⟩ := good
    unfold Sys.settle
    cases dir : before.dir with
    | read =>
      simp only [histories c grown]
      refine ⟨trivial, trivial, rfl, List.length_append, fun pid other => Function.update_of_ne other _ _, ?_⟩
      intro c' place' is
      rw [Function.update_self] at is
      cases is
    | write =>
      simp only [histories c grown]
      refine ⟨trivial, trivial, rfl, List.length_append, fun pid other => Function.update_of_ne other _ _, ?_⟩
      intro c' place' is
      rw [Function.update_self] at is
      cases is
  | stuck => exact good.elim

/-- Without a transfer both fill counts stay. -/
theorem Moved.avail_flip {dir : Dir} {r r' : Ring} (moved : Moved dir r r' []) (ok : r.Ok) (ok' : r'.Ok) :
    r'.avail dir.flip = r.avail dir.flip := by
  have same := moved.avail ok ok'
  have total := ok.total
  have total' := ok'.total
  have size := moved.size
  rw [List.length_nil] at same
  cases dir
  · show r'.wrSpc = r.wrSpc
    change r.rdByt = 0 + r'.rdByt at same
    omega
  · show r'.rdByt = r.rdByt
    change r.wrSpc = 0 + r'.wrSpc at same
    omega

theorem partners_congr {w w' : World} (rdOpn : w'.rdOpn = w.rdOpn) (wrOpn : w'.wrOpn = w.wrOpn) (dir : Dir) :
    w'.partners dir = w.partners dir := by
  cases dir
  · exact wrOpn
  · exact rdOpn

/-- One run of a call keeps the invariant. `v` is the world it starts in: after a sleep its own
waiter word is cleared. -/
theorem Pipes.Inv.ran {s : Pipes} (inv : s.Inv) {before : Call} {v : World} {out : Ring × World × Outcome}
    {new : List UInt8} (pid : 0 < before.pid) (base : before.a4 = .desc) (ring : out.1.Ok)
    (moved : Moved before.dir s.sys.ring out.1 new) (good : out.2.2.Good before new)
    (rdOpn : v.rdOpn = s.sys.world.rdOpn) (wrOpn : v.wrOpn = s.sys.world.wrOpn) (sent : v.sent = s.sys.world.sent)
    (other : v.waiter before.dir.flip = s.sys.world.waiter before.dir.flip)
    (mine : v.waiter before.dir = s.sys.world.waiter before.dir ∨ s.sys.world.waiter before.dir = 0 ∨
      s.sys.world.waiter before.dir = before.pid)
    (effect : Effect before.dir v out.2.1 out.1 new out.2.2)
    (nothing : ∀ c place, out.2.2 = .asleep c place → new = [])
    (clear : ∀ c, out.2.2 = .asleep c .wait →
      s.sys.world.waiter before.dir = 0 ∨ s.sys.world.waiter before.dir = before.pid) :
    (s.ran before.pid (s.sys.settle before out)).Inv := by
  obtain ⟨isRing, isWorld, fedMine, fedOther, callsOther, callsMine⟩ := Sys.settle_spec (s := s.sys) good
  obtain ⟨extra, sends, woken⟩ := effect.sends
  rw [sent] at sends
  rw [other] at woken
  have opened := partners_congr (effect.rdOpn.trans rdOpn) (effect.wrOpn.trans wrOpn)
  have marked : ∀ q, q ≠ before.pid → (s.ran before.pid (s.sys.settle before out)).mark q = s.mark q :=
    fun q apart => Function.update_of_ne apart _ _
  refine ⟨Sys.settle_ok inv.ok ring moved good effect.why, ?_, ?_, ?_, ?_⟩
  · intro q c place sleeps
    by_cases here : q = before.pid
    · subst here
      have asleep := callsMine c place sleeps
      rw [asleep] at good
      obtain ⟨-, -, -, same⟩ := good
      rw [same (nothing c place asleep)]
      exact ⟨pid, base⟩
    · exact inv.clean q c place ((callsOther q here).symm.trans sleeps)
  · intro q c sleeps unwoken
    by_cases here : q = before.pid
    · subst here
      have asleep := callsMine c .wait sleeps
      obtain ⟨waiter, empty, partners, -⟩ := effect.waits c asleep
      rw [asleep] at good
      obtain ⟨-, -, -, same⟩ := good
      obtain rfl := same (nothing c .wait asleep)
      have named : pidAt out.1 out.2.1 c = c.pid := by
        unfold pidAt
        rw [base]
      show (s.sys.settle c out).world.waiter c.dir = c.pid ∧ (s.sys.settle c out).ring.avail c.dir = 0 ∧
        (s.sys.settle c out).world.partners c.dir ≠ 0 ∧ _
      rw [isWorld, isRing, opened, ← partners_congr rdOpn wrOpn]
      refine ⟨waiter.trans named, empty, partners, ?_⟩
      show (s.sys.settle c out).fed c.dir = (Function.update s.mark c.pid (s.sys.settle c out).now c.pid).fed c.dir
      rw [Function.update_self]
      cases c.dir <;> rfl
    · have before' := (callsOther q here).symm.trans sleeps
      have positive := (inv.clean q c .wait before').1
      have notNew : (q, 1) ∉ s.sys.world.sent.drop (s.mark q).sent ++ extra := by
        rw [← List.drop_append_of_le_length (inv.marks q), ← sends, ← isWorld, ← marked q here]
        exact unwoken
      have old : s.Unwoken q := fun there => notNew (List.mem_append_left _ there)
      obtain ⟨waiter, empty, partners, fed⟩ := inv.known q c before' old
      show (s.sys.settle before out).world.waiter c.dir = q ∧ (s.sys.settle before out).ring.avail c.dir = 0 ∧
        (s.sys.settle before out).world.partners c.dir ≠ 0 ∧ (s.sys.settle before out).fed c.dir = _
      rw [isWorld, isRing, opened, marked q here]
      obtain side | side := Dir.eq_or_flip before.dir c.dir
      · -- on the same side: nothing to move, and the word was this sleeper's
        rw [side] at waiter empty partners fed ⊢
        have avail := moved.avail inv.ok.ring ring
        refine ⟨?_, by omega, partners, fedMine.trans fed⟩
        by_cases sleepsToo : ∃ c', out.2.2 = .asleep c' .wait
        · obtain ⟨c', asleep⟩ := sleepsToo
          have := clear c' asleep
          omega
        · rw [effect.goes (fun c' is => sleepsToo ⟨c', is⟩)]
          obtain kept | gone := mine
          · rw [kept, waiter]
          · omega
      · -- on the other side: a transfer would have woken it
        rw [side] at waiter empty partners fed ⊢
        have still : new = [] := by
          by_contra some
          have there := woken some (by rw [waiter]; omega)
          rw [waiter] at there
          exact notNew (List.mem_append_right _ there)
        subst still
        refine ⟨?_, ?_, partners, ?_⟩
        · rw [effect.other rfl, other, waiter]
        · rw [moved.avail_flip inv.ok.ring ring, empty]
        · rw [fedOther, List.length_nil, Nat.add_zero, fed]
  · intro q
    show ((s.ran before.pid (s.sys.settle before out)).mark q).sent ≤ (s.sys.settle before out).world.sent.length
    by_cases here : q = before.pid
    · subst here
      show (Function.update s.mark before.pid (s.sys.settle before out).now before.pid).sent ≤ _
      rw [Function.update_self]
      exact Nat.le_refl _
    · rw [marked q here, isWorld, sends, List.length_append]
      exact Nat.le_trans (inv.marks q) (Nat.le_add_right _ _)
  · intro dir
    show (s.sys.settle before out).world.partners dir ≤ s.partners dir
    rw [isWorld, opened]
    exact inv.opens dir

/-! ### Each step keeps it -/

theorem Call.begin_place (r : Ring) (w : World) (c c' : Call) : (c.begin r w).2.2 ≠ .asleep c' .acquire := by
  unfold Call.begin
  cases c.dir with
  | read => exact rdLoop_place _ _ _ _ _
  | write => exact wrLoop_place _ _ _ _ _

/-- How a resumed call can be asleep again: it waits for the path lock as it was, or it went on. -/
theorem Call.resume_place {r : Ring} {w : World} {c c' : Call} {place place' : Place} (base : c.a4 = .desc)
    (asleep : (c.resume r w place).2.2 = .asleep c' place') :
    (place' = .acquire ∧ c' = c) ∨ (place' = .wait ∧ w.cpr c.path = 0 ∧ w.signal c.pid = 0) := by
  have read : ∀ v : World, v.cpr = w.cpr → v.signal = w.signal → (rdReAcquire r v c).2.2 = .asleep c' place' →
      (place' = .acquire ∧ c' = c) ∨ (place' = .wait ∧ w.cpr c.path = 0 ∧ w.signal c.pid = 0) := by
    intro v cpr signal asleep
    unfold rdReAcquire at asleep
    split at asleep
    · cases asleep
      exact Or.inl ⟨rfl, rfl⟩
    · next free =>
      dsimp only at asleep
      split at asleep
      · next quiet =>
        simp only [signalAt, base] at quiet
        cases place' with
        | wait => exact Or.inr ⟨rfl, by rw [← cpr]; omega, by rw [← signal]; exact quiet⟩
        | acquire => exact absurd asleep (rdLoop_place _ _ _ _ _)
      · split at asleep <;> cases asleep
  have write : ∀ v : World, v.cpr = w.cpr → v.signal = w.signal → (wrReAcquire r v c).2.2 = .asleep c' place' →
      (place' = .acquire ∧ c' = c) ∨ (place' = .wait ∧ w.cpr c.path = 0 ∧ w.signal c.pid = 0) := by
    intro v cpr signal asleep
    unfold wrReAcquire at asleep
    split at asleep
    · cases asleep
      exact Or.inl ⟨rfl, rfl⟩
    · next free =>
      dsimp only at asleep
      split at asleep
      · next quiet =>
        simp only [signalAt, base] at quiet
        cases place' with
        | wait => exact Or.inr ⟨rfl, by rw [← cpr]; omega, by rw [← signal]; exact quiet⟩
        | acquire => exact absurd asleep (wrLoop_place _ _ _ _ _)
      · split at asleep <;> cases asleep
  unfold Call.resume at asleep
  cases place with
  | wait =>
    cases dir : c.dir with
    | read =>
      rw [dir] at asleep
      exact read { w with rdWat := 0 } rfl rfl asleep
    | write =>
      rw [dir] at asleep
      exact write { w with wrWat := 0 } rfl rfl asleep
  | acquire =>
    cases dir : c.dir with
    | read =>
      rw [dir] at asleep
      exact read w rfl rfl asleep
    | write =>
      rw [dir] at asleep
      exact write w rfl rfl asleep

theorem Pipes.step_call {s s' : Pipes} {dir : Dir} {line : Bool} {pid path a0 d1 : Nat} (inv : s.Inv)
    (safe : s.Safe (.call dir line pid path a0 d1)) (stepped : s.step (.call dir line pid path a0 d1) = some s') :
    s'.Inv := by
  simp only [Pipes.step, Sys.step] at stepped
  split at stepped
  · next isPid =>
    split at stepped
    · cases stepped
    · cases stepped
      obtain ⟨fits, clear⟩ := safe
      have call := Call.enter_ok dir line pid path a0 (Nat.mod_lt d1 (show 0 < 4294967296 by decide))
      generalize isCall : Call.enter dir line pid path a0 (d1 % 4294967296) = c at *
      have named : c.pid = pid := by rw [← isCall]; rfl
      have base : c.a4 = .desc := by rw [← isCall]; rfl
      obtain ⟨new, ring, moved, good, source, effect⟩ := Call.begin_good (w := s.sys.world) inv.ok.ring call
      have nothing : ∀ c' place, (c.begin s.sys.ring s.sys.world).2.2 = .asleep c' place → new = [] := by
        intro c' place asleep
        cases place with
        | acquire => exact absurd asleep (Call.begin_place _ _ _ _)
        | wait =>
          obtain ⟨-, empty, partners, more⟩ := effect.waits c' asleep
          rw [asleep] at good
          exact fits.nothing inv.ok.ring ring moved call good source empty partners more
      have free : ∀ c', (c.begin s.sys.ring s.sys.world).2.2 = .asleep c' .wait →
          s.sys.world.waiter c.dir = 0 ∨ s.sys.world.waiter c.dir = c.pid := by
        intro c' asleep
        obtain ⟨-, empty, partners, more⟩ := effect.waits c' asleep
        have none := nothing c' .wait asleep
        have avail := moved.avail inv.ok.ring ring
        rw [asleep] at good
        obtain ⟨-, -, -, same⟩ := good
        rw [same none] at more
        rw [none, List.length_nil, empty] at avail
        exact Or.inl (clear avail partners more)
      have kept := inv.ran (by omega) base ring moved good rfl rfl rfl rfl (Or.inl rfl) effect nothing free
      rw [named] at kept
      exact kept
  · cases stepped

theorem World.awake_spec (w : World) (dir : Dir) (place : Place) :
    (w.awake dir place).rdOpn = w.rdOpn ∧ (w.awake dir place).wrOpn = w.wrOpn ∧ (w.awake dir place).sent = w.sent ∧
      (w.awake dir place).waiter dir.flip = w.waiter dir.flip ∧
      (place = .wait ∨ (w.awake dir place).waiter dir = w.waiter dir) := by
  cases place with
  | wait => cases dir <;> exact ⟨rfl, rfl, rfl, rfl, Or.inl rfl⟩
  | acquire => exact ⟨rfl, rfl, rfl, rfl, Or.inr rfl⟩

theorem Pipes.step_wake {s s' : Pipes} {pid : Nat} (inv : s.Inv) (safe : s.Safe (.wake pid))
    (stepped : s.step (.wake pid) = some s') : s'.Inv := by
  simp only [Pipes.step, Sys.step] at stepped
  split at stepped
  · cases stepped
  · next c place sleeps =>
    cases stepped
    obtain ⟨own, goes⟩ := safe c place sleeps
    obtain ⟨positive, base⟩ := inv.clean pid c place sleeps
    obtain ⟨call, named⟩ := inv.ok.asleep pid c place sleeps
    obtain ⟨new, ring, moved, good, source, effect⟩ := Call.resume_good (w := s.sys.world) place inv.ok.ring call
    obtain ⟨rdOpn, wrOpn, sent, other, mine⟩ := s.sys.world.awake_spec c.dir place
    have partnersSame := partners_congr rdOpn wrOpn c.dir
    have nothing : ∀ c' place', (c.resume s.sys.ring s.sys.world place).2.2 = .asleep c' place' → new = [] := by
      intro c' place' asleep
      obtain ⟨rfl, rfl⟩ | ⟨rfl, cpr, signal⟩ := Call.resume_place base asleep
      · rw [asleep] at good
        obtain ⟨-, -, grown, -⟩ := good
        exact List.append_cancel_left (grown.symm.trans (List.append_nil _).symm)
      · obtain ⟨fits, -⟩ := goes cpr (named ▸ signal)
        obtain ⟨-, empty, partners, more⟩ := effect.waits c' asleep
        rw [partnersSame] at partners
        rw [asleep] at good
        exact fits.nothing inv.ok.ring ring moved call good source empty partners more
    have free : ∀ c', (c.resume s.sys.ring s.sys.world place).2.2 = .asleep c' .wait →
        s.sys.world.waiter c.dir = 0 ∨ s.sys.world.waiter c.dir = c.pid := by
      intro c' asleep
      rw [named]
      cases place with
      | wait => exact own rfl
      | acquire =>
        obtain ⟨is, -⟩ | ⟨-, cpr, signal⟩ := Call.resume_place base asleep
        · cases is
        · obtain ⟨-, clear⟩ := goes cpr (named ▸ signal)
          obtain ⟨-, empty, partners, more⟩ := effect.waits c' asleep
          have none := nothing c' .wait asleep
          have avail := moved.avail inv.ok.ring ring
          rw [asleep] at good
          obtain ⟨-, -, -, same⟩ := good
          rw [same none] at more
          rw [none, List.length_nil, empty] at avail
          exact Or.inl (clear rfl avail (partnersSame ▸ partners) more)
    have kept := inv.ran (by omega) base ring moved good rdOpn wrOpn sent other
      (mine.elim (fun wait => Or.inr (by rw [named]; exact own wait)) Or.inl) effect nothing free
    rw [named] at kept
    exact kept

theorem wakeProcess_spec (w : World) (d0 : Nat) :
    ∃ extra, (w.wakeProcess d0).sent = w.sent ++ extra ∧ (d0 ≠ 0 → (d0, 1) ∈ extra) := by
  unfold World.wakeProcess World.send
  split
  · next none => exact ⟨[], (List.append_nil _).symm, fun some => absurd none some⟩
  · exact ⟨[(d0, 1)], rfl, by simp⟩

theorem wakeProcess_fields (w : World) (d0 : Nat) :
    (w.wakeProcess d0).rdOpn = w.rdOpn ∧ (w.wakeProcess d0).wrOpn = w.wrOpn ∧
      (w.wakeProcess d0).rdWat = w.rdWat ∧ (w.wakeProcess d0).wrWat = w.wrWat := by
  unfold World.wakeProcess World.send
  split <;> exact ⟨rfl, rfl, rfl, rfl⟩

/-- The reader's side of a close: the writers' word and count, and the `d0` it leaves. -/
theorem closeRead_spec (w : World) (mode : Nat) :
    ∃ extra, (w.closeRead mode).1.sent = w.sent ++ extra ∧
      (w.closeRead mode).1.rdWat = w.rdWat ∧ (w.closeRead mode).1.wrOpn = w.wrOpn ∧
      ((¬ (mode.testBit 0 ∧ w.rdOpn ≠ 0) ∧ (w.closeRead mode).1.wrWat = w.wrWat ∧
          (w.closeRead mode).1.rdOpn = w.rdOpn ∧ (w.closeRead mode).2 = mode) ∨
        (mode.testBit 0 ∧ w.rdOpn ≠ 0 ∧ (w.wrWat ≠ 0 → (w.wrWat, 1) ∈ extra) ∧
          (w.closeRead mode).1.rdOpn = w.rdOpn - 1 ∧ (w.closeRead mode).2 = w.wrWat)) := by
  unfold World.closeRead
  split
  · next taken =>
    obtain ⟨extra, sent, woken⟩ := wakeProcess_spec { w with rdOpn := w.rdOpn - 1 } w.wrWat
    obtain ⟨rdOpn, wrOpn, rdWat, -⟩ := wakeProcess_fields { w with rdOpn := w.rdOpn - 1 } w.wrWat
    exact ⟨extra, sent, rdWat, wrOpn, Or.inr ⟨taken.1, taken.2, woken, rdOpn, rfl⟩⟩
  · next skipped => exact ⟨[], (List.append_nil _).symm, rfl, rfl, Or.inl ⟨skipped, rfl, rfl, rfl⟩⟩

theorem closeWrite_spec (w : World) (d0 : Nat) :
    ∃ extra, (w.closeWrite d0).sent = w.sent ++ extra ∧
      (w.closeWrite d0).wrWat = w.wrWat ∧ (w.closeWrite d0).rdOpn = w.rdOpn ∧
      ((¬ (d0.testBit 1 ∧ w.wrOpn ≠ 0) ∧ (w.closeWrite d0).rdWat = w.rdWat ∧ (w.closeWrite d0).wrOpn = w.wrOpn) ∨
        (w.wrOpn ≠ 0 ∧ (w.rdWat ≠ 0 → (w.rdWat, 1) ∈ extra) ∧ (w.closeWrite d0).wrOpn = w.wrOpn - 1)) := by
  unfold World.closeWrite
  split
  · next taken =>
    obtain ⟨extra, sent, woken⟩ := wakeProcess_spec { w with wrOpn := w.wrOpn - 1 } w.rdWat
    obtain ⟨rdOpn, wrOpn, -, wrWat⟩ := wakeProcess_fields { w with wrOpn := w.wrOpn - 1 } w.rdWat
    exact ⟨extra, sent, wrWat, rdOpn, Or.inr ⟨taken.2, woken, wrOpn⟩⟩
  · next skipped => exact ⟨[], (List.append_nil _).symm, rfl, rfl, Or.inl ⟨skipped, rfl, rfl⟩⟩

/-- A close wakes the waiter of a side or leaves its word and the count it waits for alone. -/
theorem World.close_wakes (w : World) (mode : Nat) :
    ∃ extra, (w.close mode).sent = w.sent ++ extra ∧ ∀ dir,
      ((w.close mode).waiter dir = w.waiter dir ∧ (w.close mode).partners dir = w.partners dir) ∨
        (w.waiter dir ≠ 0 → (w.waiter dir, 1) ∈ extra) := by
  obtain ⟨first, firstSent, rdWat, wrOpn, readers⟩ := closeRead_spec w mode
  unfold World.close
  generalize w.closeRead mode = mid at *
  obtain ⟨v, d0⟩ := mid
  obtain ⟨later, laterSent, wrWat, rdOpn, writers⟩ := closeWrite_spec v d0
  refine ⟨first ++ later, by rw [laterSent, firstSent, List.append_assoc], fun dir => ?_⟩
  cases dir with
  | read =>
    obtain ⟨-, keptWait, keptOpen⟩ | ⟨-, woken, -⟩ := writers
    · exact Or.inl ⟨keptWait.trans rdWat, keptOpen.trans wrOpn⟩
    · refine Or.inr (fun waits => List.mem_append_right _ ?_)
      change v.rdWat = w.rdWat at rdWat
      rw [rdWat] at woken
      exact woken waits
  | write =>
    obtain ⟨-, keptWait, keptOpen, -⟩ | ⟨-, -, woken, -⟩ := readers
    · exact Or.inl ⟨wrWat.trans keptWait, rdOpn.trans keptOpen⟩
    · exact Or.inr (fun waits => List.mem_append_left _ (woken waits))

/-- A close counts a side down if the path had it, as long as the bit that is tested is the path's. -/
theorem World.close_counts (w : World) (mode : Nat)
    (seen : mode.testBit 1 → mode.testBit 0 → w.rdOpn ≠ 0 → w.wrWat.testBit 1) :
    (w.close mode).rdOpn ≤ w.rdOpn - (if mode.testBit 0 then 1 else 0) ∧
      (w.close mode).wrOpn ≤ w.wrOpn - (if mode.testBit 1 then 1 else 0) := by
  obtain ⟨first, -, -, wrOpn, readers⟩ := closeRead_spec w mode
  unfold World.close
  generalize w.closeRead mode = mid at *
  obtain ⟨v, d0⟩ := mid
  obtain ⟨later, -, -, rdOpn, writers⟩ := closeWrite_spec v d0
  dsimp only at *
  constructor
  · obtain ⟨skipped, -, kept, -⟩ | ⟨isReader, some, -, less, -⟩ := readers
    · rw [rdOpn, kept]
      by_cases isReader : mode.testBit 0 = true
      · rw [if_pos isReader]
        have : w.rdOpn = 0 := by
          by_contra some
          exact skipped ⟨isReader, some⟩
        omega
      · rw [if_neg isReader]
        omega
    · rw [rdOpn, less, if_pos isReader]
  · obtain ⟨skipped, -, kept⟩ | ⟨some, -, less⟩ := writers
    · rw [kept, wrOpn]
      by_cases isWriter : mode.testBit 1 = true
      · rw [if_pos isWriter]
        have tested : d0.testBit 1 = true := by
          obtain ⟨-, -, -, same⟩ | ⟨isReader, open', -, -, same⟩ := readers
          · rw [same]
            exact isWriter
          · rw [same]
            exact seen isWriter isReader open'
        have : w.wrOpn = 0 := by
          by_contra some
          exact skipped ⟨tested, by rw [wrOpn]; exact some⟩
        omega
      · rw [if_neg isWriter]
        omega
    · rw [less, wrOpn]
      split <;> omega

theorem countP_eraseP {α : Type} {q f : α → Bool} {l : List α} {a : α} (found : l.find? q = some a) :
    l.countP f = (l.eraseP q).countP f + (if f a then 1 else 0) := by
  induction l with
  | nil => cases found
  | cons b l ih =>
    by_cases here : q b = true
    · rw [List.find?_cons_of_pos here] at found
      cases found
      rw [List.eraseP_cons_of_pos here, List.countP_cons]
    · rw [List.find?_cons_of_neg here] at found
      rw [List.eraseP_cons_of_neg here, List.countP_cons, List.countP_cons, ih found]
      omega

theorem Pipes.step_close {s s' : Pipes} {path : Nat} (inv : s.Inv) (safe : s.Safe (.close path))
    (stepped : s.step (.close path) = some s') : s'.Inv := by
  simp only [Pipes.step] at stepped
  split at stepped
  · cases stepped
  · next n mode found =>
    cases stepped
    obtain ⟨extra, sent, wakes⟩ := s.sys.world.close_wakes mode
    obtain ⟨readers, writers⟩ := s.sys.world.close_counts mode (safe n mode found)
    refine ⟨⟨inv.ok.ring, inv.ok.order, inv.ok.asleep, inv.ok.reports, inv.ok.ends⟩, inv.clean, ?_, ?_, ?_⟩
    · intro pid c sleeps unwoken
      have positive := (inv.clean pid c .wait sleeps).1
      have notNew : (pid, 1) ∉ s.sys.world.sent.drop (s.mark pid).sent ++ extra := by
        rw [← List.drop_append_of_le_length (inv.marks pid), ← sent]
        exact unwoken
      obtain ⟨waiter, empty, partners, fed⟩ := inv.known pid c sleeps
        (fun there => notNew (List.mem_append_left _ there))
      obtain ⟨keptWait, keptOpen⟩ | woken := wakes c.dir
      · exact ⟨keptWait.trans waiter, empty, by rw [← keptOpen] at partners; exact partners, fed⟩
      · rw [waiter] at woken
        exact absurd (List.mem_append_right _ (woken (by omega))) notNew
    · intro pid
      show _ ≤ (s.sys.world.close mode).sent.length
      rw [sent, List.length_append]
      exact Nat.le_trans (inv.marks pid) (Nat.le_add_right _ _)
    · intro dir
      have opens := inv.opens dir
      have counted : s.partners dir = List.countP (fun p => p.2.testBit dir.partnerBit)
          (s.paths.eraseP (fun p => p.1 == path)) + (if mode.testBit dir.partnerBit then 1 else 0) :=
        countP_eraseP found
      show (s.sys.world.close mode).partners dir ≤ List.countP (fun p => p.2.testBit dir.partnerBit)
        (s.paths.eraseP (fun p => p.1 == path))
      cases dir with
      | read =>
        change s.sys.world.wrOpn ≤ _ at opens
        change (s.sys.world.close mode).wrOpn ≤ _
        change s.partners .read = _ + (if mode.testBit 1 then 1 else 0) at counted
        omega
      | write =>
        change s.sys.world.rdOpn ≤ _ at opens
        change (s.sys.world.close mode).rdOpn ≤ _
        change s.partners .write = _ + (if mode.testBit 0 then 1 else 0) at counted
        omega

theorem Pipes.step_inv {s s' : Pipes} {act : Act} (inv : s.Inv) (safe : s.Safe act) (stepped : s.step act = some s') :
    s'.Inv := by
  cases act with
  | call dir line pid path a0 d1 => exact Pipes.step_call inv safe stepped
  | wake pid => exact Pipes.step_wake inv safe stepped
  | close path => exact Pipes.step_close inv safe stepped
  | outside user cpr signal =>
    cases stepped
    refine ⟨⟨inv.ok.ring, inv.ok.order, inv.ok.asleep, inv.ok.reports, inv.ok.ends⟩, inv.clean, ?_, inv.marks, ?_⟩
    · intro pid c sleeps unwoken
      obtain ⟨waiter, empty, partners, fed⟩ := inv.known pid c sleeps unwoken
      refine ⟨?_, empty, ?_, fed⟩
      · revert waiter
        cases c.dir <;> exact id
      · revert partners
        cases c.dir <;> exact id
    · intro dir
      have opens := inv.opens dir
      cases dir <;> exact opens

/-! ### Runs -/

/-- A pipe as it was created, with the paths opened on it since. -/
def Pipes.start (buf size : Nat) (mem : Mem) (w : World) (paths : List (Nat × Nat)) : Pipes :=
  { sys := Sys.create buf size mem w, paths := paths, mark := fun _ => { sent := 0, accepted := 0, delivered := 0 } }

/-- Over every run of reads, writes and closes whose steps are all safe, nobody sleeps on unknown to
the pipe, past bytes that were moved, or past the close of the other side. -/
theorem pipe_noneLost {buf size : Nat} (least : 90 ≤ size) (most : size < 2 ^ 31) (inMemory : buf + size < 2 ^ 32)
    (mem : Mem) {w : World} {paths : List (Nat × Nat)} (readers : w.rdOpn = paths.countP (fun p => p.2.testBit 0))
    (writers : w.wrOpn = paths.countP (fun p => p.2.testBit 1)) {acts : List Act} {s : Pipes}
    (safe : RunMeets Pipes.step Pipes.Safe (Pipes.start buf size mem w paths) acts)
    (ran : run Pipes.step (Pipes.start buf size mem w paths) acts = some s) : s.NoneLost := by
  have start : (Pipes.start buf size mem w paths).Inv := by
    refine ⟨Sys.create_ok mem w (by omega) most inMemory, ?_, ?_, fun _ => Nat.zero_le _, ?_⟩
    · intro pid c place sleeps
      cases sleeps
    · intro pid c sleeps
      cases sleeps
    · intro dir
      cases dir
      · exact Nat.le_of_eq writers
      · exact Nat.le_of_eq readers
  exact (run_invariant (fun _ _ _ inv met stepped => Pipes.step_inv inv met stepped) start safe ran).noneLost

/-- A path for reading and one for writing. -/
def twoPaths : List (Nat × Nat) := [(1, 1), (2, 2)]

/-- A reader sleeps, three bytes wake it, it takes them and the writer's path is closed. -/
theorem pipe_noneLost_reader :
    let acts : List Act := [.call .read false 5 1 5000 3, .call .write false 6 2 40 3, .wake 5, .close 2]
    ∃ s, run Pipes.step (Pipes.start 1000 90 (fun _ => 0) idleWorld twoPaths) acts = some s ∧ s.NoneLost := by
  intro acts
  obtain ⟨s, ran⟩ : ∃ s, run Pipes.step (Pipes.start 1000 90 (fun _ => 0) idleWorld twoPaths) acts = some s := ⟨_, rfl⟩
  refine ⟨s, ran, pipe_noneLost (by decide) (by decide) (by decide) _ rfl rfl ?_ ran⟩
  refine ⟨⟨Or.inl rfl, fun _ _ _ => rfl⟩, fun s1 is1 => ?_⟩
  cases is1
  refine ⟨⟨Or.inr (Or.inl (by decide)), fun full => absurd full (by decide)⟩, fun s2 is2 => ?_⟩
  cases is2
  refine ⟨?_, fun s3 is3 => ?_⟩
  · intro c place sleeps
    cases sleeps
    exact ⟨fun _ => Or.inl rfl, fun _ _ => ⟨Or.inr (Or.inl (by decide)), fun is => by cases is⟩⟩
  cases is3
  refine ⟨?_, fun _ _ => trivial⟩
  intro n mode found _ isReader
  cases found
  exact absurd isReader (by decide)

/-- Ten bytes are there, a reader asks for twenty: it takes the ten and sleeps under the first word
of its own buffer. The next write wakes process 0x2829, and nobody wakes the reader. -/
theorem pipe_lost :
    ∃ acts s, run Pipes.step (Pipes.start 1000 90 (fun _ => 0) idleWorld twoPaths) acts = some s ∧
      (0x2829, 1) ∈ s.sys.world.sent ∧ ¬ s.NoneLost := by
  let acts : List Act := [.call .write false 6 2 40 10, .call .read false 5 1 5000 20, .call .write false 6 2 60 1]
  obtain ⟨s, ran⟩ : ∃ s, run Pipes.step (Pipes.start 1000 90 (fun _ => 0) idleWorld twoPaths) acts = some s := ⟨_, rfl⟩
  have shown : (run Pipes.step (Pipes.start 1000 90 (fun _ => 0) idleWorld twoPaths) acts).map
      (fun s => (s.sys.world.sent, (s.mark 5).sent, s.sys.world.rdWat)) = some ([(0x2829, 1)], 0, 0) := by
    decide
  have sleeper : (run Pipes.step (Pipes.start 1000 90 (fun _ => 0) idleWorld twoPaths) acts).map
      (fun s => (s.sys.calls 5).map (fun x => (x.1.dir, x.2))) = some (some (.read, .wait)) := by decide
  rw [ran, Option.map_some] at shown sleeper
  simp only [Option.some.injEq, Prod.mk.injEq] at shown
  obtain ⟨sent, mark, waiter⟩ := shown
  obtain ⟨⟨c, place⟩, sleeps, is⟩ := Option.map_eq_some_iff.mp (Option.some.inj sleeper)
  obtain ⟨dir, rfl⟩ := Prod.mk.inj is
  refine ⟨acts, s, ran, by rw [sent]; simp, fun none => ?_⟩
  have unwoken : s.Unwoken 5 := by
    unfold Pipes.Unwoken
    rw [sent, mark]
    decide
  have known := (none 5 c sleeps unwoken).1
  dsimp only at dir
  rw [dir] at known
  exact absurd (waiter.symm.trans known) (by decide)

end Q9OS.Pipe

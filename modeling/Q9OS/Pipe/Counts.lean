import Q9OS.Pipe.Ends
import Q9OS.Pipe.Queue
import Q9OS.Lib.Run

/-!
# The ends of pipes over runs

Over every run of safe calls the counts in the master descriptors are the numbers of
open ends, and the buffers given back are those of the pipes that are closed. What makes
a close unsafe is that `Pipe_Close` tests the PID of the waiting writer for the mode.
-/

namespace Q9OS.Pipe.Ends

open Names

/-! ### The invariant -/

/-- An open path in its descriptor. -/
structure Joined (m : Mem) (p : Path) : Prop where
  fits : p.a1 + 256 ≤ 4294967296
  mode : m.getU8 (p.a1 + pdMod) = p.mode
  head : headOf m p.a1 = p.master
  ended : p.mode.testBit 0 ∨ p.mode.testBit 1

/-- A live pipe in its master descriptor, with its counts. -/
structure Kept (m : Mem) (rd wr : Nat) (l : Live) : Prop where
  fits : l.master + 256 ≤ 4294967296
  readers : m.getU16 (l.master + pdRdOpn) = rd
  writers : m.getU16 (l.master + pdWrOpn) = wr
  few : rd + wr < 65536
  buffer : freeBuf m l.master = l.block.toList

structure Inv (s : Mgr) : Prop where
  paths_apart : s.paths.Pairwise (fun p p' => Apart p.a1 256 p'.a1 256)
  live_apart : s.live.Pairwise (fun l l' => Apart l.master 256 l'.master 256)
  cross : ∀ p ∈ s.paths, ∀ l ∈ s.live, p.a1 = l.master ∨ Apart p.a1 256 l.master 256
  joined : ∀ p ∈ s.paths, Joined s.mem p
  owned : ∀ p ∈ s.paths, ∃ l ∈ s.live, l.master = p.master
  kept : ∀ l ∈ s.live, Kept s.mem (s.ends l.master 0) (s.ends l.master 1) l
  used : ∀ l ∈ s.live, ∃ p ∈ s.paths, p.master = l.master
  freed : s.freed = s.due

theorem Start.inv {s : Mgr} (start : Start s) : Inv s := by
  obtain ⟨paths, live, freed⟩ := start
  refine ⟨?_, ?_, ?_, ?_, ?_, ?_, ?_, freed⟩
  · rw [paths]
    exact List.Pairwise.nil
  · rw [live]
    exact List.Pairwise.nil
  all_goals simp [paths, live]

theorem Joined.congr {m m' : Mem} {p : Path} (joined : Joined m p)
    (same : ∀ x, x = p.a1 + pdMod ∨ Within (p.a1 + pdHead) 4 x → m' x = m x) : Joined m' p := by
  obtain ⟨fits, mode, head, ended⟩ := joined
  refine ⟨fits, (Mem.getU8_congr (same _ (.inl rfl))).trans mode, ?_, ended⟩
  have named : m'.getU32 (p.a1 + pdHead) = m.getU32 (p.a1 + pdHead) :=
    Mem.getU32_congr (fun x low high => same x (.inr ⟨low, high⟩))
  unfold headOf at head ⊢
  rw [named]
  exact head

theorem Kept.congr {m m' : Mem} {rd wr : Nat} {l : Live} (kept : Kept m rd wr l)
    (same : ∀ x, Within (l.master + pdBuf) 4 x ∨ Within (l.master + pdRdOpn) 4 x ∨ Within (l.master + pdBufSz) 4 x →
      m' x = m x) : Kept m' rd wr l := by
  obtain ⟨fits, readers, writers, few, buffer⟩ := kept
  refine ⟨fits, ?_, ?_, few, ?_⟩
  · refine (Mem.getU16_congr (fun x low high => same x (.inr (.inl ⟨low, by omega⟩)))).trans readers
  · refine (Mem.getU16_congr (fun x low high => same x (.inr (.inl ?_)))).trans writers
    unfold Within
    unfold pdWrOpn at low high
    unfold pdRdOpn
    omega
  · refine (freeBuf_congr (fun x inside => same x ?_)).trans buffer
    exact inside.imp id .inr

/-- Everything that leaves the guarded cells alone keeps the invariant. -/
theorem Inv.frame {s : Mgr} (inv : Inv s) {mem : Mem} (same : ∀ x, Guarded s x → mem x = s.mem x) :
    Inv { s with mem := mem } := by
  refine ⟨inv.paths_apart, inv.live_apart, inv.cross, ?_, inv.owned, ?_, inv.used, inv.freed⟩
  · intro p member
    exact (inv.joined p member).congr (fun x inside => same x (.inl ⟨p, member, inside⟩))
  · intro l member
    exact (inv.kept l member).congr (fun x inside => same x (.inr ⟨l, member, inside⟩))

/-! ### What the counts tell -/

theorem ends_eq_zero {s : Mgr} {master bit : Nat} : s.ends master bit = 0 ↔ s.Without master bit := by
  unfold Mgr.ends Mgr.Without
  rw [List.countP_eq_zero]
  simp

/-- A reader of an empty ring is told of the end of file when nobody is counted as a writer. -/
theorem rdLoop_endOfFile {fuel : Nat} {r : Ring} {w : World} {c : Call} (empty : r.rdByt = 0) (more : c.d6 ≠ 0)
    (nothing : c.d5 = 0) : (rdLoop (fuel + 1) r w c).2.2 = .back c (some errEof) ↔ w.wrOpn = 0 := by
  rw [rdLoop, if_neg more, if_pos empty]
  by_cases none : w.wrOpn = 0 <;> simp [none, nothing]

/-- With a reader no pass of a write breaks off. -/
theorem wrLoop_reader (fuel : Nat) {r : Ring} {w : World} {c c' : Call} (reader : w.rdOpn ≠ 0) :
    (wrLoop fuel r w c).2.2 ≠ .back c' (some errBroknp) := by
  induction fuel generalizing r w c with
  | zero => simp [wrLoop]
  | succ fuel ih =>
    unfold wrLoop
    split
    · simp
    · split
      · simp
      · dsimp only
        split
        · simp
        · refine ih ?_
          obtain ⟨same, -⟩ := wakeReader_spec w
          rw [same]
          exact reader

theorem wrLoop_brokenPipe {fuel : Nat} {r : Ring} {w : World} {c : Call} (more : c.d6 ≠ 0) (nothing : c.d5 = 0) :
    (wrLoop (fuel + 1) r w c).2.2 = .back c (some errBroknp) ↔ w.rdOpn = 0 := by
  by_cases none : w.rdOpn = 0
  · simp [wrLoop, more, none, nothing]
  · exact iff_of_false (wrLoop_reader _ none) none

theorem Inv.counted {s : Mgr} (inv : Inv s) : Counted s := by
  refine ⟨fun l member => (inv.kept l member).readers, fun l member => (inv.kept l member).writers, ?_, ?_, inv.freed⟩
  · intro l member fuel r c empty more nothing
    rw [rdLoop_endOfFile empty more nothing, ← ends_eq_zero, ← (inv.kept l member).writers]
    rfl
  · intro l member fuel r c more nothing
    rw [wrLoop_brokenPipe more nothing, ← ends_eq_zero, ← (inv.kept l member).readers]
    rfl

/-! ### New descriptors -/

section Calls
variable {s : Mgr} {q : Req} {fresh : Mem}

/-- The cells that a descriptor at `a1` is guarded for lie inside it. -/
theorem guarded_block {x : Nat} (guarded : Guarded s x) :
    (∃ p ∈ s.paths, p.a1 ≤ x ∧ x < p.a1 + 256) ∨ ∃ l ∈ s.live, l.master ≤ x ∧ x < l.master + 256 := by
  obtain ⟨p, member, inside⟩ | ⟨l, member, inside⟩ := guarded
  · refine .inl ⟨p, member, ?_⟩
    unfold Within pdMod pdHead at inside
    omega
  · refine .inr ⟨l, member, ?_⟩
    unfold Within pdBuf pdRdOpn pdBufSz at inside
    omega

theorem Fresh.outside (new : Fresh s q fresh) {x : Nat} (guarded : Guarded s x) : x < q.a1 ∨ q.a1 + 256 ≤ x := by
  obtain ⟨p, member, low, high⟩ | ⟨l, member, low, high⟩ := guarded_block guarded
  · have apart := new.paths_apart p member
    unfold Apart at apart
    omega
  · have apart := new.live_apart l member
    unfold Apart at apart
    omega

theorem Fresh.laid_guarded (new : Fresh s q fresh) {x : Nat} (guarded : Guarded s x) : laid s.mem q.a1 fresh x = s.mem x :=
  Nameless.laid_outside _ _ (new.outside guarded)

theorem locked_outside (m : Mem) {x : Nat} (apart : ¬ Within (statOf m q.a1 + vBusy) 4 x) : locked m q x = m x := by
  unfold Within at apart
  exact Mem.setU16_outside _ _ (by omega)

theorem Fresh.locked_guarded (new : Fresh s q fresh) {x : Nat} (guarded : Guarded s x) :
    locked (laid s.mem q.a1 fresh) q x = s.mem x :=
  (locked_outside _ (new.device x guarded).1).trans (new.laid_guarded guarded)

/-- The lock leaves the new descriptor and the device entry alone. -/
theorem Fresh.locked_own (new : Fresh s q fresh) {x : Nat}
    (own : Within q.a1 256 x ∨ Within (fresh.getU32 pdDev) 8 x) :
    locked (laid s.mem q.a1 fresh) q x = laid s.mem q.a1 fresh x := by
  refine locked_outside _ ?_
  have stat := new.stat_apart
  have tables := new.tables_apart
  unfold Apart at stat tables
  unfold Within vBusy at *
  omega

theorem laid_mode (m fresh : Mem) (a1 : Nat) : (laid m a1 fresh).getU8 (a1 + pdMod) = fresh.getU8 pdMod := by
  unfold Mem.getU8
  rw [Nameless.laid_inside m fresh (show pdMod < 256 by decide)]

/-- No open path belongs to a descriptor that is new. -/
theorem Inv.unowned (inv : Inv s) (new : Fresh s q fresh) {p : Path} (member : p ∈ s.paths) : p.master ≠ q.a1 := by
  intro same
  obtain ⟨l, live, owner⟩ := inv.owned p member
  have apart := new.live_apart l live
  unfold Apart at apart
  omega

theorem Inv.no_ends (inv : Inv s) (new : Fresh s q fresh) (bit : Nat) : s.ends q.a1 bit = 0 :=
  ends_eq_zero.mpr (fun _ member same => absurd same (inv.unowned new member))

/-- One more path counts for its own pipe. -/
theorem ends_cons (s : Mgr) (p : Path) (mem : Mem) (live : List Live) (master bit : Nat) :
    ({ s with mem := mem, paths := p :: s.paths, live := live } : Mgr).ends master bit =
      s.ends master bit + if p.master = master ∧ p.mode.testBit bit then 1 else 0 := by
  unfold Mgr.ends
  rw [List.countP_cons]
  simp

theorem headOf_self {m : Mem} {a1 : Nat} (head : m.getU32 (a1 + pdHead) = a1) : headOf m a1 = a1 := by
  unfold headOf
  rw [head]
  split <;> rfl

/-- A pipe is made, and its first path is open. -/
theorem Inv.create (inv : Inv s) (new : Fresh s q fresh) {mem : Mem} (same : ∀ x, Guarded s x → mem x = s.mem x)
    (made : Made mem q) (ended : Ended mem q.a1) : Inv (s.join q mem) := by
  have head : headOf mem q.a1 = q.a1 := headOf_self made.head
  have framed := inv.frame same
  have joined : s.join q mem = { s with
      mem := mem, paths := ⟨q.a1, mem.getU8 (q.a1 + pdMod), q.a1⟩ :: s.paths, live := ⟨q.a1, granted q⟩ :: s.live } := by
    unfold Mgr.join
    rw [head, if_pos rfl]
  rw [joined]
  refine ⟨List.pairwise_cons.mpr ⟨new.paths_apart, inv.paths_apart⟩,
    List.pairwise_cons.mpr ⟨new.live_apart, inv.live_apart⟩, ?_, ?_, ?_, ?_, ?_, inv.freed⟩
  · intro p isPath l isLive
    obtain rfl | old := List.mem_cons.mp isPath
    · obtain rfl | live := List.mem_cons.mp isLive
      · exact .inl rfl
      · exact .inr (new.live_apart l live)
    · obtain rfl | live := List.mem_cons.mp isLive
      · exact .inr (new.paths_apart p old).symm
      · exact inv.cross p old l live
  · intro p member
    obtain rfl | old := List.mem_cons.mp member
    · exact ⟨new.fits, rfl, head, ended⟩
    · exact framed.joined p old
  · intro p member
    obtain rfl | old := List.mem_cons.mp member
    · exact ⟨_, List.mem_cons_self, rfl⟩
    · obtain ⟨l, live, owner⟩ := inv.owned p old
      exact ⟨l, List.mem_cons_of_mem _ live, owner⟩
  · intro l member
    rw [ends_cons, ends_cons]
    obtain rfl | old := List.mem_cons.mp member
    · rw [inv.no_ends new, inv.no_ends new]
      refine ⟨new.fits, ?_, ?_, ?_, made.buffer⟩
      · rw [made.readers]
        cases (mem.getU8 (q.a1 + pdMod)).testBit 0 <;> simp
      · rw [made.writers]
        cases (mem.getU8 (q.a1 + pdMod)).testBit 1 <;> simp
      · split <;> split <;> decide
    · have other : q.a1 ≠ l.master := by
        have apart := new.live_apart l old
        unfold Apart at apart
        omega
      simp only [other, false_and, if_false, Nat.add_zero]
      exact framed.kept l old
  · intro l member
    obtain rfl | old := List.mem_cons.mp member
    · exact ⟨_, List.mem_cons_self, rfl⟩
    · obtain ⟨p, path, owner⟩ := inv.used l old
      exact ⟨p, List.mem_cons_of_mem _ path, owner⟩

/-! ### Creating -/

/-- What is open after a call that may have opened its path. -/
def Mgr.opened (s : Mgr) (q : Req) (left : Left) : Mgr :=
  if left.err = none then s.join q left.mem else { s with mem := left.mem }

theorem Inv.opened_failed (inv : Inv s) (new : Fresh s q fresh) (code : Nat) :
    Inv (s.opened q (failed (laid s.mem q.a1 fresh) code)) :=
  inv.frame (fun _ guarded => new.laid_guarded guarded)

theorem Inv.opened_unlocked (inv : Inv s) (new : Fresh s q fresh) {a2 : Nat}
    (unlocks : ∀ x, Guarded s x → ¬ Within (a2 + vBusy) 4 x) (code : Nat) :
    Inv (s.opened q (failedUnlock (locked (laid s.mem q.a1 fresh) q) a2 code)) := by
  refine inv.frame (fun x guarded => ?_)
  have apart := unlocks x guarded
  unfold Within at apart
  exact (unlockDev_outside _ (by omega)).trans (new.locked_guarded guarded)

theorem Inv.opened_anonymous (inv : Inv s) (new : Fresh s q fresh) :
    Inv (s.opened q (createAnonymous (laid s.mem q.a1 fresh) q)) := by
  obtain ⟨outside, success⟩ := createAnonymous_left (laid s.mem q.a1 fresh) new.fits new.grant
  have same : ∀ x, Guarded s x → (createAnonymous (laid s.mem q.a1 fresh) q).mem x = s.mem x :=
    fun x guarded => (outside x (new.outside guarded)).trans (new.laid_guarded guarded)
  unfold Mgr.opened
  split
  · next none =>
    obtain ⟨made, ended⟩ := success none
    exact inv.create new same made ended
  · exact inv.frame same

/-- A create with a name that nobody has: its name is copied from the wrong place. -/
theorem Inv.opened_named (inv : Inv s) (new : Fresh s q fresh) (searches : Searches s q fresh) (overruns : Overruns s q fresh) :
    Inv (s.opened q (setupBuffer (locked (laid s.mem q.a1 fresh) q) q (nameLength q))) := by
  have named : nameLength q % 65536 ≠ 0 := by
    unfold nameLength errPnnf
    omega
  have dev : (locked (laid s.mem q.a1 fresh) q).getU32 (q.a1 + pdDev) = fresh.getU32 pdDev := by
    rw [← Nameless.laid_dev s.mem fresh q.a1]
    refine Mem.getU32_congr (fun x low high => new.locked_own (.inl ?_))
    unfold Within
    unfold pdDev at low high
    omega
  have stat : statOf (locked (laid s.mem q.a1 fresh) q) q.a1 = statOf (laid s.mem q.a1 fresh) q.a1 := by
    refine statOf_congr (fun x inside => new.locked_own (.inl ?_)) (fun x inside => new.locked_own (.inr ?_))
    · unfold Within pdDev at inside
      unfold Within
      omega
    · rwa [Nameless.laid_dev] at inside
  have apart : Apart q.a1 256 ((locked (laid s.mem q.a1 fresh) q).getU32 (q.a1 + pdDev)) 8 := by
    rw [dev]
    exact new.dev_apart
  have tabled : Tabled (locked (laid s.mem q.a1 fresh) q) q (nameLength q) := by
    intro x inside
    rw [dev] at inside
    by_contra hit
    have block := new.dev_apart
    unfold Apart at block
    by_cases behind : q.a1 + 256 ≤ x
    · exact (overruns x behind (by omega)).2 inside
    · unfold Within at inside
      omega
  obtain ⟨outside, success⟩ := setupBuffer_named new.fits new.grant named apart (by rw [stat]; exact new.stat_apart) tabled
  rw [stat] at outside
  have same : ∀ x, Guarded s x → (setupBuffer (locked (laid s.mem q.a1 fresh) q) q (nameLength q)).mem x = s.mem x := by
    intro x guarded
    obtain ⟨lock, list⟩ := new.device x guarded
    have away := new.outside guarded
    refine (outside x ⟨away, lock, list⟩ ?_).trans (new.locked_guarded guarded)
    by_contra hit
    exact (overruns x (by unfold pdName at hit; omega) (by omega)).1 guarded
  unfold Mgr.opened
  split
  · next none =>
    obtain ⟨made, mode⟩ := success none
    refine inv.create new same made ?_
    unfold Ended
    have own : (locked (laid s.mem q.a1 fresh) q).getU8 (q.a1 + pdMod) = fresh.getU8 pdMod := by
      rw [← laid_mode s.mem fresh q.a1]
      refine Mem.getU8_congr (new.locked_own (.inl ?_))
      unfold Within pdMod
      omega
    rw [mode, own]
    exact searches.mode
  · exact inv.frame same

theorem step_create (inv : Inv s) (new : Fresh s q fresh) (named : Bound s (.create q fresh)) {left : Left}
    (made : s.answer (.create q fresh) = some left) : Inv (s.after (.create q fresh) left) := by
  have ran : called (laid s.mem q.a1 fresh) q (createServed q) = some left := (create_called _ q).symm.trans made
  show Inv (s.opened q left)
  obtain ⟨code, rfl⟩ | rfl | ⟨⟨name, asks⟩, found, search, rfl⟩ := called_cases ran
  · exact inv.opened_failed new code
  · exact inv.opened_anonymous new
  · obtain ⟨searches, overruns⟩ := named name asks
    cases found with
    | pipe a2 => exact inv.opened_unlocked new (searches.unlocks a2 (.inl search)) _
    | nothing a2 => exact inv.opened_named new searches (overruns a2 search)

end Calls

/-! ### Connecting -/

section Connect
variable (m : Mem) {a1 a2 : Nat} (d2 : Nat)

theorem connect_outside {x : Nat} (own : x < a1 ∨ a1 + 256 ≤ x) (ends : ¬ Within (a2 + pdRdOpn) 4 x)
    (count : ¬ Within (a2 + pdCount) 2 x) : connect m a1 a2 d2 x = m x := by
  unfold Within pdRdOpn at ends
  unfold Within pdCount at count
  simp only [connect, pdHead, pdBuf, pdBufEnd, pdBufSz, pdRdOpn, pdWrOpn, pdCount]
  split_ifs
  all_goals simp (disch := omega) only [Mem.setU16_outside, Mem.setU32_outside]

theorem connect_mode (apart : Apart a1 256 a2 256) : (connect m a1 a2 d2).getU8 (a1 + pdMod) = m.getU8 (a1 + pdMod) := by
  unfold Apart at apart
  simp only [connect, pdMod, pdHead, pdBuf, pdBufEnd, pdBufSz, pdRdOpn, pdWrOpn, pdCount]
  split_ifs
  all_goals simp (disch := omega) only [Mem.getU8_setU16_apart, Mem.getU8_setU32_apart]

theorem connect_head (apart : Apart a1 256 a2 256) (small : a2 < 4294967296) :
    (connect m a1 a2 d2).getU32 (a1 + pdHead) = a2 := by
  unfold Apart at apart
  simp only [connect, pdHead, pdBuf, pdBufEnd, pdBufSz, pdRdOpn, pdWrOpn, pdCount]
  split_ifs
  all_goals
    simp (disch := omega) only [Mem.getU32_setU16_apart, Mem.getU32_setU32_apart, Mem.getU32_setU32_of_lt]

theorem connect_readers (apart : Apart a1 256 a2 256) : (connect m a1 a2 d2).getU16 (a2 + pdRdOpn) =
    (m.getU16 (a2 + pdRdOpn) + (d2.testBit 0).toNat) % 65536 := by
  unfold Apart at apart
  have small := m.getU16_lt (a2 + 58)
  simp only [connect, pdHead, pdBuf, pdBufEnd, pdBufSz, pdRdOpn, pdWrOpn, pdCount]
  cases d2.testBit 0 <;> cases d2.testBit 1
  all_goals
    simp (disch := omega) [Mem.getU16_setU16_apart, Mem.getU16_setU32_apart, Nat.mod_eq_of_lt small]

theorem connect_writers (apart : Apart a1 256 a2 256) : (connect m a1 a2 d2).getU16 (a2 + pdWrOpn) =
    (m.getU16 (a2 + pdWrOpn) + (d2.testBit 1).toNat) % 65536 := by
  unfold Apart at apart
  have small := m.getU16_lt (a2 + 60)
  simp only [connect, pdHead, pdBuf, pdBufEnd, pdBufSz, pdRdOpn, pdWrOpn, pdCount]
  cases d2.testBit 0 <;> cases d2.testBit 1
  all_goals
    simp (disch := omega) [Mem.getU16_setU16_apart, Mem.getU16_setU32_apart, Nat.mod_eq_of_lt small]

end Connect

/-! ### Opening -/

section Opening
variable {s : Mgr} {q : Req} {fresh : Mem}

theorem Inv.live_cases (inv : Inv s) {l l' : Live} (live : l ∈ s.live) (live' : l' ∈ s.live) :
    l' = l ∨ Apart l'.master 256 l.master 256 := by
  by_cases same : l' = l
  · exact .inl same
  · have symmetric : Std.Symm (fun l l' : Live => Apart l.master 256 l'.master 256) := ⟨fun _ _ => Or.symm⟩
    exact .inr (inv.live_apart.forall live' live same)

/-- The guarded cells in the block of a live pipe. -/
theorem Inv.guarded_master (inv : Inv s) {l : Live} (live : l ∈ s.live) {x : Nat} (guarded : Guarded s x) :
    (x < l.master ∨ l.master + 256 ≤ x) ∨ x = l.master + pdMod ∨ Within (l.master + pdHead) 4 x ∨
      Within (l.master + pdBuf) 4 x ∨ Within (l.master + pdRdOpn) 4 x ∨ Within (l.master + pdBufSz) 4 x := by
  obtain ⟨p, member, inside⟩ | ⟨l', member, inside⟩ := guarded
  · obtain own | apart := inv.cross p member l live
    · rw [own] at inside
      exact .inr (inside.imp id .inl)
    · unfold Apart at apart
      unfold Within pdMod pdHead at inside
      exact .inl (by omega)
  · obtain rfl | apart := inv.live_cases live member
    · exact .inr (.inr (.inr inside))
    · unfold Apart at apart
      unfold Within pdBuf pdRdOpn pdBufSz at inside
      exact .inl (by omega)

/-- One more path is open to a live pipe, whose counts say so. -/
theorem Inv.connected (inv : Inv s) (new : Fresh s q fresh) {l : Live} (live : l ∈ s.live) (nonzero : l.master ≠ 0)
    (few : s.ends l.master 0 + s.ends l.master 1 + 2 < 65536) {mem : Mem} {mode : Nat} (ended : mode.testBit 0 ∨ mode.testBit 1)
    (same : ∀ x, Guarded s x → ¬ Within (l.master + pdRdOpn) 4 x → mem x = s.mem x)
    (moded : mem.getU8 (q.a1 + pdMod) = mode) (head : mem.getU32 (q.a1 + pdHead) = l.master)
    (readers : mem.getU16 (l.master + pdRdOpn) = (s.mem.getU16 (l.master + pdRdOpn) + (mode.testBit 0).toNat) % 65536)
    (writers : mem.getU16 (l.master + pdWrOpn) = (s.mem.getU16 (l.master + pdWrOpn) + (mode.testBit 1).toNat) % 65536) :
    Inv (s.join q mem) := by
  have headed : headOf mem q.a1 = l.master := by
    unfold headOf
    rw [head, if_neg nonzero]
  have other : l.master ≠ q.a1 := by
    have apart := new.live_apart l live
    unfold Apart at apart
    omega
  have joined : s.join q mem = { s with mem := mem, paths := ⟨q.a1, mode, l.master⟩ :: s.paths } := by
    unfold Mgr.join
    rw [headed, if_neg other, moded]
  rw [joined]
  refine ⟨List.pairwise_cons.mpr ⟨new.paths_apart, inv.paths_apart⟩, inv.live_apart, ?_, ?_, ?_, ?_, ?_, inv.freed⟩
  · intro p isPath l' isLive
    obtain rfl | old := List.mem_cons.mp isPath
    · exact .inr (new.live_apart l' isLive)
    · exact inv.cross p old l' isLive
  · intro p member
    obtain rfl | old := List.mem_cons.mp member
    · exact ⟨new.fits, moded, headed, ended⟩
    · refine (inv.joined p old).congr (fun x inside => same x (.inl ⟨p, old, inside⟩) ?_)
      obtain own | apart := inv.cross p old l live
      · rw [own] at inside
        unfold Within pdMod pdHead at inside
        unfold Within pdRdOpn
        omega
      · unfold Apart at apart
        unfold Within pdMod pdHead at inside
        unfold Within pdRdOpn
        omega
  · intro p member
    obtain rfl | old := List.mem_cons.mp member
    · exact ⟨l, live, rfl⟩
    · exact inv.owned p old
  · intro l' member
    rw [ends_cons, ends_cons]
    have kept := inv.kept l' member
    obtain rfl | apart := inv.live_cases live member
    · refine ⟨kept.fits, ?_, ?_, ?_, ?_⟩
      · rw [readers, kept.readers]
        cases mode.testBit 0 <;> simp <;> omega
      · rw [writers, kept.writers]
        cases mode.testBit 1 <;> simp <;> omega
      · split <;> split <;> omega
      · refine (freeBuf_congr (fun x inside => same x (.inr ⟨l', member, inside.imp id .inr⟩) ?_)).trans kept.buffer
        unfold Within pdBuf pdBufSz at inside
        unfold Within pdRdOpn
        omega
    · have different : l.master ≠ l'.master := by
        unfold Apart at apart
        omega
      simp only [different, false_and, if_false, Nat.add_zero]
      refine kept.congr (fun x inside => same x (.inr ⟨l', member, inside⟩) ?_)
      unfold Apart at apart
      unfold Within pdBuf pdRdOpn pdBufSz at inside
      unfold Within pdRdOpn
      omega
  · intro l' member
    obtain ⟨p, path, owner⟩ := inv.used l' member
    exact ⟨p, List.mem_cons_of_mem _ path, owner⟩

theorem Inv.opened_pipe (inv : Inv s) (new : Fresh s q fresh) (searches : Searches s q fresh) {l : Live} (live : l ∈ s.live)
    (found : search (laid s.mem q.a1 fresh) q = some (.pipe l.master))
    (few : s.ends l.master 0 + s.ends l.master 1 + 2 < 65536) {left : Left} (success : left.err = none)
    (mem : left.mem = (unlockDev (connect (locked (laid s.mem q.a1 fresh) q) q.a1 l.master
      ((locked (laid s.mem q.a1 fresh) q).getU8 (q.a1 + pdMod))) l.master).1) : Inv (s.opened q left) := by
  have apart := new.live_apart l live
  have fits := (inv.kept l live).fits
  have mode : (locked (laid s.mem q.a1 fresh) q).getU8 (q.a1 + pdMod) = fresh.getU8 pdMod := by
    rw [← laid_mode s.mem fresh q.a1]
    refine Mem.getU8_congr (new.locked_own (.inl ?_))
    unfold Within pdMod
    omega
  rw [mode] at mem
  -- the lock is given back inside the master descriptor, beside its guarded cells
  have unlocked : ∀ x, x < l.master + vBusy ∨ l.master + vBusy + 4 ≤ x →
      left.mem x = connect (locked (laid s.mem q.a1 fresh) q) q.a1 l.master (fresh.getU8 pdMod) x := by
    intro x away
    rw [mem]
    exact unlockDev_outside _ away
  have before : ∀ x, Guarded s x → locked (laid s.mem q.a1 fresh) q x = s.mem x := fun _ => new.locked_guarded
  have ends : ∀ offset, offset = pdRdOpn ∨ offset = pdWrOpn →
      (locked (laid s.mem q.a1 fresh) q).getU16 (l.master + offset) = s.mem.getU16 (l.master + offset) := by
    intro offset which
    refine Mem.getU16_congr (fun x low high => before x (.inr ⟨l, live, .inr (.inl ?_)⟩))
    unfold pdRdOpn pdWrOpn at which
    unfold Within pdRdOpn
    omega
  have moded := connect_mode (locked (laid s.mem q.a1 fresh) q) (fresh.getU8 pdMod) apart
  have head := connect_head (locked (laid s.mem q.a1 fresh) q) (fresh.getU8 pdMod) apart (by omega)
  have readers := connect_readers (locked (laid s.mem q.a1 fresh) q) (fresh.getU8 pdMod) apart
  have writers := connect_writers (locked (laid s.mem q.a1 fresh) q) (fresh.getU8 pdMod) apart
  rw [ends _ (.inl rfl)] at readers
  rw [ends _ (.inr rfl)] at writers
  unfold Apart at apart
  unfold Mgr.opened
  rw [if_pos success]
  refine inv.connected new live (search_ne_zero found) few searches.mode ?_ ?_ ?_ ?_ ?_
  · intro x guarded counts
    have lock := searches.unlocks l.master (.inl found) x guarded
    unfold Within at lock
    rw [unlocked x (by omega), ← before x guarded]
    refine connect_outside _ _ (new.outside guarded) counts ?_
    obtain away | inside := inv.guarded_master live guarded
    · unfold Within pdCount
      omega
    · unfold Within pdMod pdHead pdBuf pdRdOpn pdBufSz at inside
      unfold Within pdCount
      omega
  · rw [Mem.getU8_congr (unlocked _ (by unfold pdMod vBusy; omega)), moded, mode]
  · refine (Mem.getU32_congr (fun x low high => unlocked x ?_)).trans head
    unfold pdHead at low high
    unfold vBusy
    omega
  · refine (Mem.getU16_congr (fun x low high => unlocked x ?_)).trans readers
    unfold pdRdOpn at low high
    unfold vBusy
    omega
  · refine (Mem.getU16_congr (fun x low high => unlocked x ?_)).trans writers
    unfold pdWrOpn at low high
    unfold vBusy
    omega

theorem step_open (inv : Inv s) (new : Fresh s q fresh) (named : Bound s (.open q fresh)) {left : Left}
    (made : s.answer (.open q fresh) = some left) : Inv (s.after (.open q fresh) left) := by
  have ran : called (laid s.mem q.a1 fresh) q (openServed q) = some left := (open_called _ q).symm.trans made
  show Inv (s.opened q left)
  obtain ⟨code, rfl⟩ | rfl | ⟨⟨name, asks⟩, found, search, rfl⟩ := called_cases ran
  · exact inv.opened_failed new code
  · exact inv.opened_anonymous new
  · obtain ⟨searches, room⟩ := named name asks
    obtain ⟨a2, code, which, refused⟩ | ⟨a2, rfl, success, mem⟩ :=
      openServed_cases (locked (laid s.mem q.a1 fresh) q) q found
    · rw [refused]
      obtain rfl | rfl := which
      · exact inv.opened_unlocked new (searches.unlocks a2 (.inl search)) code
      · exact inv.opened_unlocked new (searches.unlocks a2 (.inr search)) code
    · obtain ⟨⟨l, live, rfl⟩, few⟩ := room a2 search
      exact inv.opened_pipe new searches live search few success mem

end Opening

/-! ### Closing -/

/-- A close counts the ends of its path, if the PID it tests instead of a reader's mode agrees with the mode. -/
theorem close_ends {w : World} {mode : Nat} (reads : mode.testBit 0 → w.rdOpn ≠ 0 ∧ w.wrWat.testBit 1 = mode.testBit 1)
    (writes : mode.testBit 1 → w.wrOpn ≠ 0) : (w.close mode).rdOpn = w.rdOpn - (mode.testBit 0).toNat ∧
      (w.close mode).wrOpn = w.wrOpn - (mode.testBit 1).toNat := by
  have woken : ∀ (w : World) d0, (w.wakeProcess d0).rdOpn = w.rdOpn ∧ (w.wakeProcess d0).wrOpn = w.wrOpn := by
    intro w d0
    unfold World.wakeProcess World.send
    split <;> exact ⟨rfl, rfl⟩
  have written : ∀ (w : World) d0, (d0.testBit 1 → w.wrOpn ≠ 0) → (w.closeWrite d0).rdOpn = w.rdOpn ∧
      (w.closeWrite d0).wrOpn = w.wrOpn - (d0.testBit 1).toNat := by
    intro w d0 some
    unfold World.closeWrite
    by_cases bit : d0.testBit 1
    · rw [if_pos ⟨bit, some bit⟩, bit]
      exact woken _ _
    · rw [if_neg (fun both => bit both.1), Bool.eq_false_iff.mpr bit]
      exact ⟨rfl, rfl⟩
  unfold World.close World.closeRead
  by_cases reader : mode.testBit 0
  · obtain ⟨some, agrees⟩ := reads reader
    obtain ⟨rd, wr⟩ := woken { w with rdOpn := w.rdOpn - 1 } w.wrWat
    rw [if_pos ⟨reader, some⟩, reader, ← agrees]
    dsimp only
    obtain ⟨rd', wr'⟩ := written { World.wakeProcess { w with rdOpn := w.rdOpn - 1 } w.wrWat with wrWat := 0 } w.wrWat
      (fun bit => by rw [agrees] at bit; exact (wr.symm ▸ writes bit))
    exact ⟨rd'.trans rd, wr'.trans (congrArg (· - _) wr)⟩
  · rw [if_neg (fun both => reader both.1), Bool.eq_false_iff.mpr reader]
    exact written w mode writes

theorem closeEnds_counts (m : Mem) (a1 a2 : Nat) :
    (closeEnds m a1 a2).1.getU16 (a2 + pdRdOpn) = ((endsOf m a2).close (m.getU8 (a1 + pdMod))).rdOpn % 65536 ∧
      (closeEnds m a1 a2).1.getU16 (a2 + pdWrOpn) = ((endsOf m a2).close (m.getU8 (a1 + pdMod))).wrOpn % 65536 := by
  simp only [closeEnds]
  generalize (endsOf m a2).close (m.getU8 (a1 + pdMod)) = w
  have ends : (setEnds m a2 w).getU16 (a2 + pdRdOpn) = w.rdOpn % 65536 ∧
      (setEnds m a2 w).getU16 (a2 + pdWrOpn) = w.wrOpn % 65536 := by
    simp only [setEnds, pdRdWat, pdRdOpn, pdWrOpn, pdWrWat]
    constructor <;> simp (disch := omega) [Mem.getU16_setU16_apart]
  split
  · exact ends
  · rw [Mem.getU16_setU16_apart _ _ (by unfold pdRdOpn pdCount; omega),
      Mem.getU16_setU16_apart _ _ (by unfold pdWrOpn pdCount; omega)]
    exact ends

/-- A close that has no name to unlink returns, with the buffer if no end is left. -/
theorem close_returns {m : Mem} {q : Req} {a2 ends : Nat} (head : headOf m q.a1 = a2)
    (counts : ((closeEnds m q.a1 a2).1.getU16 (a2 + pdRdOpn) + (closeEnds m q.a1 a2).1.getU16 (a2 + pdWrOpn)) % 65536 = ends)
    (unnamed : ends = 0 → (closeEnds m q.a1 a2).1.getU8 (a2 + pdName) = 0) :
    ∃ left, close m q = some left ∧ left.mem = (closeEnds m q.a1 a2).1 ∧
      left.freed = if ends = 0 then freeBuf (closeEnds m q.a1 a2).1 a2 else [] := by
  subst head
  unfold close
  dsimp only
  generalize closeEnds m q.a1 (headOf m q.a1) = closed at *
  rw [counts]
  by_cases last : ends = 0
  · rw [if_neg (not_not.mpr last), if_pos (unnamed last), if_pos last]
    exact ⟨_, rfl, rfl, rfl⟩
  · rw [if_pos last, if_neg last]
    exact ⟨_, rfl, rfl, rfl⟩

/-- The one entry of a list with its key. -/
theorem filter_single {α : Type} (key : α → Nat) {l : List α} {a : α} (apart : l.Pairwise (fun x y => key x ≠ key y))
    (member : a ∈ l) : l.filter (fun x => key x == key a) = [a] := by
  induction l with
  | nil => cases member
  | cons x l ih =>
    obtain ⟨others, rest⟩ := List.pairwise_cons.mp apart
    obtain rfl | inside := List.mem_cons.mp member
    · have none : l.filter (fun y => key y == key a) = [] := by
        refine List.filter_eq_nil_iff.mpr (fun y there => ?_)
        have different := others y there
        simpa using different.symm
      simp [none]
    · have different := others a inside
      simp only [List.filter_cons, beq_iff_eq, different, if_false]
      exact ih rest inside

section Closing
variable {s : Mgr} {a1 : Nat} {p : Path}

theorem apart_ne {α : Type} {key : α → Nat} {l : List α} (apart : l.Pairwise (fun x y => Apart (key x) 256 (key y) 256)) :
    l.Pairwise (fun x y => key x ≠ key y) := by
  refine apart.imp (fun away same => ?_)
  unfold Apart at away
  omega

/-- Without the path its own pipe has fewer ends, by the bits of its mode. -/
theorem Inv.ends_leave (inv : Inv s) (member : p ∈ s.paths) (master bit : Nat) :
    s.ends master bit = ({ s with paths := s.paths.filter (fun p' => p'.a1 != p.a1) } : Mgr).ends master bit +
      if p.master = master ∧ p.mode.testBit bit then 1 else 0 := by
  have single := filter_single Path.a1 (apart_ne inv.paths_apart) member
  unfold Mgr.ends
  rw [List.countP_eq_countP_filter_add s.paths _ (fun p' => p'.a1 != p.a1)]
  have rest : (fun p' : Path => !(p'.a1 != p.a1)) = fun p' => p'.a1 == p.a1 := by
    funext p'
    simp [bne]
  rw [rest, single]
  simp [List.countP_cons]

/-- The paths that are left when the one at `a1` is closed. -/
def Mgr.without (s : Mgr) (a1 : Nat) : Mgr := { s with paths := s.paths.filter (fun p => p.a1 != a1) }

/-- A path of the pipe is an open end of it. -/
theorem Inv.some_end (inv : Inv s) {p' : Path} (member : p' ∈ (s.without a1).paths) :
    (s.without a1).ends p'.master 0 + (s.without a1).ends p'.master 1 ≠ 0 := by
  intro none
  obtain ⟨listed, -⟩ := List.mem_filter.mp member
  have readers : (s.without a1).Without p'.master 0 := ends_eq_zero.mp (by omega)
  have writers : (s.without a1).Without p'.master 1 := ends_eq_zero.mp (by omega)
  exact (inv.joined p' listed).ended.elim (readers p' member rfl) (writers p' member rfl)

/-- What the close of a path leaves: the counts without it, and the buffer given back if it was the last. -/
theorem Inv.close_left (inv : Inv s) {q : Req} {l : Live} (member : p ∈ s.paths) (here : p.a1 = q.a1) (live : l ∈ s.live)
    (owner : l.master = p.master)
    (agrees : p.mode.testBit 0 → (s.mem.getU16 (p.master + pdWrWat)).testBit 1 = p.mode.testBit 1)
    (unnamed : (∀ p' ∈ s.paths, p'.a1 ≠ q.a1 → p'.master ≠ p.master) → s.mem.getU8 (p.master + pdName) = 0) :
    ∃ left, close s.mem q = some left ∧ left.mem = (closeEnds s.mem q.a1 l.master).1 ∧
      left.mem.getU16 (l.master + pdRdOpn) = (s.without q.a1).ends l.master 0 ∧
      left.mem.getU16 (l.master + pdWrOpn) = (s.without q.a1).ends l.master 1 ∧
      left.freed = if (s.without q.a1).ends l.master 0 + (s.without q.a1).ends l.master 1 = 0 then l.block.toList else [] := by
  obtain ⟨-, mode, head, -⟩ := inv.joined p member
  obtain ⟨-, readers, writers, few, buffer⟩ := inv.kept l live
  have less := inv.ends_leave member l.master
  rw [here] at less mode head
  change ∀ bit, _ = (s.without q.a1).ends l.master bit + _ at less
  simp only [owner, true_and] at less
  rw [← owner] at agrees unnamed head less
  -- the counts the close leaves
  obtain ⟨rd, wr⟩ := closeEnds_counts s.mem q.a1 l.master
  rw [mode] at rd wr
  have rdOpn : (endsOf s.mem l.master).rdOpn = s.ends l.master 0 := readers
  have wrOpn : (endsOf s.mem l.master).wrOpn = s.ends l.master 1 := writers
  have first := less 0
  have second := less 1
  obtain ⟨rd', wr'⟩ := @close_ends (endsOf s.mem l.master) p.mode
    (fun reader => ⟨by rw [rdOpn, first, if_pos reader]; omega, agrees reader⟩)
    (fun writer => by rw [wrOpn, second, if_pos writer]; omega)
  have rdLeft : (closeEnds s.mem q.a1 l.master).1.getU16 (l.master + pdRdOpn) = (s.without q.a1).ends l.master 0 := by
    rw [rd, rd', rdOpn, first]
    cases bit : p.mode.testBit 0 <;> simp [bit] at first ⊢ <;> omega
  have wrLeft : (closeEnds s.mem q.a1 l.master).1.getU16 (l.master + pdWrOpn) = (s.without q.a1).ends l.master 1 := by
    rw [wr, wr', wrOpn, second]
    cases bit : p.mode.testBit 1 <;> simp [bit] at second ⊢ <;> omega
  have sum : ((s.without q.a1).ends l.master 0 + (s.without q.a1).ends l.master 1) % 65536 =
      (s.without q.a1).ends l.master 0 + (s.without q.a1).ends l.master 1 := Nat.mod_eq_of_lt (by omega)
  have unlinked : (s.without q.a1).ends l.master 0 + (s.without q.a1).ends l.master 1 = 0 →
      (closeEnds s.mem q.a1 l.master).1.getU8 (l.master + pdName) = 0 := by
    intro last
    rw [Mem.getU8_congr (closeEnds_outside _ _ (by unfold pdName pdCount pdRdWat pdFlags pdWrWat; omega))]
    refine unnamed (fun p' listed other same => ?_)
    have left : p' ∈ (s.without q.a1).paths := List.mem_filter.mpr ⟨listed, by simpa using other⟩
    exact inv.some_end left (same ▸ last)
  obtain ⟨left, made, mem, freed⟩ := close_returns head (by rw [rdLeft, wrLeft, sum]) unlinked
  have given : freeBuf (closeEnds s.mem q.a1 l.master).1 l.master = l.block.toList := by
    rw [← buffer]
    refine freeBuf_congr (fun x inside => closeEnds_outside _ _ ?_)
    unfold Within pdBuf pdBufSz at inside
    unfold pdCount pdRdWat pdFlags pdWrWat
    omega
  rw [given] at freed
  refine ⟨left, made, mem, ?_, ?_, freed⟩
  · rw [mem, rdLeft]
  · rw [mem, wrLeft]

theorem Inv.only (inv : Inv s) (member : p ∈ s.paths) {p' : Path} (member' : p' ∈ s.paths) (same : p'.a1 = p.a1) : p' = p := by
  have single := filter_single Path.a1 (apart_ne inv.paths_apart) member
  have there : p' ∈ s.paths.filter (fun x => x.a1 == p.a1) := List.mem_filter.mpr ⟨member', by simpa using same⟩
  rw [single] at there
  exact List.mem_singleton.mp there

/-- The pipes that still have paths: all others, and the path's own if it was not the last. -/
theorem Inv.any_left (inv : Inv s) {l l' : Live} (member : p ∈ s.paths) (owner : l.master = p.master) (live' : l' ∈ s.live) :
    ((s.without p.a1).paths.any (fun p' => p'.master == l'.master)) = true ↔
      l'.master ≠ l.master ∨ (s.without p.a1).ends l.master 0 + (s.without p.a1).ends l.master 1 ≠ 0 := by
  rw [List.any_eq_true]
  constructor
  · rintro ⟨p', left, same⟩
    by_cases own : l'.master = l.master
    · have master : p'.master = l.master := (beq_iff_eq.mp same).trans own
      exact .inr (master ▸ inv.some_end left)
    · exact .inl own
  · intro which
    by_cases own : l'.master = l.master
    · have some := which.resolve_left (not_not.mpr own)
      have counted : ∃ bit, (s.without p.a1).ends l.master bit ≠ 0 := by
        by_cases none : (s.without p.a1).ends l.master 0 = 0
        · exact ⟨1, by omega⟩
        · exact ⟨0, none⟩
      obtain ⟨bit, positive⟩ := counted
      obtain ⟨p', left, same⟩ := List.countP_pos_iff.mp (Nat.pos_of_ne_zero positive)
      rw [Bool.and_eq_true, beq_iff_eq] at same
      exact ⟨p', left, by simpa [own] using same.1⟩
    · obtain ⟨p', listed, same⟩ := inv.used l' live'
      have different : p'.a1 ≠ p.a1 := by
        intro here
        have is := inv.only member listed here
        exact own (same.symm.trans (is ▸ owner.symm))
      exact ⟨p', List.mem_filter.mpr ⟨listed, by simpa using different⟩, by simpa using same⟩

/-- What becomes due with the path: the buffer of its pipe if it was the last. -/
theorem Inv.due_left (inv : Inv s) {l : Live} (member : p ∈ s.paths) (live : l ∈ s.live) (owner : l.master = p.master) :
    (s.live.filter (fun l' => !(s.without p.a1).paths.any (fun p' => p'.master == l'.master))).flatMap (fun l' => l'.block.toList) =
      if (s.without p.a1).ends l.master 0 + (s.without p.a1).ends l.master 1 = 0 then l.block.toList else [] := by
  by_cases last : (s.without p.a1).ends l.master 0 + (s.without p.a1).ends l.master 1 = 0
  · have own : s.live.filter (fun l' => !(s.without p.a1).paths.any (fun p' => p'.master == l'.master)) =
        s.live.filter (fun l' => l'.master == l.master) := by
      refine List.filter_congr (fun l' live' => ?_)
      have left := inv.any_left member owner live'
      rw [or_iff_left (not_not.mpr last)] at left
      rw [Bool.eq_iff_iff, Bool.not_eq_true', Bool.eq_false_iff]
      exact (not_congr left).trans (by simp)
    rw [own, filter_single Live.master (apart_ne inv.live_apart) live, if_pos last]
    simp
  · have none : s.live.filter (fun l' => !(s.without p.a1).paths.any (fun p' => p'.master == l'.master)) = [] := by
      refine List.filter_eq_nil_iff.mpr (fun l' live' => ?_)
      rw [(inv.any_left member owner live').mpr (.inr last)]
      decide
    rw [none, if_neg last]
    rfl

/-- A path is closed. -/
theorem Inv.leave (inv : Inv s) {l : Live} (member : p ∈ s.paths) (live : l ∈ s.live) (owner : l.master = p.master) {left : Left}
    (mem : left.mem = (closeEnds s.mem p.a1 l.master).1)
    (readers : left.mem.getU16 (l.master + pdRdOpn) = (s.without p.a1).ends l.master 0)
    (writers : left.mem.getU16 (l.master + pdWrOpn) = (s.without p.a1).ends l.master 1)
    (freed : left.freed =
      if (s.without p.a1).ends l.master 0 + (s.without p.a1).ends l.master 1 = 0 then l.block.toList else []) :
    Inv (s.leave p.a1 left) := by
  have less := inv.ends_leave member
  change ∀ master bit, s.ends master bit = (s.without p.a1).ends master bit + _ at less
  -- the close writes to the counts and the waiters of the master descriptor
  have same : ∀ x, (x < l.master + pdCount ∨ l.master + pdCount + 2 ≤ x) ∧ (x < l.master + pdRdWat ∨ l.master + pdFlags ≤ x) ∧
      (x < l.master + pdWrWat ∨ l.master + pdWrWat + 2 ≤ x) → left.mem x = s.mem x := by
    intro x away
    rw [mem]
    exact closeEnds_outside _ _ away
  unfold pdCount pdRdWat pdFlags pdWrWat at same
  refine ⟨inv.paths_apart.filter _, inv.live_apart.filter _, ?_, ?_, ?_, ?_, ?_, ?_⟩
  · intro p' isPath l' isLive
    exact inv.cross p' (List.mem_of_mem_filter isPath) l' (List.mem_of_mem_filter isLive)
  · intro p' isPath
    have listed := List.mem_of_mem_filter isPath
    refine (inv.joined p' listed).congr (fun x inside => same x ?_)
    unfold Within pdMod pdHead at inside
    obtain own | apart := inv.cross p' listed l live
    · omega
    · unfold Apart at apart
      omega
  · intro p' isPath
    obtain ⟨l', live', mine⟩ := inv.owned p' (List.mem_of_mem_filter isPath)
    exact ⟨l', List.mem_filter.mpr ⟨live', List.any_eq_true.mpr ⟨p', isPath, by simpa using mine.symm⟩⟩, mine⟩
  · intro l' isLive
    obtain ⟨live', -⟩ := List.mem_filter.mp isLive
    have kept := inv.kept l' live'
    show Kept left.mem ((s.without p.a1).ends l'.master 0) ((s.without p.a1).ends l'.master 1) l'
    obtain rfl | apart := inv.live_cases live live'
    · have first := less l'.master 0
      have second := less l'.master 1
      have few := kept.few
      refine ⟨kept.fits, readers, writers, by omega, ?_⟩
      refine (freeBuf_congr (fun x inside => same x ?_)).trans kept.buffer
      unfold Within pdBuf pdBufSz at inside
      omega
    · have other : p.master ≠ l'.master := by
        unfold Apart at apart
        omega
      have stays : ∀ bit, (s.without p.a1).ends l'.master bit = s.ends l'.master bit := by
        intro bit
        rw [less, if_neg (fun both => other both.1), Nat.add_zero]
      rw [stays, stays]
      refine kept.congr (fun x inside => same x ?_)
      unfold Apart at apart
      unfold Within pdBuf pdRdOpn pdBufSz at inside
      omega
  · intro l' isLive
    obtain ⟨-, some⟩ := List.mem_filter.mp isLive
    obtain ⟨p', left', mine⟩ := List.any_eq_true.mp some
    exact ⟨p', left', by simpa using mine⟩
  · show s.freed ++ left.freed = s.due ++ _
    rw [inv.freed, freed]
    exact congrArg _ (inv.due_left member live owner).symm

theorem step_close (inv : Inv s) {q : Req} (opened : Proper s (.close q)) (bound : Bound s (.close q)) :
    ∃ left, s.answer (.close q) = some left ∧ Inv (s.after (.close q) left) := by
  obtain ⟨p, member, here⟩ := opened
  obtain ⟨agrees, unnamed⟩ := bound p member here
  obtain ⟨l, live, owner⟩ := inv.owned p member
  obtain ⟨left, made, mem, readers, writers, freed⟩ := inv.close_left member here live owner agrees unnamed
  rw [← here] at mem readers writers freed
  refine ⟨left, made, ?_⟩
  show Inv (s.leave q.a1 left)
  rw [← here]
  exact inv.leave member live owner mem readers writers freed

end Closing

/-! ### Runs -/

theorem step_inv {s : Mgr} {event : Event} (inv : Inv s) (proper : Proper s event) (bound : Bound s event) {left : Left}
    (made : s.answer event = some left) : Inv (s.after event left) := by
  cases event with
  | create q fresh => exact step_create inv proper bound made
  | «open» q fresh => exact step_open inv proper bound made
  | close q =>
    obtain ⟨left', made', next⟩ := step_close inv proper bound
    obtain rfl := Option.some.inj (made.symm.trans made')
    exact next
  | others mem =>
    cases made
    exact inv.frame proper

theorem upheld_of_inv {s : Mgr} {events : List Event} (inv : Inv s)
    (meets : RunMeets Mgr.step (fun s event => Proper s event ∧ Bound s event) s events) : Upheld s events := by
  induction events generalizing s with
  | nil => exact inv.counted
  | cons event events ih =>
    obtain ⟨⟨proper, bound⟩, rest⟩ := meets
    refine ⟨inv.counted, ?_, fun left made => ?_⟩
    · rintro q rfl
      obtain ⟨left, made, -⟩ := step_close inv proper bound
      rw [made]
      rfl
    · have stepped : s.step event = some (s.after event left) := by
        unfold Mgr.step
        rw [made]
        rfl
      exact ih (step_inv inv proper bound made) (rest _ stepped)

/-- In every run of bound calls the counts are the open ends, every close returns, and the buffers given back are
those of the pipes whose last path was closed, once each and with the size they were granted. -/
theorem ends_counted {s : Mgr} {events : List Event} (start : Start s)
    (meets : RunMeets Mgr.step (fun s event => Proper s event ∧ Bound s event) s events) : Upheld s events :=
  upheld_of_inv start.inv meets

/-! ### One anonymous pipe -/

/-- No pipe is open on the device at 0x1000. -/
def noPipes : Mgr := { mem := sampleMem, paths := [], live := [], freed := [], due := [] }

/-- A pipe without a name whose buffer of 200 bytes is granted at 0x8000. -/
def wide : Req := { sampleReq 0 with size := 200, grant := .ok (0x8000, 200) }

/-- The pipe is open. -/
def widened : Mgr := (noPipes.step (.create wide sampleFresh)).getD noPipes

/-- Process 2 waits to write. -/
def waiting : Mem := widened.mem.setU16 (0x3000 + pdWrWat) 2

theorem wide_fresh : Fresh noPipes wide sampleFresh := by
  refine ⟨by decide, by unfold Apart; decide, by unfold Apart; decide, by unfold Apart; decide, nofun, nofun, ?_, ?_⟩
  · rintro b n granted
    cases granted
    decide
  · rintro x (⟨p, member, -⟩ | ⟨l, member, -⟩)
    · cases member
    · cases member

theorem wide_unnamed : asked (laid noPipes.mem wide.a1 sampleFresh) wide = none := by decide

theorem widened_stepped : noPipes.step (.create wide sampleFresh) = some widened := by
  have some : (noPipes.step (.create wide sampleFresh)).isSome = true := by decide
  obtain ⟨s, stepped⟩ := Option.isSome_iff_exists.mp some
  unfold widened
  rw [stepped]
  rfl

theorem widened_paths : widened.paths.map (fun p => (p.a1, p.mode, p.master)) = [(0x3000, 3, 0x3000)] := by decide

theorem widened_open : ∃ p ∈ widened.paths, p.a1 = 0x3000 := by
  have member : (0x3000, 3, 0x3000) ∈ widened.paths.map (fun p => (p.a1, p.mode, p.master)) := by
    rw [widened_paths]
    exact List.mem_singleton_self _
  obtain ⟨p, listed, same⟩ := List.mem_map.mp member
  exact ⟨p, listed, (Prod.mk.inj same).1⟩

theorem widened_live : widened.live.map (fun l => (l.master, l.block)) = [(0x3000, some (0x8000, 200))] := by decide

/-- The pipe is closed while a writer waits: both counts go down and the buffer is given back. -/
theorem ends_counted_wide :
    Upheld noPipes [.create wide sampleFresh, .others waiting, .close wide] ∧
      (run Mgr.step noPipes [.create wide sampleFresh, .others waiting, .close wide]).map Mgr.freed = some [(0x8000, 200)] := by
  have only : ∀ p ∈ widened.paths, p.a1 = 0x3000 ∧ p.mode = 3 ∧ p.master = 0x3000 := by
    intro p member
    have listed := List.mem_map_of_mem (f := fun p : Path => (p.a1, p.mode, p.master)) member
    rw [widened_paths] at listed
    simpa using listed
  have given : ∀ l ∈ widened.live, l.master = 0x3000 := by
    intro l member
    have listed := List.mem_map_of_mem (f := fun l : Live => (l.master, l.block)) member
    rw [widened_live] at listed
    simpa using (Prod.mk.inj (List.mem_singleton.mp listed)).1
  have start : Start noPipes := ⟨rfl, rfl, rfl⟩
  refine ⟨ends_counted start ⟨⟨wide_fresh, ?_⟩, fun s stepped => ?_⟩, by decide⟩
  · intro name asks
    rw [wide_unnamed] at asks
    cases asks
  · obtain rfl := Option.some.inj (widened_stepped.symm.trans stepped)
    refine ⟨⟨?_, trivial⟩, fun s' waits => ?_⟩
    · intro x guarded
      refine Mem.setU16_outside _ _ ?_
      obtain ⟨p, member, inside⟩ | ⟨l, member, inside⟩ := guarded
      · rw [(only p member).1] at inside
        unfold Within pdMod pdHead at inside
        unfold pdWrWat
        omega
      · rw [given l member] at inside
        unfold Within pdBuf pdRdOpn pdBufSz at inside
        unfold pdWrWat
        omega
    · cases waits
      refine ⟨⟨widened_open, fun p member _ => ?_⟩, fun _ _ => trivial⟩
      obtain ⟨-, mode, master⟩ := only p member
      rw [mode, master]
      exact ⟨fun _ => by decide, fun _ => by decide⟩

/-- Nobody waits, so the close takes the PID 0 for the mode: a writer stays counted, and the buffer is not given back. -/
theorem ends_miscounted :
    ¬ ∀ (s : Mgr) (events : List Event), Start s → RunMeets Mgr.step Proper s events → Upheld s events := by
  intro always
  have meets : RunMeets Mgr.step Proper noPipes [.create wide sampleFresh, .close wide] := by
    refine ⟨wide_fresh, fun s stepped => ⟨?_, fun _ _ => trivial⟩⟩
    obtain rfl := Option.some.inj (widened_stepped.symm.trans stepped)
    exact widened_open
  obtain ⟨-, -, created⟩ := always noPipes [.create wide sampleFresh, .close wide] ⟨rfl, rfl, rfl⟩ meets
  obtain ⟨left, made, is⟩ := Option.map_eq_some_iff.mp widened_stepped
  obtain ⟨-, returns, closed⟩ := created left made
  rw [is] at returns closed
  obtain ⟨left', made'⟩ := Option.isSome_iff_exists.mp (returns wide rfl)
  have counted : Counted (widened.after (.close wide) left') := closed left' made'
  have lost : (widened.step (.close wide)).map (fun s => (s.freed, s.due)) = some ([], [(0x8000, 200)]) := by decide
  have stepped : widened.step (.close wide) = some (widened.after (.close wide) left') := by
    unfold Mgr.step
    rw [made']
    rfl
  rw [stepped] at lost
  obtain ⟨freed, due⟩ := Prod.mk.inj (Option.some.inj lost)
  have same := counted.freed
  rw [freed, due] at same
  cases same

end Q9OS.Pipe.Ends

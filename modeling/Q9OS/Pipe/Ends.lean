import Q9OS.Pipe.Directory

/-!
# The ends of pipes

The counts of open ends in the master descriptor of a pipe beside the paths that
are open, and the buffers given back beside those of the pipes that are closed,
over runs of creates, opens and closes.
-/

namespace Q9OS.Pipe.Ends

open Names

/-- An open path: its descriptor, its mode and the master descriptor of its pipe. -/
structure Path where
  a1 : Nat
  mode : Nat
  master : Nat

/-- A pipe with open paths and the block its buffer was granted, none for the buffer inside the
descriptor. -/
structure Live where
  master : Nat
  block : Option (Nat × Nat)

/-- The memory, open paths, live pipes, the blocks given back and those of pipes that are closed. -/
structure Mgr where
  mem : Mem
  paths : List Path
  live : List Live
  freed : List (Nat × Nat)
  due : List (Nat × Nat)

/-- The calls, and whatever else happens to memory between them: waiting processes, data. -/
inductive Event
  | create (q : Req) (fresh : Mem)
  | «open» (q : Req) (fresh : Mem)
  | close (q : Req)
  | others (mem : Mem)

def Mgr.answer (s : Mgr) : Event → Option Left
  | .create q fresh => create (laid s.mem q.a1 fresh) q
  | .open q fresh => «open» (laid s.mem q.a1 fresh) q
  | .close q => close s.mem q
  | .others mem => some { mem := mem, err := none, sent := [], freed := [] }

def granted (q : Req) : Option (Nat × Nat) := if q.size ≤ pipeDefSz then none else q.grant.toOption

/-- A path is open; it is the first of its pipe where its own descriptor is the master. -/
def Mgr.join (s : Mgr) (q : Req) (mem : Mem) : Mgr :=
  { s with
    mem := mem
    paths := ⟨q.a1, mem.getU8 (q.a1 + pdMod), headOf mem q.a1⟩ :: s.paths
    live := if headOf mem q.a1 = q.a1 then ⟨q.a1, granted q⟩ :: s.live else s.live }

/-- The path at `a1` is closed, and with the last one its pipe. -/
def Mgr.leave (s : Mgr) (a1 : Nat) (left : Left) : Mgr :=
  let paths := s.paths.filter (fun p => p.a1 != a1)
  let open? (l : Live) : Bool := paths.any (fun p => p.master == l.master)
  { mem := left.mem, paths := paths, live := s.live.filter open?, freed := s.freed ++ left.freed
    due := s.due ++ (s.live.filter (fun l => !open? l)).flatMap (fun l => l.block.toList) }

def Mgr.after (s : Mgr) (event : Event) (left : Left) : Mgr :=
  match event with
  | .create q _ => if left.err = none then s.join q left.mem else { s with mem := left.mem }
  | .open q _ => if left.err = none then s.join q left.mem else { s with mem := left.mem }
  | .close q => s.leave q.a1 left
  | .others mem => { s with mem := mem }

def Mgr.step (s : Mgr) (event : Event) : Option Mgr := (s.answer event).map (s.after event)

/-- Open paths of a pipe whose mode has the bit: 0 for reading, 1 for writing. -/
def Mgr.ends (s : Mgr) (master bit : Nat) : Nat :=
  s.paths.countP (fun p => p.master == master && p.mode.testBit bit)

/-! ### What the counts are for -/

/-- No open path of the pipe has the bit in its mode. -/
def Mgr.Without (s : Mgr) (master bit : Nat) : Prop :=
  ∀ p ∈ s.paths, p.master = master → ¬ p.mode.testBit bit

/-- The counts are the open ends. So a reader of an empty pipe is told of the end of file just when
there is no writer, and a writer of a broken pipe just when there is no reader. -/
structure Counted (s : Mgr) : Prop where
  readers : ∀ l ∈ s.live, s.mem.getU16 (l.master + pdRdOpn) = s.ends l.master 0
  writers : ∀ l ∈ s.live, s.mem.getU16 (l.master + pdWrOpn) = s.ends l.master 1
  endOfFile : ∀ l ∈ s.live, ∀ fuel r c, r.rdByt = 0 → c.d6 ≠ 0 → c.d5 = 0 →
    ((rdLoop (fuel + 1) r (endsOf s.mem l.master) c).2.2 = .back c (some errEof) ↔ s.Without l.master 1)
  brokenPipe : ∀ l ∈ s.live, ∀ fuel r c, c.d6 ≠ 0 → c.d5 = 0 →
    ((wrLoop (fuel + 1) r (endsOf s.mem l.master) c).2.2 = .back c (some errBroknp) ↔ s.Without l.master 0)
  freed : s.freed = s.due

/-- The counts are right in every state, and every close returns. -/
def Upheld : Mgr → List Event → Prop
  | s, [] => Counted s
  | s, event :: events =>
    Counted s ∧ (∀ q, event = .close q → (s.answer event).isSome) ∧
      ∀ left, s.answer event = some left → Upheld (s.after event left) events

/-! ### Cells that the counts rest on -/

def Within (a n x : Nat) : Prop := a ≤ x ∧ x < a + n

/-- Mode and master of the open paths, buffer and counts of the live pipes. -/
def Guarded (s : Mgr) (x : Nat) : Prop :=
  (∃ p ∈ s.paths, x = p.a1 + pdMod ∨ Within (p.a1 + pdHead) 4 x) ∨
    ∃ l ∈ s.live, Within (l.master + pdBuf) 4 x ∨ Within (l.master + pdRdOpn) 4 x ∨ Within (l.master + pdBufSz) 4 x

/-- How the search of a call for its name ends. -/
def search (m : Mem) (q : Req) : Option Found :=
  match parseName q m q.name with
  | .error _ => none
  | .ok (a0, d1) => findNamed (m.setU16 (statOf m q.a1 + vBusy) q.pid) a0 d1 (statOf m q.a1)

/-- The bytes `Pipe_CopyMem` moves. -/
def moved (d1 : Nat) : Nat := if d1 < 0x80000000 then d1 else 0

/-- What is in `d3` when `Pipe_Create` takes it for the length of the name. -/
def nameLength (q : Req) : Nat := q.d3 / 65536 * 65536 + errPnnf

/-- A new descriptor lies apart from the device, from the descriptors of open paths and from the
master descriptors of live pipes; memory is granted in the size asked for at least. -/
structure Fresh (s : Mgr) (q : Req) (fresh : Mem) : Prop where
  fits : q.a1 + 256 ≤ 4294967296
  dev_apart : Apart q.a1 256 (fresh.getU32 pdDev) 8
  stat_apart : Apart q.a1 256 (statOf (laid s.mem q.a1 fresh) q.a1) 108
  tables_apart : Apart (fresh.getU32 pdDev) 8 (statOf (laid s.mem q.a1 fresh) q.a1) 108
  paths_apart : ∀ p ∈ s.paths, Apart q.a1 256 p.a1 256
  live_apart : ∀ l ∈ s.live, Apart q.a1 256 l.master 256
  grant : ∀ b n, q.grant = .ok (b, n) → q.size ≤ n ∧ n < 4294967296 ∧ b < 4294967296
  device : ∀ x, Guarded s x → ¬ Within (statOf (laid s.mem q.a1 fresh) q.a1 + vBusy) 4 x ∧
    ¬ Within (statOf (laid s.mem q.a1 fresh) q.a1 + vPipes) 4 x

/-- A call with a name: the path reads or writes, and the cells the call takes for the lock are not
guarded. -/
structure Searches (s : Mgr) (q : Req) (fresh : Mem) : Prop where
  mode : (fresh.getU8 pdMod).testBit 0 ∨ (fresh.getU8 pdMod).testBit 1
  unlocks : ∀ a2, search (laid s.mem q.a1 fresh) q = some (.pipe a2) ∨
    search (laid s.mem q.a1 fresh) q = some (.nothing a2) → ∀ x, Guarded s x → ¬ Within (a2 + vBusy) 4 x

/-- What is moved behind a new descriptor hits neither guarded cells nor the device entry. -/
def Overruns (s : Mgr) (q : Req) (fresh : Mem) : Prop :=
  ∀ x, q.a1 + 256 ≤ x → x < q.a1 + pdName + moved (nameLength q) + 1 →
    ¬ Guarded s x ∧ ¬ Within (fresh.getU32 pdDev) 8 x

/-- What the callers see to: a new descriptor is fresh, only an open path is closed, and nobody else writes to the
guarded cells. -/
def Proper (s : Mgr) : Event → Prop
  | .create q fresh => Fresh s q fresh
  | .open q fresh => Fresh s q fresh
  | .close q => ∃ p ∈ s.paths, p.a1 = q.a1
  | .others mem => ∀ x, Guarded s x → mem x = s.mem x

/-- Where the calls keep the counts. Bit 1 of the waiting writer's PID is that of the mode of a path that reads, and
the last path of a pipe that has a name in its descriptor is not closed. -/
def Bound (s : Mgr) : Event → Prop
  | .create q fresh => ∀ name, asked (laid s.mem q.a1 fresh) q = some name →
    Searches s q fresh ∧ ∀ a2, search (laid s.mem q.a1 fresh) q = some (.nothing a2) → Overruns s q fresh
  | .open q fresh => ∀ name, asked (laid s.mem q.a1 fresh) q = some name →
    Searches s q fresh ∧ ∀ a2, search (laid s.mem q.a1 fresh) q = some (.pipe a2) →
      (∃ l ∈ s.live, l.master = a2) ∧ s.ends a2 0 + s.ends a2 1 + 2 < 65536
  | .close q => ∀ p ∈ s.paths, p.a1 = q.a1 →
    (p.mode.testBit 0 → (s.mem.getU16 (p.master + pdWrWat)).testBit 1 = p.mode.testBit 1) ∧
      ((∀ p' ∈ s.paths, p'.a1 ≠ q.a1 → p'.master ≠ p.master) → s.mem.getU8 (p.master + pdName) = 0)
  | .others _ => True

/-- No pipe is open and nothing has been given back. -/
structure Start (s : Mgr) : Prop where
  paths : s.paths = []
  live : s.live = []
  freed : s.freed = s.due

/-! ### What is moved -/

theorem moveBytes_spec (m : Mem) (a0 a2 n : Nat) :
    (moveBytes m a0 a2 n).2.2 = a2 + n ∧ ∀ x, x < a2 ∨ a2 + n ≤ x → (moveBytes m a0 a2 n).1 x = m x := by
  induction n generalizing m a0 a2 with
  | zero => exact ⟨rfl, fun _ _ => rfl⟩
  | succ n ih =>
    obtain ⟨target, outside⟩ := ih (m.setU8 a2 (m.getU8 a0)) (a0 + 1) (a2 + 1)
    rw [moveBytes]
    refine ⟨by rw [target]; omega, ?_⟩
    intro x apart
    rw [outside x (by omega), Mem.setU8_of_ne _ _ (by omega)]

theorem moveLongs_spec (m : Mem) (a0 a2 n : Nat) :
    (moveLongs m a0 a2 n).2.2 = a2 + 4 * n ∧ ∀ x, x < a2 ∨ a2 + 4 * n ≤ x → (moveLongs m a0 a2 n).1 x = m x := by
  induction n generalizing m a0 a2 with
  | zero => exact ⟨rfl, fun _ _ => rfl⟩
  | succ n ih =>
    obtain ⟨target, outside⟩ := ih (m.setU32 a2 (m.getU32 a0)) (a0 + 4) (a2 + 4)
    rw [moveLongs]
    refine ⟨by rw [target]; omega, ?_⟩
    intro x apart
    rw [outside x (by omega), Mem.setU32_outside _ _ (by omega)]

theorem moveWords_spec (m : Mem) (a0 a2 d1 : Nat) :
    (moveWords m a0 a2 d1).2.2 = a2 + d1 ∧ ∀ x, x < a2 ∨ a2 + d1 ≤ x → (moveWords m a0 a2 d1).1 x = m x := by
  unfold moveWords
  split
  · exact moveBytes_spec m a0 a2 d1
  · obtain ⟨target, outside⟩ := moveBytes_spec (m.setU16 a2 (m.getU16 a0)) (a0 + 2) (a2 + 2) (d1 - 2)
    refine ⟨by rw [target]; omega, ?_⟩
    intro x apart
    rw [outside x (by omega), Mem.setU16_outside _ _ (by omega)]

theorem moveAligned_spec (m : Mem) (a0 a2 d1 : Nat) :
    (moveAligned m a0 a2 d1).2.2 = a2 + d1 ∧ ∀ x, x < a2 ∨ a2 + d1 ≤ x → (moveAligned m a0 a2 d1).1 x = m x := by
  unfold moveAligned
  split
  · exact moveBytes_spec m a0 a2 d1
  · obtain ⟨first, outside⟩ := moveLongs_spec m a0 a2 (d1 / 4)
    generalize moveLongs m a0 a2 (d1 / 4) = longs at first outside
    obtain ⟨m', a0', a2'⟩ := longs
    dsimp only at first outside ⊢
    subst first
    obtain ⟨target, rest⟩ := moveWords_spec m' a0' (a2 + 4 * (d1 / 4)) (d1 % 4)
    refine ⟨by rw [target]; omega, ?_⟩
    intro x apart
    rw [rest x (by omega), outside x (by omega)]

theorem moveMem_spec (m : Mem) (a0 a2 d1 : Nat) :
    (moveMem m a0 a2 d1).2.2 = a2 + moved d1 ∧ ∀ x, x < a2 ∨ a2 + moved d1 ≤ x → (moveMem m a0 a2 d1).1 x = m x := by
  unfold moveMem moved
  by_cases none : d1 = 0 ∨ 0x80000000 ≤ d1
  · have nothing : (if d1 < 0x80000000 then d1 else 0) = 0 := by
      split <;> omega
    rw [if_pos none, nothing]
    exact ⟨rfl, fun _ _ => rfl⟩
  · have all : (if d1 < 0x80000000 then d1 else 0) = d1 := if_pos (by omega)
    rw [if_neg none, all]
    split
    · exact moveBytes_spec m a0 a2 d1
    · split
      · obtain ⟨target, outside⟩ := moveAligned_spec (m.setU8 a2 (m.getU8 a0)) (a0 + 1) (a2 + 1) (d1 - 1)
        refine ⟨by rw [target]; omega, ?_⟩
        intro x apart
        rw [outside x (by omega), Mem.setU8_of_ne _ _ (by omega)]
      · exact moveAligned_spec m a0 a2 d1

/-! ### A new descriptor -/

/-- The pipe a create leaves at `a1`. -/
structure Made (m : Mem) (q : Req) : Prop where
  head : m.getU32 (q.a1 + pdHead) = q.a1
  readers : m.getU16 (q.a1 + pdRdOpn) = ((m.getU8 (q.a1 + pdMod)).testBit 0).toNat
  writers : m.getU16 (q.a1 + pdWrOpn) = ((m.getU8 (q.a1 + pdMod)).testBit 1).toNat
  buffer : freeBuf m q.a1 = (granted q).toList

theorem freeBuf_congr {m m' : Mem} {a2 : Nat}
    (same : ∀ x, Within (a2 + pdBuf) 4 x ∨ Within (a2 + pdBufSz) 4 x → m' x = m x) : freeBuf m' a2 = freeBuf m a2 := by
  have buf : m'.getU32 (a2 + pdBuf) = m.getU32 (a2 + pdBuf) :=
    Mem.getU32_congr (fun x low high => same x (.inl ⟨low, high⟩))
  have size : m'.getU32 (a2 + pdBufSz) = m.getU32 (a2 + pdBufSz) :=
    Mem.getU32_congr (fun x low high => same x (.inr ⟨low, high⟩))
  unfold freeBuf
  rw [buf, size]

/-- What the pipe at `a1` rests on. -/
def Kernel (a1 x : Nat) : Prop :=
  x = a1 + pdMod ∨ Within (a1 + pdHead) 4 x ∨ Within (a1 + pdBuf) 4 x ∨ Within (a1 + pdRdOpn) 4 x ∨
    Within (a1 + pdBufSz) 4 x

theorem Made.congr {m m' : Mem} {q : Req} (made : Made m q) (same : ∀ x, Kernel q.a1 x → m' x = m x) : Made m' q := by
  obtain ⟨head, readers, writers, buffer⟩ := made
  have mode : m'.getU8 (q.a1 + pdMod) = m.getU8 (q.a1 + pdMod) := Mem.getU8_congr (same _ (.inl rfl))
  refine ⟨?_, ?_, ?_, ?_⟩
  · exact (Mem.getU32_congr (fun x low high => same x (.inr (.inl ⟨low, high⟩)))).trans head
  · rw [mode, ← readers]
    apply Mem.getU16_congr
    intro x low high
    exact same x (.inr (.inr (.inr (.inl ⟨low, by omega⟩))))
  · rw [mode, ← writers]
    apply Mem.getU16_congr
    intro x low high
    unfold pdWrOpn at low high
    exact same x (.inr (.inr (.inr (.inl ⟨by unfold pdRdOpn; omega, by unfold pdRdOpn; omega⟩))))
  · rw [← buffer]
    apply freeBuf_congr
    rintro x (inside | inside)
    · exact same x (.inr (.inr (.inl inside)))
    · exact same x (.inr (.inr (.inr (.inr inside))))

theorem startCounts_ends (m : Mem) (a1 : Nat) :
    (startCounts m a1).getU16 (a1 + pdRdOpn) = ((m.getU8 (a1 + pdMod)).testBit 0).toNat ∧
      (startCounts m a1).getU16 (a1 + pdWrOpn) = ((m.getU8 (a1 + pdMod)).testBit 1).toNat := by
  have apart : ∀ (m : Mem) v, (m.setU16 (a1 + pdWrOpn) v).getU16 (a1 + pdRdOpn) = m.getU16 (a1 + pdRdOpn) :=
    fun m v => Mem.getU16_setU16_apart m v (by unfold pdRdOpn pdWrOpn; omega)
  have apart' : ∀ (m : Mem) v, (m.setU16 (a1 + pdRdOpn) v).getU16 (a1 + pdWrOpn) = m.getU16 (a1 + pdWrOpn) :=
    fun m v => Mem.getU16_setU16_apart m v (by unfold pdRdOpn pdWrOpn; omega)
  simp only [startCounts]
  cases (m.getU8 (a1 + pdMod)).testBit 0 <;> cases (m.getU8 (a1 + pdMod)).testBit 1 <;>
    simp [apart, apart']

theorem startCounts_outside (m : Mem) {a1 x : Nat} (apart : ¬ Within (a1 + pdRdOpn) 4 x) : startCounts m a1 x = m x := by
  unfold Within pdRdOpn at apart
  simp only [startCounts]
  split_ifs
  all_goals
    simp only [pdRdOpn, pdWrOpn]
    simp (disch := omega) only [Mem.setU16_outside]

/-- The buffer a call asks for, as `Pipe_CreateInitPD` gets it. -/
def Chosen (q : Req) (a2 d0 : Nat) : Prop :=
  a2 < 4294967296 ∧ d0 < 4294967296 ∧ (if d0 ≤ pipeDefSz then [] else [(a2, d0)]) = (granted q).toList

section Init
variable (m : Mem) {q : Req} {a2 d0 : Nat}

theorem initPD_mode : (initPD m q a2 d0).getU8 (q.a1 + pdMod) = m.getU8 (q.a1 + pdMod) := by
  have counts : ∀ m' : Mem, (startCounts m' q.a1).getU8 (q.a1 + pdMod) = m'.getU8 (q.a1 + pdMod) :=
    fun m' => Mem.getU8_congr (startCounts_outside m' (by unfold Within pdMod pdRdOpn; omega))
  simp only [initPD, pdMod, pdBuf, pdBufSz, pdBufEnd, pdRdPtr, pdWrPtr, pdRdByt, pdWrSpc, pdRdWat, pdWrWat, pdWrWat2,
    pdRdSig, pdWrSig, pdFlags, pdDel, pdErr, pdXmask, pdHead, pdSelf, pdOwn, pdGrp, pdPerm] at counts ⊢
  simp (disch := omega) only [Mem.getU8_setU8_apart, Mem.getU8_setU16_apart, Mem.getU8_setU32_apart, counts]

theorem initPD_buf (small : a2 < 4294967296) : (initPD m q a2 d0).getU32 (q.a1 + pdBuf) = a2 := by
  have counts : ∀ m' : Mem, (startCounts m' q.a1).getU32 (q.a1 + pdBuf) = m'.getU32 (q.a1 + pdBuf) :=
    fun m' => Mem.getU32_congr
      (fun x low high => startCounts_outside m' (by unfold Within pdRdOpn; unfold pdBuf at high; omega))
  simp only [initPD, pdBuf, pdBufSz, pdBufEnd, pdRdPtr, pdWrPtr, pdRdByt, pdWrSpc, pdRdWat, pdWrWat, pdWrWat2,
    pdRdSig, pdWrSig, pdFlags, pdDel, pdErr, pdXmask, pdHead, pdSelf, pdOwn, pdGrp, pdPerm] at counts ⊢
  simp (disch := omega) only [Mem.getU32_setU8_apart, Mem.getU32_setU16_apart, Mem.getU32_setU32_apart, counts,
    Mem.getU32_setU32_of_lt]

theorem initPD_bufSz (small : d0 < 4294967296) : (initPD m q a2 d0).getU32 (q.a1 + pdBufSz) = d0 := by
  have counts : ∀ m' : Mem, (startCounts m' q.a1).getU32 (q.a1 + pdBufSz) = m'.getU32 (q.a1 + pdBufSz) :=
    fun m' => Mem.getU32_congr
      (fun x low high => startCounts_outside m' (by unfold Within pdRdOpn; unfold pdBufSz at low; omega))
  simp only [initPD, pdBuf, pdBufSz, pdBufEnd, pdRdPtr, pdWrPtr, pdRdByt, pdWrSpc, pdRdWat, pdWrWat, pdWrWat2,
    pdRdSig, pdWrSig, pdFlags, pdDel, pdErr, pdXmask, pdHead, pdSelf, pdOwn, pdGrp, pdPerm] at counts ⊢
  simp (disch := omega) only [Mem.getU32_setU8_apart, Mem.getU32_setU16_apart, Mem.getU32_setU32_apart, counts,
    Mem.getU32_setU32_of_lt]

theorem initPD_ends :
    (initPD m q a2 d0).getU16 (q.a1 + pdRdOpn) = ((m.getU8 (q.a1 + pdMod)).testBit 0).toNat ∧
      (initPD m q a2 d0).getU16 (q.a1 + pdWrOpn) = ((m.getU8 (q.a1 + pdMod)).testBit 1).toNat := by
  have ends := fun m' => startCounts_ends m' q.a1
  simp only [initPD, pdMod, pdBuf, pdBufSz, pdBufEnd, pdRdPtr, pdWrPtr, pdRdByt, pdWrSpc, pdRdWat, pdRdOpn, pdWrOpn,
    pdWrWat, pdWrWat2, pdRdSig, pdWrSig, pdFlags, pdDel, pdErr, pdXmask, pdHead, pdSelf, pdOwn, pdGrp, pdPerm]
    at ends ⊢
  simp (disch := omega) only [Mem.getU16_setU8_apart, Mem.getU8_setU8_apart, Mem.getU8_setU16_apart,
    Mem.getU8_setU32_apart, ends, and_self]

theorem initPD_made (fits : q.a1 < 4294967296) (chosen : Chosen q a2 d0) : Made (initPD m q a2 d0) q := by
  obtain ⟨small, smaller, buffer⟩ := chosen
  have ends := @initPD_ends m q a2 d0
  obtain ⟨readers, writers⟩ := ends
  refine ⟨initPD_head m a2 d0 fits, ?_, ?_, ?_⟩
  · rw [readers, initPD_mode m]
  · rw [writers, initPD_mode m]
  · unfold freeBuf
    rw [initPD_buf m small, initPD_bufSz m smaller]
    exact buffer

end Init

/-! ### Creating -/

theorem chosen_embedded {q : Req} (fits : q.a1 + 256 ≤ 4294967296) (small : q.size ≤ pipeDefSz) :
    Chosen q (q.a1 + pdEmbBuf) pipeDefSz := by
  refine ⟨by unfold pdEmbBuf; omega, by decide, ?_⟩
  unfold granted
  rw [if_pos (Nat.le_refl _), if_pos small]
  rfl

theorem chosen_granted {q : Req} {a2 d0 : Nat} (large : ¬ q.size ≤ pipeDefSz) (answered : q.grant = .ok (a2, d0))
    (grant : q.size ≤ d0 ∧ d0 < 4294967296 ∧ a2 < 4294967296) : Chosen q a2 d0 := by
  refine ⟨grant.2.2, grant.2.1, ?_⟩
  unfold granted
  rw [if_neg (by omega), if_neg large, answered]
  rfl

/-- The memory of a successful create. -/
def finished (m : Mem) (q : Req) (d3 a2 d0 : Nat) : Mem :=
  (if d3 % 65536 = 0 then initPD m q a2 d0 else (enterName (initPD m q a2 d0) q (add32 a2 d0) d3).1).setU16
    (q.a1 + pdCount) 1

theorem setupBuffer_cases (m : Mem) {q : Req} (d3 : Nat) (fits : q.a1 + 256 ≤ 4294967296)
    (grant : ∀ b n, q.grant = .ok (b, n) → q.size ≤ n ∧ n < 4294967296 ∧ b < 4294967296) :
    (∃ code, setupBuffer m q d3 = failed m code) ∨
      ∃ a2 d0, Chosen q a2 d0 ∧ (setupBuffer m q d3).err = none ∧ (setupBuffer m q d3).mem = finished m q d3 a2 d0 := by
  have mem : ∀ (left : Mem × List (Nat × Nat)) (m' : Mem),
      (if d3 % 65536 = 0 then (m', []) else left).1 = if d3 % 65536 = 0 then m' else left.1 := by
    intro left m'
    split <;> rfl
  unfold setupBuffer finished
  by_cases small : q.size ≤ pipeDefSz
  · rw [if_pos small]
    refine .inr ⟨_, _, chosen_embedded fits small, rfl, ?_⟩
    dsimp only
    rw [mem]
  · rw [if_neg small]
    cases answered : q.grant with
    | error code => exact .inl ⟨code, rfl⟩
    | ok block =>
      obtain ⟨a2, d0⟩ := block
      refine .inr ⟨a2, d0, chosen_granted small answered (grant a2 d0 answered), rfl, ?_⟩
      dsimp only
      rw [mem]

/-- A path that reads or writes. -/
def Ended (m : Mem) (a1 : Nat) : Prop :=
  (m.getU8 (a1 + pdMod)).testBit 0 ∨ (m.getU8 (a1 + pdMod)).testBit 1

theorem counted_kernel {a1 x : Nat} (inside : Kernel a1 x) : x < a1 + pdCount ∨ a1 + pdCount + 2 ≤ x := by
  unfold Kernel Within pdMod pdHead pdBuf pdRdOpn pdBufSz at inside
  unfold pdCount
  omega

/-- An anonymous pipe reads and writes. -/
theorem createAnonymous_left (m : Mem) {q : Req} (fits : q.a1 + 256 ≤ 4294967296)
    (grant : ∀ b n, q.grant = .ok (b, n) → q.size ≤ n ∧ n < 4294967296 ∧ b < 4294967296) :
    (∀ x, x < q.a1 ∨ q.a1 + 256 ≤ x → (createAnonymous m q).mem x = m x) ∧
      ((createAnonymous m q).err = none → Made (createAnonymous m q).mem q ∧ Ended (createAnonymous m q).mem q.a1) := by
  have anonymous : q.d3 / 65536 * 65536 % 65536 = 0 := Nat.mul_mod_left _ _
  unfold createAnonymous
  dsimp only
  generalize moded : m.setU8 (q.a1 + pdMod) (m.getU8 (q.a1 + pdMod) ||| 3) = m₁
  generalize flagged : m₁.setU8 (q.a1 + pdFlags) (m₁.getU8 (q.a1 + pdFlags) ||| 0x80) = m₂
  have outside : ∀ x, x < q.a1 ∨ q.a1 + 256 ≤ x → m₂ x = m x := by
    intro x apart
    rw [← flagged, ← moded, Mem.setU8_of_ne _ _ (by unfold pdFlags; omega), Mem.setU8_of_ne _ _ (by unfold pdMod; omega)]
  have mode : m₂.getU8 (q.a1 + pdMod) = m.getU8 (q.a1 + pdMod) ||| 3 := by
    have small : m.getU8 (q.a1 + pdMod) ||| 3 < 256 := Nat.or_lt_two_pow (n := 8) (Mem.getU8_lt _ _) (by decide)
    rw [← flagged, ← moded, Mem.getU8_setU8_apart _ _ (by unfold pdMod pdFlags; omega), Mem.getU8_setU8,
      Nat.mod_eq_of_lt small]
  obtain ⟨code, made⟩ | ⟨a2, d0, chosen, success, made⟩ := setupBuffer_cases m₂ (q.d3 / 65536 * 65536) fits grant
  · rw [made]
    exact ⟨outside, nofun⟩
  · unfold finished at made
    rw [if_pos anonymous] at made
    rw [made]
    refine ⟨?_, fun _ => ⟨?_, ?_⟩⟩
    · intro x apart
      rw [Mem.setU16_outside _ _ (by unfold pdCount; omega), initPD_spared m₂ q a2 d0 (by unfold Spared; omega), outside x apart]
    · exact (initPD_made m₂ (by omega) chosen).congr (fun x inside => Mem.setU16_outside _ _ (counted_kernel inside))
    · left
      rw [Mem.getU8_setU16_apart _ _ (by unfold pdMod pdCount; omega), initPD_mode, mode, Nat.testBit_or]
      simp

theorem statOf_congr {m m' : Mem} {a1 : Nat} (own : ∀ x, Within (a1 + pdDev) 4 x → m' x = m x)
    (table : ∀ x, Within (m.getU32 (a1 + pdDev)) 8 x → m' x = m x) : statOf m' a1 = statOf m a1 := by
  have device : m'.getU32 (a1 + pdDev) = m.getU32 (a1 + pdDev) :=
    Mem.getU32_congr (fun x low high => own x ⟨low, high⟩)
  unfold statOf
  rw [device]
  apply Mem.getU32_congr
  intro x low high
  unfold dtStat at low high
  exact table x ⟨by omega, by omega⟩

/-- Cells a call with the descriptor `a1` and the static storage `stat` does not mean to write. -/
def Beyond (a1 stat x : Nat) : Prop :=
  (x < a1 ∨ a1 + 256 ≤ x) ∧ ¬ Within (stat + vBusy) 4 x ∧ ¬ Within (stat + vPipes) 4 x

section Entered
variable {m : Mem} {q : Req} {d3 : Nat}

/-- The table entry of the device is not hit by what is moved. -/
def Tabled (m : Mem) (q : Req) (d3 : Nat) : Prop :=
  ∀ x, Within (m.getU32 (q.a1 + pdDev)) 8 x → x < q.a1 + pdName ∨ q.a1 + pdName + moved d3 + 1 ≤ x

theorem enterName_eq (m : Mem) (q : Req) (a3 d3 : Nat) :
    ∃ m', m' = (moveMem m a3 (q.a1 + pdName) d3).1.setU8 (moveMem m a3 (q.a1 + pdName) d3).2.2 0 ∧
      enterName m q a3 d3 =
        unlockDev (((m'.setU32 (q.a1 + pdNext) (m'.getU32 (statOf m' q.a1 + vPipes))).setU32 (statOf m' q.a1 + vPipes) q.a1).setU32
          (q.a1 + pdPrev) 0) (statOf m' q.a1) :=
  ⟨_, rfl, rfl⟩

theorem enterName_outside (a3 : Nat) (tabled : Tabled m q d3) {x : Nat}
    (copied : x < q.a1 + pdName ∨ q.a1 + pdName + moved d3 + 1 ≤ x)
    (links : x < q.a1 + pdPrev ∨ q.a1 + pdDel ≤ x) (lock : ¬ Within (statOf m q.a1 + vBusy) 4 x)
    (list : ¬ Within (statOf m q.a1 + vPipes) 4 x) : (enterName m q a3 d3).1 x = m x := by
  obtain ⟨target, outside⟩ := moveMem_spec m a3 (q.a1 + pdName) d3
  obtain ⟨m', is, entered⟩ := enterName_eq m q a3 d3
  generalize moveMem m a3 (q.a1 + pdName) d3 = k at target outside is
  have named : ∀ y, y < q.a1 + pdName ∨ q.a1 + pdName + moved d3 + 1 ≤ y → m' y = m y := by
    intro y apart
    rw [is, Mem.setU8_of_ne _ _ (by omega), outside y (by omega)]
  have stat : statOf m' q.a1 = statOf m q.a1 := by
    refine statOf_congr ?_ (fun y inside => named y (tabled y inside))
    intro y inside
    unfold Within pdDev at inside
    exact named y (by unfold pdName; omega)
  rw [entered, stat, unlockDev_outside _ (by unfold Within at lock; omega)]
  unfold Within at list
  unfold pdPrev pdDel at links
  rw [Mem.setU32_outside _ _ (by unfold pdPrev; omega), Mem.setU32_outside _ _ (by omega),
    Mem.setU32_outside _ _ (by unfold pdNext; omega), named x copied]

theorem initPD_statOf (m : Mem) {a2 d0 : Nat} (apart : Apart q.a1 256 (m.getU32 (q.a1 + pdDev)) 8) :
    statOf (initPD m q a2 d0) q.a1 = statOf m q.a1 ∧
      (initPD m q a2 d0).getU32 (q.a1 + pdDev) = m.getU32 (q.a1 + pdDev) := by
  have counts : ∀ m' : Mem, (startCounts m' q.a1).getU32 (q.a1 + pdDev) = m'.getU32 (q.a1 + pdDev) :=
    fun m' => Mem.getU32_congr
      (fun x low high => startCounts_outside m' (by unfold Within pdRdOpn; unfold pdDev at high; omega))
  have device : (initPD m q a2 d0).getU32 (q.a1 + pdDev) = m.getU32 (q.a1 + pdDev) := by
    simp only [initPD, pdDev, pdBuf, pdBufSz, pdBufEnd, pdRdPtr, pdWrPtr, pdRdByt, pdWrSpc, pdRdWat, pdWrWat, pdWrWat2,
      pdRdSig, pdWrSig, pdFlags, pdDel, pdErr, pdXmask, pdHead, pdSelf, pdOwn, pdGrp, pdPerm] at counts ⊢
    simp (disch := omega) only [Mem.getU32_setU8_apart, Mem.getU32_setU16_apart, Mem.getU32_setU32_apart, counts]
  refine ⟨?_, device⟩
  unfold statOf
  rw [device]
  unfold Apart at apart
  apply Mem.getU32_congr
  intro x low high
  unfold dtStat at low high
  exact initPD_spared m q a2 d0 (by unfold Spared; omega)

/-- A new named pipe, as far as what is moved to its name and behind it allows. -/
theorem setupBuffer_named (fits : q.a1 + 256 ≤ 4294967296)
    (grant : ∀ b n, q.grant = .ok (b, n) → q.size ≤ n ∧ n < 4294967296 ∧ b < 4294967296)
    (named : d3 % 65536 ≠ 0) (dev_apart : Apart q.a1 256 (m.getU32 (q.a1 + pdDev)) 8)
    (stat_apart : Apart q.a1 256 (statOf m q.a1) 108) (tabled : Tabled m q d3) :
    (∀ x, Beyond q.a1 (statOf m q.a1) x → x < q.a1 + pdName ∨ q.a1 + pdName + moved d3 + 1 ≤ x →
        (setupBuffer m q d3).mem x = m x) ∧
      ((setupBuffer m q d3).err = none → Made (setupBuffer m q d3).mem q ∧
        (setupBuffer m q d3).mem.getU8 (q.a1 + pdMod) = m.getU8 (q.a1 + pdMod)) := by
  obtain ⟨code, made⟩ | ⟨a2, d0, chosen, success, made⟩ := setupBuffer_cases m d3 fits grant
  · rw [made]
    exact ⟨fun _ _ _ => rfl, nofun⟩
  · obtain ⟨stat, device⟩ := @initPD_statOf q m a2 d0 dev_apart
    have enters := fun x => @enterName_outside (initPD m q a2 d0) q d3 (add32 a2 d0)
      (by unfold Tabled; rw [device]; exact tabled) x
    rw [stat] at enters
    unfold finished at made
    rw [if_neg named] at made
    rw [made]
    refine ⟨?_, ?_⟩
    · rintro x ⟨apart, lock, list⟩ copied
      rw [Mem.setU16_outside _ _ (by unfold pdCount; omega),
        enters x copied (by unfold pdPrev pdDel; omega) lock list, initPD_spared m q a2 d0 (by unfold Spared; omega)]
    · intro _
      unfold Apart at stat_apart
      have kept : ∀ x, Kernel q.a1 x →
          ((enterName (initPD m q a2 d0) q (add32 a2 d0) d3).1.setU16 (q.a1 + pdCount) 1) x = initPD m q a2 d0 x := by
        intro x inside
        rw [Mem.setU16_outside _ _ (counted_kernel inside)]
        unfold Kernel Within pdMod pdHead pdBuf pdRdOpn pdBufSz at inside
        exact enters x (by unfold pdName; omega) (by unfold pdPrev pdDel; omega)
          (by unfold Within vBusy; omega) (by unfold Within vPipes; omega)
      refine ⟨(initPD_made m (by omega) chosen).congr kept, ?_⟩
      rw [Mem.getU8_congr (kept _ (.inl rfl)), initPD_mode]

end Entered

/-! ### The calls by their cases -/

section Cases
variable {m : Mem} {q : Req} {left : Left}

/-- The memory while a call holds the lock. -/
def locked (m : Mem) (q : Req) : Mem := m.setU16 (statOf m q.a1 + vBusy) q.pid

theorem lockDev_cases {m' : Mem} (took : lockDev m (statOf m q.a1) q.pid = some m') : m' = locked m q := by
  unfold lockDev at took
  split at took
  · exact (Option.some.inj took).symm
  · cases took

/-- The name of a call that gets as far as its search. -/
theorem search_asked {a0 d1 : Nat} (mode : ¬ (m.getU8 (q.a1 + pdMod)).testBit 7) (noName : q.name ≠ 0)
    (parse : parseName q m q.name = .ok (a0, d1)) (some' : d1 ≠ 0) :
    (∃ name, asked m q = some name) ∧ search m q = findNamed (locked m q) a0 d1 (statOf m q.a1) := by
  unfold asked parsed search
  rw [parse, if_neg (by simp [mode, noName])]
  dsimp only
  rw [if_neg some']
  exact ⟨⟨_, rfl⟩, rfl⟩

/-- The common part of `Pipe_Create` and `Pipe_Open`; `served` is what follows the search. -/
def called (m : Mem) (q : Req) (served : Mem → Found → Left) : Option Left :=
  if (m.getU8 (q.a1 + pdMod)).testBit 7 then some (failed m errBmode)
  else if q.name = 0 then some (createAnonymous m q)
  else
    match parseName q m q.name with
    | .error code => some (failed m code)
    | .ok (a0, d1) =>
      if d1 = 0 then some (createAnonymous m q)
      else
        match lockDev m (statOf m q.a1) q.pid with
        | none => none
        | some m' => (findNamed m' a0 d1 (statOf m q.a1)).map (served m')

def createServed (q : Req) (m : Mem) : Found → Left
  | .pipe a2 => failedUnlock m a2 errCerr
  | .nothing _ => setupBuffer m q (nameLength q)

def openServed (q : Req) (m : Mem) : Found → Left
  | .nothing a2 => failedUnlock m a2 errPnnf
  | .pipe a2 =>
    let d2 := m.getU8 (q.a1 + pdMod)
    if m.getU8 (a2 + pdPerm) &&& d2 ≠ d2 then failedUnlock m a2 errBmode
    else
      let m := connect m q.a1 a2 d2
      { mem := (unlockDev m a2).1, err := none, sent := (unlockDev m a2).2, freed := [] }

theorem create_called (m : Mem) (q : Req) : create m q = called m q (createServed q) := by
  rw [create, called]
  refine if_congr Iff.rfl rfl (if_congr Iff.rfl rfl ?_)
  cases parseName q m q.name with
  | error code => rfl
  | ok name =>
    obtain ⟨a0, d1⟩ := name
    refine if_congr Iff.rfl rfl ?_
    cases lockDev m (statOf m q.a1) q.pid with
    | none => rfl
    | some m' =>
      dsimp only
      cases findNamed m' a0 d1 (statOf m q.a1) with
      | none => rfl
      | some found => cases found <;> rfl

theorem open_called (m : Mem) (q : Req) : «open» m q = called m q (openServed q) := by
  rw [«open», called]
  refine if_congr Iff.rfl rfl (if_congr Iff.rfl rfl ?_)
  cases parseName q m q.name with
  | error code => rfl
  | ok name =>
    obtain ⟨a0, d1⟩ := name
    refine if_congr Iff.rfl rfl ?_
    cases lockDev m (statOf m q.a1) q.pid with
    | none => rfl
    | some m' =>
      dsimp only
      cases findNamed m' a0 d1 (statOf m q.a1) with
      | none => rfl
      | some found =>
        cases found with
        | nothing a2 => rfl
        | pipe a2 =>
          simp only [openServed, Option.map_some]
          split_ifs <;> rfl

/-- A call fails before its search, is about an anonymous pipe, or gets to what follows the search. -/
theorem called_cases {served : Mem → Found → Left} (made : called m q served = some left) :
    (∃ code, left = failed m code) ∨ left = createAnonymous m q ∨
      (∃ name, asked m q = some name) ∧ ∃ found, search m q = some found ∧ left = served (locked m q) found := by
  unfold called at made
  by_cases mode : (m.getU8 (q.a1 + pdMod)).testBit 7
  · rw [if_pos mode] at made
    exact .inl ⟨_, (Option.some.inj made).symm⟩
  rw [if_neg mode] at made
  by_cases noName : q.name = 0
  · rw [if_pos noName] at made
    exact .inr (.inl (Option.some.inj made).symm)
  rw [if_neg noName] at made
  cases parse : parseName q m q.name with
  | error code =>
    rw [parse] at made
    exact .inl ⟨_, (Option.some.inj made).symm⟩
  | ok name =>
    obtain ⟨a0, d1⟩ := name
    rw [parse] at made
    dsimp only at made
    by_cases none : d1 = 0
    · rw [if_pos none] at made
      exact .inr (.inl (Option.some.inj made).symm)
    rw [if_neg none] at made
    obtain ⟨named, searched⟩ := search_asked mode noName parse none
    cases took : lockDev m (statOf m q.a1) q.pid with
    | none =>
      rw [took] at made
      cases made
    | some m' =>
      rw [took] at made
      dsimp only at made
      rw [lockDev_cases took, ← searched] at made
      obtain ⟨found, result, is⟩ := Option.map_eq_some_iff.mp made
      exact .inr (.inr ⟨named, found, result, is.symm⟩)

theorem openServed_cases (m : Mem) (q : Req) (found : Found) :
    (∃ a2 code, (found = .pipe a2 ∨ found = .nothing a2) ∧ openServed q m found = failedUnlock m a2 code) ∨
      ∃ a2, found = .pipe a2 ∧ (openServed q m found).err = none ∧
        (openServed q m found).mem = (unlockDev (connect m q.a1 a2 (m.getU8 (q.a1 + pdMod))) a2).1 := by
  cases found with
  | nothing a2 => exact .inl ⟨a2, _, .inr rfl, rfl⟩
  | pipe a2 =>
    simp only [openServed]
    split
    · exact .inl ⟨a2, _, .inl rfl, rfl⟩
    · exact .inr ⟨a2, rfl, rfl, rfl⟩

theorem findLoop_ne_zero {m : Mem} {name len fuel a1 a2 a : Nat} (found : findLoop m name len fuel a1 a2 = some (.pipe a)) :
    a ≠ 0 := by
  induction fuel generalizing a1 a2 with
  | zero => cases found
  | succ fuel ih =>
    rw [findLoop] at found
    split at found
    · cases found
    · split at found
      · cases found
      · dsimp only at found
        split at found
        · cases found
          assumption
        · exact ih found

theorem search_ne_zero {a : Nat} (found : search m q = some (.pipe a)) : a ≠ 0 := by
  unfold search at found
  cases parse : parseName q m q.name with
  | error code =>
    rw [parse] at found
    cases found
  | ok name =>
    rw [parse] at found
    exact findLoop_ne_zero found

end Cases

end Q9OS.Pipe.Ends

import Q9OS.Lib.Run
import Q9OS.Lib.Mem

/-!
# Sectors of the block file manager

`rbf_drv.a`: the static sector buffers with their cache tags, the call into
the block driver and the two routines every file operation goes through. The
driver itself is outside: each call brings the answer the driver gives.
-/

namespace Q9OS.Rbf

/-- The static buffers of the module. -/
inductive Buffer
  | lsn0
  | fd
  | sector
  | bitmap
  deriving DecidableEq, Repr

/-- The 512 bytes of a sector, by offset. -/
abbrev Sector := Mem

/-- Where the loader put the static buffers. -/
structure Statics where
  addr : Buffer → Nat
  addr_inj : Function.Injective addr

/-- A device table entry: the driver module and the static storage of the device. The driver is
a module of its own, so its base is none of the buffers of this one. -/
structure Device (st : Statics) where
  entry : Nat
  driv : Nat
  stat : Nat
  driv_apart : ∀ b, driv ≠ st.addr b

/-- The fields of a path descriptor the driver call reads and writes; `dev` is empty for a null
`PD_DEV`. -/
structure DrvPath (st : Statics) where
  dev : Option (Device st)
  drv : Nat
  cpr : Nat
  buf : Nat
  dtb : Nat
  dvt : Nat

/-- The buffers and tags of the module, the lock word `V_BUSY` of each device and the sectors of
each drive, by static storage and drive number. -/
structure Store where
  curLSN : Nat
  curFDLSN : Nat
  lsn0Valid : Nat
  buf : Buffer → Sector
  busy : Nat → Nat
  disk : Nat → Nat → Nat → Sector

/-- The two entries of the driver's table that move sectors. -/
inductive Fn
  | read
  | write
  deriving DecidableEq, Repr

/-- What the driver makes of one call. A call that fails may leave anything in the cells it was to
fill: the buffer of a read, the sector of a write. -/
inductive Answer
  | done
  | failed (code : Nat) (left : Sector)

def Answer.filled : Answer → Sector → Sector
  | .done, good => good
  | .failed _ left, _ => left

def noTag : Nat := 0xFFFFFFFF

def errBadDvr : Nat := 0xC8

/-- Registers and carry on return: `a0` decides the tags, `d1` is the error code. -/
structure Return (st : Statics) where
  a0 : Nat
  d1 : Nat
  carry : Bool
  path : DrvPath st
  store : Store

variable {st : Statics}

namespace Store

def setBuf (s : Store) (b : Buffer) (bytes : Sector) : Store :=
  { s with buf := Function.update s.buf b bytes }

def setBusy (s : Store) (stat pid : Nat) : Store :=
  { s with busy := Function.update s.busy stat pid }

def content (s : Store) (stat drv lsn : Nat) : Sector := s.disk stat drv lsn

def setContent (s : Store) (stat drv lsn : Nat) (bytes : Sector) : Store :=
  { s with disk := fun stat' drv' lsn' =>
      if stat' = stat ∧ drv' = drv ∧ lsn' = lsn then bytes else s.disk stat' drv' lsn' }

/-- What the driver does to the buffer `PD_BUF` points to, or to the sector. -/
def transfer (s : Store) (fn : Fn) (dev : Device st) (drv lsn : Nat) (b : Buffer) (ans : Answer) : Store :=
  match fn with
  | .read => s.setBuf b (ans.filled (s.content dev.stat drv lsn))
  | .write => s.setContent dev.stat drv lsn (ans.filled (s.buf b))

end Store

/-- `sizeof(struct rbfdrive)` and the offset of the drive tables in the static storage. -/
def driveTable (stat drv : Nat) : Nat := stat + (drv * 84 + 54)

/-- `Rbf_CallDriver` with `PD_BUF` at buffer `b`. The wait for `V_BUSY` is a busy loop: a device
that another process holds never lets the call return. The registers the call brings back were
saved after `a0` had become the base of the driver module. -/
def callDriver (fn : Fn) (p : DrvPath st) (a0 lsn : Nat) (b : Buffer) (ans : Answer) (s : Store) :
    Option (Return st) :=
  match p.dev with
  | none => some { a0 := a0, d1 := errBadDvr, carry := true, path := p, store := s }
  | some dev =>
    let p := { p with dtb := if p.dtb = 0 then driveTable dev.stat p.drv else p.dtb, dvt := dev.entry }
    if s.busy dev.stat ≠ 0 ∧ s.busy dev.stat ≠ p.cpr then none
    else
      let s := (s.setBusy dev.stat p.cpr).transfer fn dev p.drv lsn b ans
      let s := s.setBusy dev.stat 0
      match ans with
      | .done => some { a0 := dev.driv, d1 := 0, carry := false, path := p, store := s }
      | .failed code _ => some { a0 := dev.driv, d1 := code, carry := true, path := p, store := s }

/-- The comparisons of `Rbf_ReadSector` that find the sector in the buffer already. -/
def cacheHit (st : Statics) (s : Store) (a0 lsn : Nat) : Bool :=
  if a0 = st.addr .sector then lsn == s.curLSN
  else if a0 = st.addr .fd then lsn == s.curFDLSN
  else if a0 = st.addr .lsn0 then lsn == 0 && s.lsn0Valid != 0
  else false

/-- The tag a read leaves, by the `a0` the driver call came back with. -/
def tagRead (st : Statics) (s : Store) (a0 lsn : Nat) : Store :=
  if a0 = st.addr .sector then { s with curLSN := lsn }
  else if a0 = st.addr .fd then { s with curFDLSN := lsn }
  else if a0 = st.addr .lsn0 then { s with lsn0Valid := 1 }
  else s

/-- `Rbf_ReadSector`. -/
def readSector (p : DrvPath st) (lsn : Nat) (b : Buffer) (ans : Answer) (s : Store) : Option (Return st) :=
  let a0 := st.addr b
  if cacheHit st s a0 lsn then some { a0 := a0, d1 := 0, carry := false, path := p, store := s }
  else
    match callDriver .read { p with buf := a0 } a0 lsn b ans s with
    | none => none
    | some r =>
      if r.carry then some { r with a0 := a0 }
      else some { r with a0 := a0, store := tagRead st r.store r.a0 lsn }

def tagWriteSector (st : Statics) (s : Store) (a0 lsn : Nat) : Store :=
  if a0 = st.addr .sector then { s with curLSN := lsn }
  else if lsn = s.curLSN then { s with curLSN := noTag }
  else s

def tagWriteFD (st : Statics) (s : Store) (a0 lsn : Nat) : Store :=
  if a0 = st.addr .fd then { s with curFDLSN := lsn }
  else if lsn = s.curFDLSN then { s with curFDLSN := noTag }
  else s

def tagWriteLSN0 (st : Statics) (s : Store) (a0 lsn : Nat) : Store :=
  if a0 = st.addr .lsn0 then { s with lsn0Valid := 1 }
  else if lsn = 0 then { s with lsn0Valid := 0 }
  else s

/-- `Rbf_WriteSector`: write through, then keep the tags of the three tagged buffers in step. -/
def writeSector (p : DrvPath st) (lsn : Nat) (b : Buffer) (ans : Answer) (s : Store) : Option (Return st) :=
  let a0 := st.addr b
  match callDriver .write { p with buf := a0 } a0 lsn b ans s with
  | none => none
  | some r =>
    if r.carry then some { r with a0 := a0 }
    else
      let s := tagWriteSector st r.store r.a0 lsn
      let s := tagWriteFD st s r.a0 lsn
      some { r with a0 := a0, store := tagWriteLSN0 st s r.a0 lsn }

/-- `Rbf_FlushCache`. -/
def flushCache (s : Store) : Store := { s with curLSN := noTag, curFDLSN := noTag, lsn0Valid := 0 }

/-! ### Runs -/

/-- What happens around the cache: the two routines on a path and a buffer with the driver's
answer, a flush, and callers that change a buffer. -/
inductive Event (st : Statics)
  | read (p : DrvPath st) (lsn : Nat) (b : Buffer) (ans : Answer)
  | write (p : DrvPath st) (lsn : Nat) (b : Buffer) (ans : Answer)
  | flush
  | change (b : Buffer) (bytes : Sector)

def Store.step (s : Store) : Event st → Option Store
  | .read p lsn b ans => (readSector p lsn b ans s).map Return.store
  | .write p lsn b ans => (writeSector p lsn b ans s).map Return.store
  | .flush => some (flushCache s)
  | .change b bytes => some (s.setBuf b bytes)

/-- The tags as the module is assembled: no buffer holds a sector. -/
def Store.Untagged (s : Store) : Prop := s.curLSN = noTag ∧ s.curFDLSN = noTag ∧ s.lsn0Valid = 0

/-! ### The tags never match -/

theorem tagRead_driver (dev : Device st) (s : Store) (lsn : Nat) : tagRead st s dev.driv lsn = s := by
  unfold tagRead
  rw [if_neg (dev.driv_apart .sector), if_neg (dev.driv_apart .fd), if_neg (dev.driv_apart .lsn0)]

theorem cacheHit_untagged {s : Store} {lsn : Nat} (a0 : Nat) (blank : s.Untagged) (small : lsn < 2 ^ 24) :
    cacheHit st s a0 lsn = false := by
  obtain ⟨noSector, noFD, noLSN0⟩ := blank
  have odd : lsn ≠ noTag := by
    unfold noTag
    omega
  unfold cacheHit
  split
  · simp [noSector, odd]
  · split
    · simp [noFD, odd]
    · split <;> simp [noLSN0]

/-! ### What a driver call does -/

/-- What the two routines rest on: the call came back with the driver's base in `a0` on success,
and the driver moved one sector between the buffer and the path's device. -/
structure Called (fn : Fn) (p : DrvPath st) (lsn : Nat) (b : Buffer) (ans : Answer) (s : Store)
    (dev : Device st) (r : Return st) : Prop where
  device : p.dev = some dev
  a0 : r.a0 = dev.driv
  store : r.store = ((s.setBusy dev.stat p.cpr).transfer fn dev p.drv lsn b ans).setBusy dev.stat 0
  carry : r.carry = false ↔ ans = .done

theorem callDriver_cases {fn : Fn} {p : DrvPath st} {a0 lsn : Nat} {b : Buffer} {ans : Answer} {s : Store}
    {r : Return st} (called : callDriver fn p a0 lsn b ans s = some r) :
    (r.carry = true ∧ r.store = s) ∨ ∃ dev, Called fn p lsn b ans s dev r := by
  unfold callDriver at called
  cases hasDev : p.dev with
  | none =>
    rw [hasDev] at called
    cases called
    exact Or.inl ⟨rfl, rfl⟩
  | some dev =>
    rw [hasDev] at called
    dsimp only at called
    split at called
    · cases called
    · refine Or.inr ⟨dev, ?_⟩
      cases ans with
      | done =>
        cases called
        exact ⟨hasDev, rfl, rfl, by simp⟩
      | failed code left =>
        cases called
        exact ⟨hasDev, rfl, rfl, by simp⟩

theorem Called.untagged {fn : Fn} {p : DrvPath st} {lsn : Nat} {b : Buffer} {ans : Answer} {s : Store}
    {dev : Device st} {r : Return st} (called : Called fn p lsn b ans s dev r) (blank : s.Untagged) :
    r.store.Untagged := by
  rw [called.store]
  cases fn
  · exact blank
  · exact blank

/-- Without tags a read goes to the driver. -/
theorem readSector_untagged {p : DrvPath st} {lsn : Nat} {b : Buffer} {ans : Answer} {s : Store} {r : Return st}
    (blank : s.Untagged) (small : lsn < 2 ^ 24) (ran : readSector p lsn b ans s = some r) :
    (r.carry = true ∧ r.store = s) ∨
      ∃ dev mid, Called .read { p with buf := st.addr b } lsn b ans s dev mid ∧ r = { mid with a0 := st.addr b } := by
  unfold readSector at ran
  dsimp only at ran
  rw [cacheHit_untagged _ blank small] at ran
  simp only [Bool.false_eq_true, if_false] at ran
  cases called : callDriver .read { p with buf := st.addr b } (st.addr b) lsn b ans s with
  | none =>
    rw [called] at ran
    cases ran
  | some mid =>
    rw [called] at ran
    dsimp only at ran
    obtain ⟨failed, same⟩ | ⟨dev, good⟩ := callDriver_cases called
    · rw [if_pos failed] at ran
      cases ran
      exact Or.inl ⟨failed, same⟩
    · refine Or.inr ⟨dev, mid, good, ?_⟩
      split at ran
      · cases ran
        rfl
      · rw [good.a0, tagRead_driver] at ran
        cases ran
        rfl

/-! ### Every read is the disk's -/

/-- No tag is set where the driver's base is compared with the buffers. -/
theorem tagWrite_blank (dev : Device st) {s : Store} (lsn : Nat) (blank : s.Untagged) :
    (tagWriteLSN0 st (tagWriteFD st (tagWriteSector st s dev.driv lsn) dev.driv lsn) dev.driv lsn).Untagged := by
  obtain ⟨noSector, noFD, noLSN0⟩ := blank
  unfold tagWriteLSN0 tagWriteFD tagWriteSector
  simp only [if_neg (dev.driv_apart .sector), if_neg (dev.driv_apart .fd), if_neg (dev.driv_apart .lsn0)]
  split <;> split <;> split <;> simp_all [Store.Untagged]

theorem Store.step_untagged (s : Store) (event : Event st) (s' : Store) (blank : s.Untagged)
    (stepped : s.step event = some s') : s'.Untagged := by
  cases event with
  | read p lsn b ans =>
    obtain ⟨r, ran, rfl⟩ := Option.map_eq_some_iff.mp stepped
    unfold readSector at ran
    dsimp only at ran
    split at ran
    · cases ran
      exact blank
    · cases called : callDriver .read { p with buf := st.addr b } (st.addr b) lsn b ans s with
      | none =>
        rw [called] at ran
        cases ran
      | some mid =>
        rw [called] at ran
        dsimp only at ran
        obtain ⟨failed, same⟩ | ⟨dev, good⟩ := callDriver_cases called
        · rw [if_pos failed] at ran
          cases ran
          rwa [same]
        · rw [good.a0, tagRead_driver, ite_self] at ran
          cases ran
          exact good.untagged blank
  | write p lsn b ans =>
    obtain ⟨r, ran, rfl⟩ := Option.map_eq_some_iff.mp stepped
    unfold writeSector at ran
    dsimp only at ran
    cases called : callDriver .write { p with buf := st.addr b } (st.addr b) lsn b ans s with
    | none =>
      rw [called] at ran
      cases ran
    | some mid =>
      rw [called] at ran
      dsimp only at ran
      obtain ⟨failed, same⟩ | ⟨dev, good⟩ := callDriver_cases called
      · rw [if_pos failed] at ran
        cases ran
        rwa [same]
      · split at ran
        · cases ran
          exact good.untagged blank
        · rw [good.a0] at ran
          cases ran
          exact tagWrite_blank dev lsn (good.untagged blank)
  | flush =>
    cases stepped
    exact ⟨rfl, rfl, rfl⟩
  | change b bytes =>
    cases stepped
    exact blank

/-- In no run a tag is ever set. -/
theorem run_untagged {s mid : Store} {events : List (Event st)} (fresh : s.Untagged)
    (ran : run Store.step s events = some mid) : mid.Untagged :=
  run_invariant (fun s event s' blank _ stepped => s.step_untagged event s' blank stepped) fresh
    (runMeets_of_forall (fun _ _ => trivial) s events) ran

/-- Whatever run of reads, writes, flushes and buffer changes went before, on whatever devices and
with whatever driver errors: a read that succeeds leaves in its buffer the sector as it now is on
the device of its path. The driver call brings back the driver's base in `a0`, so no tag is ever
set and no read is answered from a buffer. -/
theorem readSector_current {s mid : Store} {events : List (Event st)} (fresh : s.Untagged)
    (ran : run Store.step s events = some mid) {p : DrvPath st} {lsn : Nat} {b : Buffer} {ans : Answer} {r : Return st}
    (small : lsn < 2 ^ 24) (read : readSector p lsn b ans mid = some r) (success : r.carry = false) :
    ∃ dev, p.dev = some dev ∧ r.store.buf b = r.store.content dev.stat p.drv lsn ∧
      r.store.content dev.stat p.drv lsn = mid.content dev.stat p.drv lsn := by
  have blank : mid.Untagged := run_untagged fresh ran
  obtain ⟨failed, -⟩ | ⟨dev, ret, good, rfl⟩ := readSector_untagged blank small read
  · rw [failed] at success
    cases success
  · refine ⟨dev, good.device, ?_⟩
    have done : ans = .done := good.carry.mp success
    dsimp only
    rw [good.store, done]
    simp [Store.transfer, Store.setBuf, Store.setBusy, Store.content, Answer.filled]

/-- Two drives, the driver at 0x8000, buffers at the start of the module. -/
def sampleStatics : Statics where
  addr
    | .lsn0 => 0x1000
    | .fd => 0x1202
    | .sector => 0x1406
    | .bitmap => 0x2000
  addr_inj := by
    intro b b' same
    cases b <;> cases b' <;> simp_all

def samplePath : DrvPath sampleStatics where
  dev := some { entry := 0x500, driv := 0x8000, stat := 0x9000, driv_apart := by intro b; cases b <;> decide }
  drv := 0
  cpr := 3
  buf := 0
  dtb := 0
  dvt := 0

def sampleStore : Store where
  curLSN := noTag
  curFDLSN := noTag
  lsn0Valid := 0
  buf := fun _ _ => 0
  busy := fun _ => 0
  disk := fun _ _ lsn i => (lsn + i).toUInt8

/-- A read of sector 7, a change of the buffer and the same read again. -/
theorem readSector_current_reread :
    let events : List (Event sampleStatics) := [.read samplePath 7 .sector .done, .change .sector (fun _ => 9)]
    ∃ mid r, run Store.step sampleStore events = some mid ∧ mid.buf .sector 1 = 9 ∧
      readSector samplePath 7 .sector .done mid = some r ∧ r.carry = false ∧
      r.store.buf .sector = r.store.content 0x9000 0 7 := by
  intro events
  have fresh : sampleStore.Untagged := ⟨rfl, rfl, rfl⟩
  obtain ⟨mid, ran⟩ : ∃ mid, run Store.step sampleStore events = some mid := ⟨_, rfl⟩
  obtain ⟨r, read, success⟩ : ∃ r, readSector samplePath 7 .sector .done mid = some r ∧ r.carry = false := by
    cases ran
    exact ⟨_, rfl, rfl⟩
  obtain ⟨dev, here, same, -⟩ := readSector_current fresh ran (by decide) read success
  refine ⟨mid, r, ran, ?_, read, success, ?_⟩
  · cases ran
    rfl
  · cases here
    exact same

/-- The read succeeds whatever the driver would answer: it is not asked. -/
def AnsweredFromBuffer (p : DrvPath st) (lsn : Nat) (b : Buffer) (s : Store) : Prop :=
  ∀ ans, ∃ r, readSector p lsn b ans s = some r ∧ r.carry = false

/-- After any run a read is left to the driver: of a sector that was just read into the same buffer, too. -/
theorem readSector_asks_driver {s mid : Store} {events : List (Event st)} (fresh : s.Untagged)
    (ran : run Store.step s events = some mid) {lsn : Nat} (small : lsn < 2 ^ 24) (p : DrvPath st) (b : Buffer) :
    ¬ AnsweredFromBuffer p lsn b mid := by
  intro answered
  obtain ⟨r, read, success⟩ := answered (.failed 0 (fun _ => 0))
  obtain ⟨failed, -⟩ | ⟨dev, ret, good, rfl⟩ := readSector_untagged (run_untagged fresh ran) small read
  · rw [failed] at success
    cases success
  · cases good.carry.mp success

/-- A run that reads sector 7 leaves the next read of it to the driver. -/
theorem readSector_asks_driver_seven :
    ∃ mid, run Store.step sampleStore [Event.read samplePath 7 .sector .done] = some mid ∧
      ¬ AnsweredFromBuffer samplePath 7 .sector mid := by
  obtain ⟨mid, ran⟩ : ∃ mid, run Store.step sampleStore [Event.read samplePath 7 .sector .done] = some mid := ⟨_, rfl⟩
  exact ⟨mid, ran, readSector_asks_driver ⟨rfl, rfl, rfl⟩ ran (by decide) samplePath .sector⟩

/-- Sector 7 has just been read into the buffer, and the second read fails with the driver. -/
theorem reread_fails : ∃ r r', readSector samplePath 7 .sector .done sampleStore = some r ∧ r.carry = false ∧
    readSector samplePath 7 .sector (.failed 0xF4 (fun _ => 0)) r.store = some r' ∧ r'.carry = true :=
  ⟨_, _, rfl, rfl, rfl, rfl⟩

end Q9OS.Rbf

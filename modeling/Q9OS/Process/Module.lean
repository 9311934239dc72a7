import Mathlib.Tactic
import Q9OS.Process.Tick
import Q9OS.Memory.SysMem

/-!
# Modules and trap handlers

The initialised data of a module (`Q9K_ApplyInitializedData`) and F$TLink
(`q9kernel_traplink.c`).
-/

namespace Q9OS

/-! ### Initialised data -/

def zeroFill (m : Mem) (a n : Nat) : Mem := fun x => if a ≤ x ∧ x < a + n then 0 else m x

def copyBytes (m : Mem) (target source : Nat) : Nat → Mem
  | 0 => m
  | n + 1 =>
    let m := copyBytes m target source n
    m.setU8 (target + n) (m.getU8 (source + n))

/-- Copies the entries of M$IData between `p` and `last`; false on a bad entry. -/
def applyIData (block blockSize last : Nat) : Nat → Mem → Nat → Bool × Mem
  | 0, m, _ => (true, m)
  | fuel + 1, m, p =>
    if last - p < 8 then (true, m)
    else
      let dstOff := m.getU32 p
      let count := m.getU32 (p + 4)
      if count > last - p - 8 ∨ dstOff > blockSize ∨ count > blockSize - dstOff then (false, m)
      else applyIData block blockSize last fuel (copyBytes m (block + dstOff) (p + 8) count) (p + 8 + count)

/-- Relocates the fields of one run of M$IRefs; the place behind it. -/
def applyRun (block blockSize relocBase ms : Nat) : Nat → Mem → Nat → Bool × Mem × Nat
  | 0, m, p => (true, m, p)
  | count + 1, m, p =>
    let fieldOff := ms * 65536 + m.getU16 p
    if fieldOff > blockSize ∨ blockSize - fieldOff < 4 then (false, m, p + 2)
    else
      let m := m.setU32 (block + fieldOff) (m.getU32 (block + fieldOff) + relocBase)
      applyRun block blockSize relocBase ms count m (p + 2)

/-- One of the two tables of M$IRefs. -/
def applyTable (block blockSize relocBase modEnd : Nat) : Nat → Mem → Nat → Bool × Mem × Nat
  | 0, m, p => (false, m, p)
  | fuel + 1, m, p =>
    if modEnd - p < 4 then (false, m, p)
    else
      let ms := m.getU16 p
      let count := m.getU16 (p + 2)
      let p := p + 4
      if ms = 0 ∧ count = 0 then (true, m, p)
      else if count > (modEnd - p) / 2 then (false, m, p)
      else
        match applyRun block blockSize relocBase ms count m p with
        | (true, m, p) => applyTable block blockSize relocBase modEnd fuel m p
        | (false, m, p) => (false, m, p)

def applyIRefs (m : Mem) (hdr block blockSize modSize p : Nat) : Bool × Mem :=
  match applyTable block blockSize hdr (hdr + modSize) modSize m p with
  | (false, m, _) => (false, m)
  | (true, m, p) =>
    match applyTable block blockSize block (hdr + modSize) modSize m p with
    | (ok, m, _) => (ok, m)

/-- False stands for E$BMID; what was written before stays written. -/
def applyInitializedData (m : Mem) (hdr block blockSize : Nat) : Bool × Mem :=
  let modSize := m.getU32 (hdr + Mh.size)
  let iDataOff := m.getU32 (hdr + Mh.iData)
  let iRefsOff := m.getU32 (hdr + Mh.iRefs)
  if iDataOff = 0 ∧ iRefsOff = 0 then (true, m)
  else if iDataOff ≥ modSize ∨ iRefsOff ≥ modSize then (false, m)
  else if iDataOff ≠ 0 ∧ iRefsOff ≠ 0 ∧ iDataOff > iRefsOff then (false, m)
  else
    let copied :=
      if iDataOff ≠ 0 ∧ iRefsOff ≠ 0 then
        applyIData block blockSize (hdr + iRefsOff) modSize m (hdr + iDataOff)
      else (true, m)
    match copied with
    | (false, m) => (false, m)
    | (true, m) => if iRefsOff ≠ 0 then applyIRefs m hdr block blockSize modSize (hdr + iRefsOff) else (true, m)

/-! ### F$TLink -/

/-- What F$TLink hands back. -/
structure TrapLink where
  pastName : Nat
  modPtr : Nat
  execEntry : Nat
  initEntry : Nat
  staticPtr : Nat

def nulEnd (m : Mem) : Nat → Nat → Nat
  | 0, p => p
  | fuel + 1, p => if m.getU8 p = 0 then p else nulEnd m fuel (p + 1)

namespace Kernel

/-- The memory calls find the running process in D_Proc. -/
def ramForProc (k : Kernel) : Mem := k.ram.setU32 SysMem.dProc k.proc

def procSRqMem (k : Kernel) (size : Nat) : Except Nat (Nat × Nat) × Kernel :=
  match SysMem.procSRqMem k.ramForProc size with
  | (granted, ram) => (granted, { k with ram := ram })

def procSRtMem (k : Kernel) (addr size : Nat) : Kernel :=
  { k with ram := SysMem.procSRtMem k.ramForProc addr size }

def modLink (k : Kernel) (desired name : Nat) : Nat × Kernel :=
  match k.mods.linkByName k.ram desired name with
  | (hdr, mods) => (hdr, { k with mods := mods })

def modUnlink (k : Kernel) (hdr : Nat) : Kernel := { k with mods := k.mods.unlinkByHeader hdr }

def setTrapEntry (h : Heap) (desc trapNum modPtr execEntry staticPtr size : Nat) : Heap :=
  let slot := Desc.trapSlot trapNum
  let h := h.set32 desc (slot + Desc.trapModPtr) modPtr
  let h := h.set32 desc (slot + Desc.trapExecEntry) execEntry
  let h := h.set32 desc (slot + Desc.trapStaticPtr) staticPtr
  h.set32 desc (Desc.trapSizeSlot trapNum) size

/-- F$TLink without a name: the handler goes, its static memory goes back. -/
def tlinkRemove (k : Kernel) (trapNum : Nat) : Kernel :=
  let slot := Desc.trapSlot trapNum
  let oldMod := k.desc.get32 k.proc (slot + Desc.trapModPtr)
  let oldStatic := k.desc.get32 k.proc (slot + Desc.trapStaticPtr)
  let oldSize := k.desc.get32 k.proc (Desc.trapSizeSlot trapNum)
  let k := if oldMod ≠ 0 then k.modUnlink oldMod else k
  let k := if oldStatic ≠ 0 ∧ oldSize ≠ 0 then k.procSRtMem oldStatic oldSize else k
  { k with desc := setTrapEntry k.desc k.proc trapNum 0 0 0 0 }

/-- Static memory of a trap handler: nothing, or a zeroed block with the module's initial data. -/
def tlinkStatic (k : Kernel) (hdr size : Nat) : Except Nat (Nat × Nat) × Kernel :=
  if size = 0 then (.ok (0, 0), k)
  else
    match k.procSRqMem size with
    | (.error e, k) => (.error e, k.modUnlink hdr)
    | (.ok (staticPtr, granted), k) =>
      match applyInitializedData (zeroFill k.ram staticPtr granted) hdr staticPtr granted with
      | (true, ram) => (.ok (staticPtr, granted), { k with ram := ram })
      | (false, ram) =>
        (.error eBmid, ({ k with ram := ram }.procSRtMem staticPtr granted).modUnlink hdr)

/-- F$TLink with a name. -/
def tlinkInstall (k : Kernel) (trapNum memOverride namePtr : Nat) : Except Nat TrapLink × Kernel :=
  let pastName := nulEnd k.ram queueLimit namePtr + 1
  if k.desc.get32 k.proc (Desc.trapSlot trapNum + Desc.trapModPtr) ≠ 0 then (.error eModBsy, k)
  else
    match k.modLink 0 namePtr with
    | (hdr, k) =>
      if hdr = 0 then (.error eMnf, k)
      else
        let execEntry := (hdr + k.ram.getU32 (hdr + Mh.exec)) % 4294967296
        let initEntry := (hdr + k.ram.getU32 (hdr + Mh.init)) % 4294967296
        let size := (k.ram.getU32 (hdr + Mh.mem) + memOverride) % 4294967296
        match k.tlinkStatic hdr size with
        | (.error e, k) => (.error e, k)
        | (.ok (staticPtr, granted), k) =>
          let owned := if staticPtr ≠ 0 then granted else 0
          (.ok ⟨pastName, hdr, execEntry, initEntry, staticPtr⟩,
            { k with desc := setTrapEntry k.desc k.proc trapNum hdr execEntry staticPtr owned })

/-- F$TLink by the running process. -/
def procTLink (k : Kernel) (trapNum memOverride namePtr : Nat) : Except Nat TrapLink × Kernel :=
  if trapNum < 1 ∨ trapNum > 15 then (.error eParam, k)
  else if namePtr = 0 then (.ok ⟨0, 0, 0, 0, 0⟩, k.tlinkRemove trapNum)
  else k.tlinkInstall trapNum memOverride namePtr

/-! ### Its parts -/

/-- What F$TLink makes of the answer to its request, with any loader of initial data. -/
def staticAnswer (load : Mem → Nat → Nat → Nat → Bool × Mem) (hdr : Nat) :
    Except Nat (Nat × Nat) × Kernel → Except Nat (Nat × Nat) × Kernel
  | (.error e, k) => (.error e, k.modUnlink hdr)
  | (.ok (staticPtr, granted), k) =>
    match load (zeroFill k.ram staticPtr granted) hdr staticPtr granted with
    | (true, ram) => (.ok (staticPtr, granted), { k with ram := ram })
    | (false, ram) => (.error eBmid, ({ k with ram := ram }.procSRtMem staticPtr granted).modUnlink hdr)

/-- What F$TLink makes of the module it has linked, with any way to its static memory. -/
def installAnswer (static : Kernel → Nat → Nat → Except Nat (Nat × Nat) × Kernel) (trapNum memOverride pastName : Nat) :
    Nat × Kernel → Except Nat TrapLink × Kernel
  | (hdr, k) =>
    if hdr = 0 then (.error eMnf, k)
    else
      let execEntry := (hdr + k.ram.getU32 (hdr + Mh.exec)) % 4294967296
      let initEntry := (hdr + k.ram.getU32 (hdr + Mh.init)) % 4294967296
      let size := (k.ram.getU32 (hdr + Mh.mem) + memOverride) % 4294967296
      match static k hdr size with
      | (.error e, k) => (.error e, k)
      | (.ok (staticPtr, granted), k) =>
        let owned := if staticPtr ≠ 0 then granted else 0
        (.ok ⟨pastName, hdr, execEntry, initEntry, staticPtr⟩,
          { k with desc := setTrapEntry k.desc k.proc trapNum hdr execEntry staticPtr owned })

/-- A part of the state beside memory and module directory. -/
structure Aside {α : Type} (f : Kernel → α) : Prop where
  ram : ∀ k m, f { k with ram := m } = f k
  mods : ∀ k d, f { k with mods := d } = f k

section Parts
variable {α : Type} {f : Kernel → α} {load : Mem → Nat → Nat → Nat → Bool × Mem}
  {static : Kernel → Nat → Nat → Except Nat (Nat × Nat) × Kernel} {k : Kernel} {hdr size n memOverride namePtr : Nat}

theorem tlinkStatic_answer (some : size ≠ 0) :
    k.tlinkStatic hdr size = staticAnswer applyInitializedData hdr (k.procSRqMem size) := if_neg some

theorem tlinkInstall_answer (free : k.desc.get32 k.proc (Desc.trapSlot n + Desc.trapModPtr) = 0) :
    k.tlinkInstall n memOverride namePtr =
      installAnswer tlinkStatic n memOverride (nulEnd k.ram queueLimit namePtr + 1) (k.modLink 0 namePtr) := by
  -- both sides unfolded: the kernel would otherwise run the search to compare them
  unfold tlinkInstall installAnswer
  extract_lets pastName
  exact if_neg (not_not.mpr free)

theorem staticAnswer_keeps (aside : Aside f) (answer : Except Nat (Nat × Nat) × Kernel) :
    f (staticAnswer load hdr answer).2 = f answer.2 := by
  obtain ⟨result, k⟩ := answer
  cases result with
  | error code => exact aside.mods k _
  | ok block =>
    obtain ⟨staticPtr, granted⟩ := block
    unfold staticAnswer
    dsimp only
    cases load (zeroFill k.ram staticPtr granted) hdr staticPtr granted with
    | mk valid ram =>
      cases valid with
      | true => exact aside.ram k ram
      | false => exact (aside.mods _ _).trans ((aside.ram _ _).trans (aside.ram k ram))

theorem tlinkStatic_keeps (aside : Aside f) (k : Kernel) (hdr size : Nat) : f (k.tlinkStatic hdr size).2 = f k := by
  by_cases empty : size = 0
  · have nothing : k.tlinkStatic hdr size = (.ok (0, 0), k) := if_pos empty
    rw [nothing]
  · rw [tlinkStatic_answer empty, staticAnswer_keeps aside]
    unfold procSRqMem
    cases SysMem.procSRqMem k.ramForProc size with
    | mk granted ram => exact aside.ram k ram

/-- The handler is missing, its static memory is refused, or it is installed. -/
theorem installAnswer_cases (static : Kernel → Nat → Nat → Except Nat (Nat × Nat) × Kernel) (n memOverride pastName hdr : Nat)
    (k : Kernel) : installAnswer static n memOverride pastName (hdr, k) = (.error eMnf, k) ∨
      (∃ code k', static k hdr ((k.ram.getU32 (hdr + Mh.mem) + memOverride) % 4294967296) = (.error code, k') ∧
        installAnswer static n memOverride pastName (hdr, k) = (.error code, k')) ∨
      ∃ staticPtr granted k', static k hdr ((k.ram.getU32 (hdr + Mh.mem) + memOverride) % 4294967296) =
          (.ok (staticPtr, granted), k') ∧
        installAnswer static n memOverride pastName (hdr, k) =
          (.ok ⟨pastName, hdr, (hdr + k.ram.getU32 (hdr + Mh.exec)) % 4294967296,
            (hdr + k.ram.getU32 (hdr + Mh.init)) % 4294967296, staticPtr⟩,
            { k' with
              desc := setTrapEntry k'.desc k'.proc n hdr ((hdr + k.ram.getU32 (hdr + Mh.exec)) % 4294967296) staticPtr
                (if staticPtr ≠ 0 then granted else 0) }) := by
  unfold installAnswer
  dsimp only
  by_cases missing : hdr = 0
  · exact .inl (if_pos missing)
  · rw [if_neg missing]
    cases static k hdr ((k.ram.getU32 (hdr + Mh.mem) + memOverride) % 4294967296) with
    | mk result k' =>
      cases result with
      | error code => exact .inr (.inl ⟨code, k', rfl, rfl⟩)
      | ok block => exact .inr (.inr ⟨block.1, block.2, k', rfl, rfl⟩)

end Parts

end Kernel

end Q9OS

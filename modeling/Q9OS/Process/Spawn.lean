import Mathlib.Tactic
import Q9OS.Process.Module

/-!
# Creation of processes

`q9kernel_firstproc.c`: the free list of process slots, F$Fork and the calls of
the debugger. The free list is linked through the word that holds the ID of a
used slot. A new process starts from a frame on its own stack that looks like
one an interrupt has left.
-/

namespace Q9OS

def procStackSize : Nat := 32768

/-- Registers from number `reg` on. -/
def setFrameRegs (m : Mem) (frame reg : Nat) : List Nat → Mem
  | [] => m
  | value :: values => setFrameRegs (setFrameReg m frame reg value) frame (reg + 1) values

/-- A frame that starts at `pc` with the given registers. -/
def startFrame (m : Mem) (frame : Nat) (regs : List Nat) (pc : Nat) : Mem :=
  let m := setFrameRegs m frame 0 regs
  let m := m.setU16 (frame + frameSr) initialSr
  let m := m.setU32 (frame + framePc) pc
  m.setU16 (frame + frameFmt) 0

namespace PathPool

def descSize : Nat := 256
def ref : Nat := 4

def descAddr (t : PathPool) (pathNum : Nat) : Nat := t.base + (pathNum - 3) * descSize

/-- One more user of a path: bit 15 marks a path of the manager. -/
def addRef (t : PathPool) (pathNum : Nat) : PathPool :=
  if 3 ≤ pathNum ∧ pathNum < 0x8000 then
    let d := t.descAddr pathNum
    { t with descs := t.descs.set16 d ref (t.descs.get16 d ref + 1) }
  else if 0x8000 ≤ pathNum then
    let cell := pathNum % 64
    { t with mgrRef := fun i => if i = cell ∧ t.mgrRef cell < 255 then t.mgrRef cell + 1 else t.mgrRef i }
  else t

/-- One user less; the last one puts the descriptor on the free list. -/
def dropRef (t : PathPool) (pathNum : Nat) : PathPool :=
  if pathNum < 3 then t
  else if 0x8000 ≤ pathNum then
    let cell := pathNum % 64
    { t with mgrRef := fun i => if i = cell then t.mgrRef cell - 1 else t.mgrRef i }
  else
    let d := t.descAddr pathNum
    let refs := t.descs.get16 d ref - 1
    let t := { t with descs := t.descs.set16 d ref refs }
    if refs = 0 then { t with descs := t.descs.set32 d 0 t.free, free := d } else t

end PathPool

namespace Kernel

/-! ### The pool -/

def procPoolAlloc (k : Kernel) : Nat × Kernel :=
  if k.poolFree = 0 then (0, k) else (k.poolFree, { k with poolFree := k.desc.get32 k.poolFree Desc.id })

def procPoolAbortAlloc (k : Kernel) (desc : Nat) : Kernel :=
  { k with desc := k.desc.set32 desc Desc.id k.poolFree, poolFree := desc }

/-- Number of a slot of the pool, counted from 1. -/
def slotPid (k : Kernel) (desc : Nat) : Nat := (desc - k.poolBase) / Desc.size + 1

/-! ### First processes -/

/-- State letter and ID of a new process; the ID is looked up by the letter just stored. -/
def nameProc (k : Kernel) (desc state : Nat) : Kernel :=
  let k := { k with desc := k.desc.set8 desc Desc.state state }
  { k with desc := k.desc.set16 desc Desc.id (k.procIdForDesc desc) }

/-- Stack, start frame and entry of a new process. -/
def setImage (h : Heap) (desc modHdr block size frame entryPc : Nat) : Heap :=
  let h := h.set32 desc Desc.modHdr modHdr
  let h := h.set32 desc Desc.allocBase block
  let h := h.set32 desc Desc.allocSize size
  let h := h.set32 desc Desc.savedSp frame
  h.set32 desc Desc.entryPc entryPc

/-- The common part of the two calls that make a process of the kernel. -/
def createProc (k : Kernel) (desc stackBase entryPc priority state a6 : Nat) : Kernel :=
  let frame := stackBase + procStackSize - frameSize
  let k := { k with ram := startFrame k.ram frame (List.replicate 14 0 ++ [a6]) entryPc }
  let k := k.nameProc desc state
  let h := k.desc.set8 desc Desc.priority priority
  let h := h.set32 desc Desc.parent 0
  let h := h.set32 desc Desc.user 0
  { k with desc := setImage h desc 0 stackBase procStackSize frame entryPc }

/-- A slot and a stack, or neither. -/
def allocProc (k : Kernel) : Option (Nat × Nat) × Kernel :=
  match k.procPoolAlloc with
  | (desc, k) =>
    if desc = 0 then (none, k)
    else
      match Arena.allocMem k.ram procStackSize with
      | (stackBase, ram) =>
        if stackBase = 0 then (none, { k with ram := ram }.procPoolAbortAlloc desc)
        else (some (desc, stackBase), { k with ram := ram })

/-- A process of the kernel; 0 when there is no slot or no memory. -/
def procCreate (k : Kernel) (entryPc priority a6 : Nat) : Nat × Kernel :=
  match k.allocProc with
  | (none, k) => (0, k)
  | (some (desc, stackBase), k) =>
    let k := k.createProc desc stackBase entryPc priority stateActive a6
    (desc, { k with desc := schedInsert k.desc desc })

/-- The idle process, which no queue ever holds. -/
def procCreateIdle (k : Kernel) (entryPc a6 : Nat) : Nat × Kernel :=
  match k.allocProc with
  | (none, k) => (0, k)
  | (some (desc, stackBase), k) =>
    (desc, { k.createProc desc stackBase entryPc 0 stateIdle a6 with idleProc := desc })

/-! ### F$Fork -/

structure ForkArgs where
  typeLang : Nat
  addMem : Nat
  paramSize : Nat
  namePtr : Nat
  paramPtr : Nat
  priority : Nat
  numPaths : Nat

/-- Memory of a new process: linked module, cleared block, initial data. -/
structure Image where
  hdr : Nat
  entryPc : Nat
  block : Nat
  size : Nat

/-- Gives back what a fork that fails late holds. -/
def dropImage (mods : ModDir) (ram : Mem) (image : Image) : ModDir × Mem :=
  (mods.unlinkByHeader image.hdr, Arena.freeMem ram image.block image.size)

/-- Clears the memory of a child and puts the initial data of its module there. -/
def fillImage (mods : ModDir) (ram : Mem) (image : Image) : Except Nat Image × ModDir × Mem :=
  let data := applyInitializedData (zeroFill ram image.block image.size) image.hdr image.block image.size
  if data.1 then (.ok image, mods, data.2) else (.error eBmid, dropImage mods data.2 image)

/-- Memory for a child of the linked module. -/
def loadImage (mods : ModDir) (ram : Mem) (args : ForkArgs) (hdr : Nat) : Except Nat Image × ModDir × Mem :=
  let size := (ram.getU32 (hdr + Mh.mem) + ram.getU32 (hdr + Mh.stack) + args.addMem + args.paramSize) % 4294967296
  let entryPc := add32 hdr (ram.getU32 (hdr + Mh.exec))
  let granted := Arena.allocMem ram size
  if granted.1 = 0 then (.error SysMem.eMemful, mods.unlinkByHeader hdr, granted.2)
  else fillImage mods granted.2 ⟨hdr, entryPc, granted.1, size⟩

/-- The part of F$Fork before a slot is taken. -/
def forkImage (mods : ModDir) (ram : Mem) (args : ForkArgs) : Except Nat Image × ModDir × Mem :=
  let linked := mods.linkByName ram args.typeLang args.namePtr
  if linked.1 = 0 then (.error eMnf, linked.2, ram) else loadImage linked.2 ram args linked.1

/-- Module directory and memory after the image of a child is made or given up. -/
def setStore (k : Kernel) (store : ModDir × Mem) : Kernel := { k with mods := store.1, ram := store.2 }

def forkPriority (k : Kernel) (priority : Nat) : Nat :=
  if priority ≠ 0 then priority else if k.proc ≠ 0 then k.desc.get8 k.proc Desc.priority else 1

/-- Parameters and start frame on the stack of the child; the frame address and the memory. -/
def forkStack (k : Kernel) (args : ForkArgs) (image : Image) (desc : Nat) : Nat × Mem :=
  let blockTop := add32 image.block image.size
  let spBoundary := sub32 blockTop args.paramSize
  let ram := copyBytes k.ram spBoundary args.paramPtr args.paramSize
  let frame := sub32 spBoundary frameSize
  let regs := [k.slotPid desc, 0, k.forkPriority args.priority, args.numPaths, 0, args.paramSize, image.size, 0,
    0, blockTop, 0, image.hdr, 0, spBoundary, add32 image.block 0x8000]
  (frame, startFrame ram frame regs image.entryPc)

/-- The path of the parent with number `i`, when it is among those to inherit. -/
def inheritPath (k : Kernel) (desc parent inherit i : Nat) : Kernel :=
  let v := if i < inherit then k.desc.get16 parent (Desc.path + i * 2) else 0
  { k with desc := k.desc.set16 desc (Desc.path + i * 2) v, paths := k.paths.addRef v }

def inheritPaths (k : Kernel) (desc parent inherit : Nat) : List Nat → Kernel
  | [] => k
  | i :: rest => inheritPaths (k.inheritPath desc parent inherit i) desc parent inherit rest

def copyDio (h : Heap) (desc parent : Nat) : List Nat → Heap
  | [] => h
  | i :: rest => copyDio (h.set8 desc (Desc.dio + i) (h.get8 parent (Desc.dio + i))) desc parent rest

def clearPaths (h : Heap) (desc : Nat) : List Nat → Heap
  | [] => h
  | i :: rest => clearPaths (h.set16 desc (Desc.path + i * 2) 0) desc rest

def clearDio (h : Heap) (desc : Nat) : List Nat → Heap
  | [] => h
  | i :: rest => clearDio (h.set8 desc (Desc.dio + i) 0) desc rest

/-- Paths and default directories of `parent` for its child. -/
def shareFiles (k : Kernel) (desc parent numPaths : Nat) : Kernel :=
  let k := k.inheritPaths desc parent (min numPaths Desc.pathCount) (List.range Desc.pathCount)
  { k with desc := copyDio k.desc desc parent (List.range Desc.dioSize) }

def withoutFiles (k : Kernel) (desc : Nat) : Kernel :=
  let h := clearPaths k.desc desc (List.range Desc.pathCount)
  { k with desc := clearDio h desc (List.range Desc.dioSize) }

def forkPaths (k : Kernel) (desc numPaths : Nat) : Kernel :=
  if k.proc ≠ 0 then k.shareFiles desc k.proc numPaths else k.withoutFiles desc

/-- Fills the descriptor of a child. The fields for signals, traps, exceptions, events and
the debugger keep what the slot held. -/
def forkDesc (k : Kernel) (args : ForkArgs) (image : Image) (desc frame : Nat) : Kernel :=
  let parent := k.proc
  let priority := k.forkPriority args.priority
  let k := k.nameProc desc stateActive
  let h := k.desc.set8 desc Desc.priority priority
  let h := h.set32 desc Desc.parent parent
  let h := h.set32 desc Desc.user (if parent ≠ 0 then h.get32 parent Desc.user else 0)
  let k := { k with desc := h }.forkPaths desc args.numPaths
  { k with desc := setImage k.desc desc image.hdr image.block image.size frame image.entryPc }

/-- Makes a process out of a slot and an image. -/
def forkInto (k : Kernel) (args : ForkArgs) (image : Image) (desc : Nat) : Kernel :=
  match k.forkStack args image desc with
  | (frame, ram) =>
    let k := { k with ram := ram }.forkDesc args image desc frame
    { k with desc := schedInsert k.desc desc }

/-- The part of F$Fork behind the image. -/
def forkSlot (k : Kernel) (args : ForkArgs) (image : Image) : Except Nat Nat × Kernel :=
  match k.procPoolAlloc with
  | (desc, k) =>
    if desc = 0 then (.error ePrcFul, k.setStore (dropImage k.mods k.ram image))
    else (.ok (k.slotPid desc), k.forkInto args image desc)

def forkLoaded (k : Kernel) (args : ForkArgs) (loaded : Except Nat Image × ModDir × Mem) : Except Nat Nat × Kernel :=
  match loaded.1 with
  | .error code => (.error code, k.setStore loaded.2)
  | .ok image => (k.setStore loaded.2).forkSlot args image

/-- F$Fork by the running process: the ID of the child. -/
def procFork (k : Kernel) (args : ForkArgs) : Except Nat Nat × Kernel :=
  k.forkLoaded args (forkImage k.mods k.ram args)

/-- The kernel after the first free slot is taken. -/
def popSlot (k : Kernel) : Kernel := { k with poolFree := k.desc.get32 k.poolFree Desc.id }

theorem procPoolAlloc_some (k : Kernel) (free : k.poolFree ≠ 0) : k.procPoolAlloc = (k.poolFree, k.popSlot) :=
  if_neg free

theorem procPoolAlloc_none (k : Kernel) (full : k.poolFree = 0) : k.procPoolAlloc = (0, k) := if_pos full

theorem procFork_image {k : Kernel} {args : ForkArgs} {image : Image}
    (ready : (forkImage k.mods k.ram args).1 = .ok image) (free : k.poolFree ≠ 0) :
    k.procFork args = (.ok (k.slotPid k.poolFree),
      (k.setStore (forkImage k.mods k.ram args).2).popSlot.forkInto args image k.poolFree) := by
  unfold procFork
  generalize forkImage k.mods k.ram args = loaded at *
  have slot := (k.setStore loaded.2).procPoolAlloc_some free
  unfold forkLoaded forkSlot
  rw [ready]
  dsimp only
  rw [slot]
  exact if_neg free

/-- A fork that succeeds has an image and a slot. -/
theorem procFork_ok {k : Kernel} {args : ForkArgs} {pid : Nat} (forked : (k.procFork args).1 = .ok pid) :
    ∃ image, (forkImage k.mods k.ram args).1 = .ok image ∧ k.poolFree ≠ 0 := by
  unfold procFork forkLoaded at forked
  generalize forkImage k.mods k.ram args = loaded at *
  cases ready : loaded.1 with
  | error code =>
    rw [ready] at forked
    cases forked
  | ok image =>
    refine ⟨image, rfl, fun full => ?_⟩
    rw [ready] at forked
    dsimp only at forked
    unfold forkSlot at forked
    rw [(k.setStore loaded.2).procPoolAlloc_none full] at forked
    cases forked

theorem forkImage_ok {mods : ModDir} {ram : Mem} {args : ForkArgs} {hdr size block : Nat}
    (linked : (mods.linkByName ram args.typeLang args.namePtr).1 = hdr) (found : hdr ≠ 0)
    (total : (ram.getU32 (hdr + Mh.mem) + ram.getU32 (hdr + Mh.stack) + args.addMem + args.paramSize) %
      4294967296 = size)
    (granted : (Arena.allocMem ram size).1 = block) (live : block ≠ 0)
    (valid : (applyInitializedData (zeroFill (Arena.allocMem ram size).2 block size) hdr block size).1 = true) :
    ∃ image, (forkImage mods ram args).1 = .ok image := by
  subst linked total granted
  have first : forkImage mods ram args = loadImage (mods.linkByName ram args.typeLang args.namePtr).2 ram args
      (mods.linkByName ram args.typeLang args.namePtr).1 := if_neg found
  exact ⟨_, congrArg Prod.fst (first.trans ((if_neg live).trans (if_pos valid)))⟩

/-! ### Slots without a process -/

/-- F$AllPrc: a cleared slot. -/
def procAllPrc (k : Kernel) : Except Nat Nat × Kernel :=
  match k.procPoolAlloc with
  | (desc, k) =>
    if desc = 0 then (.error ePrcFul, k)
    else
      let cleared : Heap := fun b => if b = desc then zeroFill (k.desc b) 0 Desc.size else k.desc b
      (.ok desc, { k with desc := cleared }.nameProc desc stateWaiting)

/-- F$DelPrc. -/
def procDelPrc (k : Kernel) (pid : Nat) : Except Nat Unit × Kernel :=
  let desc := k.procLookup pid
  if desc = 0 then (.error ePrcId, k)
  else
    let h := k.desc.set32 desc Desc.parent 0
    let h := h.set32 desc Desc.modHdr 0
    let h := h.set8 desc Desc.state 0
    (.ok (), { k with desc := h }.procPoolAbortAlloc desc)

end Kernel

end Q9OS

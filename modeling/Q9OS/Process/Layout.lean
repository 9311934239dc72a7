import Mathlib.Tactic
import Q9OS.Process.Frame
import Q9OS.Process.Stack
import Q9OS.Process.Undo

/-!
# The memory of a child

What F$Fork writes and where: the data of the module at the bottom of the
child's block, the parameters at its top, the start frame right below them.
The size of the block is a sum of four words nobody checks, so the frame may
reach into the data or the parameters out of the block.
-/

namespace Q9OS

/-! ### What a fork writes besides memory -/

namespace PathPool

/-- The same pool but for the users of its paths. -/
structure Recounted (t t' : PathPool) : Prop where
  base : t'.base = t.base
  free : t'.free = t.free
  descs : ∀ b o, o < ref ∨ ref + 2 ≤ o → t'.descs b o = t.descs b o

theorem Recounted.refl (t : PathPool) : Recounted t t := ⟨rfl, rfl, fun _ _ _ => rfl⟩

theorem Recounted.trans {t t' t'' : PathPool} (first : Recounted t t') (second : Recounted t' t'') : Recounted t t'' :=
  ⟨second.base.trans first.base, second.free.trans first.free,
    fun b o outside => (second.descs b o outside).trans (first.descs b o outside)⟩

theorem addRef_recounted (t : PathPool) (pathNum : Nat) : Recounted t (t.addRef pathNum) := by
  unfold addRef
  split
  · exact ⟨rfl, rfl, fun b o outside => Heap.set16_off _ _ _ _ outside⟩
  · split
    · exact ⟨rfl, rfl, fun _ _ _ => rfl⟩
    · exact Recounted.refl t

end PathPool

namespace Heap

/-- Every object but `d` is the same. -/
def Beside (d : Nat) (h h' : Heap) : Prop := ∀ b, b ≠ d → h' b = h b

variable {d : Nat} {h h' h'' : Heap}

theorem Beside.rfl : Beside d h h := fun _ _ => Eq.refl _

theorem Beside.trans (first : Beside d h h') (second : Beside d h' h'') : Beside d h h'' :=
  fun b other => (second b other).trans (first b other)

theorem Beside.set8 (beside : Beside d h h') (o v : Nat) : Beside d h (h'.set8 d o v) :=
  fun b other => (set8_block h' o v other).trans (beside b other)

theorem Beside.set16 (beside : Beside d h h') (o v : Nat) : Beside d h (h'.set16 d o v) :=
  fun b other => (set16_block h' o v other).trans (beside b other)

theorem Beside.set32 (beside : Beside d h h') (o v : Nat) : Beside d h (h'.set32 d o v) :=
  fun b other => (set32_block h' o v other).trans (beside b other)

end Heap

namespace Kernel

open Heap

/-- The kernel but for descriptors and users of paths. -/
structure Fills (d : Nat) (k k' : Kernel) : Prop where
  beside : Beside d k.desc k'.desc
  paths : k.paths.Recounted k'.paths
  rest : { k' with desc := k.desc, paths := k.paths } = k

variable {d : Nat} {k k' k'' : Kernel}

theorem Fills.trans (first : Fills d k k') (second : Fills d k' k'') : Fills d k k'' := by
  refine ⟨first.beside.trans second.beside, first.paths.trans second.paths, ?_⟩
  have onward := congrArg (fun m : Kernel => { m with desc := k.desc, paths := k.paths }) second.rest
  exact onward.trans first.rest

theorem Fills.of_desc {h : Heap} (beside : Beside d k.desc h) : Fills d k { k with desc := h } :=
  ⟨beside, .refl _, rfl⟩

theorem nameProc_fills (k : Kernel) (state : Nat) : Fills d k (k.nameProc d state) :=
  .of_desc ((Beside.rfl.set8 _ _).set16 _ _)

theorem inheritPaths_fills (k : Kernel) (parent inherit : Nat) (slots : List Nat) :
    Fills d k (k.inheritPaths d parent inherit slots) := by
  induction slots generalizing k with
  | nil => exact .of_desc Beside.rfl
  | cons i rest ih =>
    have first : Fills d k (k.inheritPath d parent inherit i) :=
      ⟨Beside.rfl.set16 _ _, PathPool.addRef_recounted _ _, rfl⟩
    exact first.trans (ih _)

theorem copyDio_beside (h : Heap) (parent : Nat) (slots : List Nat) : Beside d h (copyDio h d parent slots) := by
  induction slots generalizing h with
  | nil => exact Beside.rfl
  | cons i rest ih => exact (Beside.rfl.set8 _ _).trans (ih _)

theorem clearPaths_beside (h : Heap) (slots : List Nat) : Beside d h (clearPaths h d slots) := by
  induction slots generalizing h with
  | nil => exact Beside.rfl
  | cons i rest ih => exact (Beside.rfl.set16 _ _).trans (ih _)

theorem clearDio_beside (h : Heap) (slots : List Nat) : Beside d h (clearDio h d slots) := by
  induction slots generalizing h with
  | nil => exact Beside.rfl
  | cons i rest ih => exact (Beside.rfl.set8 _ _).trans (ih _)

theorem forkPaths_fills (k : Kernel) (numPaths : Nat) : Fills d k (k.forkPaths d numPaths) := by
  unfold forkPaths
  split
  · unfold shareFiles
    exact (inheritPaths_fills k _ _ _).trans (.of_desc (copyDio_beside _ _ _))
  · unfold withoutFiles
    exact .of_desc ((clearPaths_beside _ _).trans (clearDio_beside _ _))

theorem setImage_beside (h : Heap) (modHdr block size frame entryPc : Nat) :
    Beside d h (setImage h d modHdr block size frame entryPc) := by
  unfold setImage
  exact ((((Beside.rfl.set32 _ _).set32 _ _).set32 _ _).set32 _ _).set32 _ _

theorem forkDesc_fills (k : Kernel) (args : ForkArgs) (image : Image) (frame : Nat) :
    Fills d k (k.forkDesc args image d frame) := by
  unfold forkDesc
  dsimp only
  refine Fills.trans ?_ (.of_desc (setImage_beside _ _ _ _ _ _))
  refine Fills.trans ?_ (forkPaths_fills _ _)
  exact (nameProc_fills k _).trans (.of_desc (((Beside.rfl.set8 _ _).set32 _ _).set32 _ _))

/-! ### The image -/

variable {args : ForkArgs} {image : Image}

/-- The block an allocation grants, 0 for none. -/
def blockOf (granted : Nat × Mem) : Nat := granted.1

/-- The memory an operation leaves. -/
def memOf {α : Type} (result : α × Mem) : Mem := result.2

def granted (k : Kernel) (args : ForkArgs) : Nat × Mem := Arena.allocMem k.ram (k.forkSize args)

/-- Memory with the initial data of a module in a block. -/
def initialized (m : Mem) (hdr block size : Nat) : Mem := memOf (applyInitializedData m hdr block size)

/-- The memory of a child with the initial data of its module. -/
def imageRam (k : Kernel) (args : ForkArgs) : Mem :=
  initialized (zeroFill (memOf (k.granted args)) (blockOf (k.granted args)) (k.forkSize args)) (k.forkHdr args)
    (blockOf (k.granted args)) (k.forkSize args)

theorem memOf_eq {α : Type} (result : α × Mem) : memOf result = result.2 := rfl

theorem blockOf_eq (granted : Nat × Mem) : blockOf granted = granted.1 := rfl

theorem initialized_outside (m : Mem) (hdr : Nat) {block size x : Nat} (outside : x < block ∨ block + size ≤ x) :
    initialized m hdr block size x = m x := by
  unfold initialized
  rw [memOf_eq]
  exact applyInitializedData_outside m hdr outside

/-- A fork that gets an image has linked its module and taken a block. -/
structure Loaded (k : Kernel) (args : ForkArgs) (image : Image) : Prop where
  found : k.forkEntry args ≠ 0
  hdr : image.hdr = k.forkHdr args
  block : image.block = blockOf (k.granted args)
  live : image.block ≠ 0
  size : image.size = k.forkSize args
  entryPc : image.entryPc = add32 (k.forkHdr args) (k.ram.getU32 (k.forkHdr args + Mh.exec))
  store : (forkImage k.mods k.ram args).2 = (k.mods.counted (k.forkEntry args), k.imageRam args)

theorem fillImage_loaded {mods : ModDir} {ram : Mem} {start : Image} (ready : (fillImage mods ram start).1 = .ok image) :
    image = start ∧ (fillImage mods ram start).2 =
      (mods, initialized (zeroFill ram start.block start.size) start.hdr start.block start.size) := by
  unfold initialized
  cases is : applyInitializedData (zeroFill ram start.block start.size) start.hdr start.block start.size with
  | mk valid m =>
    have filled : fillImage mods ram start =
        if valid then (.ok start, mods, m) else (.error eBmid, dropImage mods m start) := by
      unfold fillImage
      rw [is]
    rw [filled] at ready ⊢
    cases valid with
    | true =>
      cases ready
      exact ⟨rfl, rfl⟩
    | false => cases ready

theorem loadImage_loaded {mods : ModDir} {ram : Mem} {hdr size : Nat} {taken : Nat × Mem}
    (total : (ram.getU32 (hdr + Mh.mem) + ram.getU32 (hdr + Mh.stack) + args.addMem + args.paramSize) % 4294967296 = size)
    (took : Arena.allocMem ram size = taken) (ready : (loadImage mods ram args hdr).1 = .ok image) :
    blockOf taken ≠ 0 ∧ image = ⟨hdr, add32 hdr (ram.getU32 (hdr + Mh.exec)), blockOf taken, size⟩ ∧
      (loadImage mods ram args hdr).2 =
        (mods, initialized (zeroFill (memOf taken) (blockOf taken) size) hdr (blockOf taken) size) := by
  have loads : loadImage mods ram args hdr = if taken.1 = 0 then (.error SysMem.eMemful, mods.unlinkByHeader hdr, taken.2)
      else fillImage mods taken.2 ⟨hdr, add32 hdr (ram.getU32 (hdr + Mh.exec)), taken.1, size⟩ := by
    unfold loadImage
    dsimp only
    rw [total, took]
  rw [loads] at ready ⊢
  rw [memOf_eq, blockOf_eq]
  by_cases granted : taken.1 = 0
  · rw [if_pos granted] at ready
    cases ready
  · rw [if_neg granted] at ready ⊢
    obtain ⟨same, store⟩ := fillImage_loaded ready
    exact ⟨granted, same, store⟩

theorem forkImage_found (found : k.forkEntry args ≠ 0) (live : k.forkHdr args ≠ 0) : forkImage k.mods k.ram args =
    loadImage (k.mods.counted (k.forkEntry args)) k.ram args (k.forkHdr args) := by
  unfold forkImage
  dsimp only
  rw [linkByName_found found]
  exact if_neg live

theorem forkImage_missing (missing : k.forkEntry args = 0 ∨ k.forkHdr args = 0) :
    (forkImage k.mods k.ram args).1 = .error eMnf := by
  have none : (k.mods.linkByName k.ram args.typeLang args.namePtr).1 = 0 := by
    by_cases absent : k.forkEntry args = 0
    · rw [linkByName_missing absent]
    · rw [linkByName_found absent]
      exact missing.resolve_left absent
  unfold forkImage
  dsimp only
  rw [if_pos none]

theorem forkImage_loaded (ready : (forkImage k.mods k.ram args).1 = .ok image) : Loaded k args image := by
  by_cases missing : k.forkEntry args = 0 ∨ k.forkHdr args = 0
  · rw [forkImage_missing missing] at ready
    cases ready
  · push Not at missing
    obtain ⟨found, live⟩ := missing
    have is := forkImage_found found live
    rw [is] at ready
    have total : (k.ram.getU32 (k.forkHdr args + Mh.mem) + k.ram.getU32 (k.forkHdr args + Mh.stack) + args.addMem +
        args.paramSize) % 4294967296 = k.forkSize args := rfl
    have took : Arena.allocMem k.ram (k.forkSize args) = k.granted args := rfl
    obtain ⟨some, rfl, store⟩ := loadImage_loaded total took ready
    exact ⟨found, rfl, rfl, some, rfl, rfl, (congrArg Prod.snd is).trans store⟩

/-! ### The block -/

/-- Lowest address of the parameters, and of the stack above it. -/
def spBoundary (args : ForkArgs) (image : Image) : Nat := sub32 (add32 image.block image.size) args.paramSize

def frameBase (args : ForkArgs) (image : Image) : Nat := sub32 (spBoundary args image) frameSize

/-- Parameters, start frame and data have room in the block. -/
def Roomy (k : Kernel) (args : ForkArgs) : Prop :=
  k.ram.getU32 (k.forkHdr args + Mh.mem) + args.paramSize + frameSize ≤ k.forkSize args

instance (k : Kernel) (args : ForkArgs) : Decidable (k.Roomy args) := inferInstanceAs (Decidable (_ ≤ _))

theorem frameBase_eq {args : ForkArgs} {image : Image} (room : args.paramSize + frameSize ≤ image.size)
    (fits : image.block + image.size ≤ 4294967296) :
    frameBase args image + frameSize + args.paramSize = image.block + image.size := by
  unfold frameBase spBoundary sub32 add32
  unfold frameSize at *
  omega

theorem frameBase_top (args : ForkArgs) (image : Image) : add32 (frameBase args image) frameSize = spBoundary args image := by
  have word : spBoundary args image < 4294967296 := Nat.mod_lt _ (by decide)
  unfold frameBase add32 sub32 frameSize
  omega

theorem spBoundary_eq {args : ForkArgs} {image : Image} (room : args.paramSize + frameSize ≤ image.size)
    (fits : image.block + image.size ≤ 4294967296) (some : args.paramSize ≠ 0) :
    spBoundary args image = frameBase args image + frameSize := by
  unfold frameBase spBoundary sub32 add32
  unfold frameSize at *
  omega

/-- Where the frame and the parameters have room in the block, nothing else is written. -/
theorem framed_outside (m : Mem) (room : args.paramSize + frameSize ≤ image.size)
    (fits : image.block + image.size ≤ 4294967296) {regs : List Nat} (whole : regs.length = 15) {x : Nat}
    (outside : x < image.block ∨ image.block + image.size ≤ x) :
    startFrame (copyBytes m (spBoundary args image) args.paramPtr args.paramSize) (frameBase args image) regs image.entryPc x =
      m x := by
  have frame := frameBase_eq room fits
  have params := spBoundary_eq room fits
  have copied : copyBytes m (spBoundary args image) args.paramPtr args.paramSize x = m x := by
    by_cases none : args.paramSize = 0
    · rw [none]
      rfl
    · rw [params none]
      exact copyBytes_outside _ _ (by omega)
  rw [← copied]
  exact startFrame_outside _ _ whole (by omega)

theorem forkStack_outside (room : args.paramSize + frameSize ≤ image.size)
    (fits : image.block + image.size ≤ 4294967296) (desc : Nat) {x : Nat}
    (outside : x < image.block ∨ image.block + image.size ≤ x) : (k.forkStack args image desc).2 x = k.ram x :=
  framed_outside k.ram room fits rfl outside

/-! ### The fork as a whole -/

theorem setImage_fields (h : Heap) (d modHdr entryPc : Nat) {block size frame : Nat} (low : block < 4294967296)
    (small : size < 4294967296) (inside : frame < 4294967296) :
    (setImage h d modHdr block size frame entryPc).get32 d Desc.allocBase = block ∧
      (setImage h d modHdr block size frame entryPc).get32 d Desc.allocSize = size ∧
      (setImage h d modHdr block size frame entryPc).get32 d Desc.savedSp = frame := by
  unfold setImage
  refine ⟨?_, ?_, ?_⟩
  · rw [get32_set32_off _ _ _ _ (by decide), get32_set32_off _ _ _ _ (by decide), get32_set32_off _ _ _ _ (by decide),
      get32_set32_of_lt _ _ _ low]
  · rw [get32_set32_off _ _ _ _ (by decide), get32_set32_off _ _ _ _ (by decide), get32_set32_of_lt _ _ _ small]
  · rw [get32_set32_off _ _ _ _ (by decide), get32_set32_of_lt _ _ _ inside]

/-- What the descriptor of a child says of its memory. -/
structure Described (h : Heap) (d block size frame : Nat) : Prop where
  block : h.get32 d Desc.allocBase = block
  size : h.get32 d Desc.allocSize = size
  frame : h.get32 d Desc.savedSp = frame

theorem Described.schedInsert {h : Heap} {d block size frame : Nat} (described : Described h d block size frame) :
    Described (schedInsert h d) d block size frame := by
  have agree := schedInsert_agree h d
  have outside : ∀ o, 0x38 ≤ o ∨ o < 0x1A → ¬ QueueOff o := by
    intro o apart
    unfold QueueOff LinkOff
    omega
  refine ⟨(agree.get32 d ?_).trans described.block, (agree.get32 d ?_).trans described.size,
    (agree.get32 d ?_).trans described.frame⟩
  all_goals
    intro x low high
    simp only [Desc.allocBase, Desc.allocSize, Desc.savedSp] at low high
    exact outside x (by omega)

theorem forkInto_described (k : Kernel) (args : ForkArgs) (image : Image) (desc : Nat) (low : image.block < 4294967296)
    (small : image.size < 4294967296) :
    Described (k.forkInto args image desc).desc desc image.block image.size (frameBase args image) := by
  have inside : frameBase args image < 4294967296 := Nat.mod_lt _ (by decide)
  unfold forkInto
  apply Described.schedInsert
  unfold forkDesc
  dsimp only
  generalize Kernel.forkPaths _ desc args.numPaths = child
  obtain ⟨block, size, frame⟩ := setImage_fields child.desc desc image.hdr image.entryPc low small inside
  exact ⟨block, size, frame⟩

/-- The kernel without what a fork may change. -/
def besides (k : Kernel) : Kernel :=
  { k with
    poolFree := 0
    desc := fun _ _ => 0
    ram := fun _ => 0
    mods := ⟨0, 0, fun _ _ => 0⟩
    paths := ⟨0, 0, fun _ _ => 0, fun _ => 0⟩ }

theorem besides_desc (k : Kernel) (h : Heap) : besides { k with desc := h } = k.besides := rfl

theorem besides_linked (k : Kernel) (mods : ModDir) (ram ram' : Mem) :
    besides { (k.setStore (mods, ram)).popSlot with ram := ram' } = k.besides := rfl

theorem Fills.besides (fills : Fills d k k') : k'.besides = k.besides := by
  have rest := congrArg Kernel.besides fills.rest
  exact rest

/-- Everything but memory that a fork into `d` changes: the new descriptor, links of queues,
users of paths, the link of the module, the list of free slots. -/
structure Enters (k : Kernel) (args : ForkArgs) (d : Nat) (k' : Kernel) : Prop where
  links : ∀ b o, b ≠ d → ¬ LinkOff o → k'.desc b o = k.desc b o
  paths : k.paths.Recounted k'.paths
  modules : k'.mods = k.mods.counted (k.forkEntry args)
  slots : k'.poolFree = k.desc.get32 k.poolFree Desc.id
  rest : k'.besides = k.besides

theorem schedInsert_links (h : Heap) {d b o : Nat} (other : b ≠ d) (apart : ¬ LinkOff o) : schedInsert h d b o = h b o := by
  have aged := congrFun (set16_block h Desc.age (h.get8 d Desc.priority) other) o
  exact (listAppend_agree _ readyQ d b o apart).trans aged

theorem forkInto_fills (k : Kernel) (args : ForkArgs) (image : Image) (d : Nat) :
    ∃ child, Fills d { k with ram := (k.forkStack args image d).2 } child ∧
      k.forkInto args image d = { child with desc := schedInsert child.desc d } :=
  ⟨_, forkDesc_fills _ args image (frameBase args image), rfl⟩

/-- A fork that succeeds fills the first free slot from a loaded image. -/
theorem procFork_success {pid : Nat} (forked : (k.procFork args).1 = .ok pid) :
    ∃ image, Loaded k args image ∧ k.poolFree ≠ 0 ∧
      (k.procFork args).2 = ((k.setStore (k.mods.counted (k.forkEntry args), k.imageRam args)).popSlot.forkInto args
        image k.poolFree) := by
  obtain ⟨image, ready, free⟩ := procFork_ok forked
  have loaded := forkImage_loaded ready
  refine ⟨image, loaded, free, ?_⟩
  rw [procFork_image ready free, loaded.store]

theorem Fills.enters {ram ram' : Mem} {child : Kernel}
    (fills : Fills d { (k.setStore (k.mods.counted (k.forkEntry args), ram)).popSlot with ram := ram' } child) :
    Enters k args d { child with desc := schedInsert child.desc d } := by
  have rest := (besides_desc child (schedInsert child.desc d)).trans (fills.besides.trans (besides_linked k _ _ _))
  have mods : child.mods = k.mods.counted (k.forkEntry args) := congrArg Kernel.mods fills.rest
  have slots : child.poolFree = k.desc.get32 k.poolFree Desc.id := congrArg Kernel.poolFree fills.rest
  refine ⟨fun b o other apart => ?_, fills.paths, mods, slots, rest⟩
  exact (schedInsert_links child.desc other apart).trans (congrFun (fills.beside b other) o)

theorem procFork_enters {pid : Nat} (forked : (k.procFork args).1 = .ok pid) :
    Enters k args k.poolFree (k.procFork args).2 := by
  obtain ⟨image, -, -, is⟩ := procFork_success forked
  obtain ⟨child, fills, into⟩ := forkInto_fills
    (k.setStore (k.mods.counted (k.forkEntry args), k.imageRam args)).popSlot args image k.poolFree
  rw [is, into]
  exact fills.enters

/-! ### Memory after a fork -/

section Memory
open Arena

theorem imageRam_outside {x : Nat}
    (outside : x < blockOf (k.granted args) ∨ blockOf (k.granted args) + k.forkSize args ≤ x) :
    k.imageRam args x = memOf (k.granted args) x := by
  unfold imageRam
  rw [initialized_outside _ _ outside, zeroFill_outside _ outside]

variable {region : Region} {free used : List Block}

theorem rounds_up {n : Nat} (fits : n ≤ 4294967280) : n ≤ roundUp16 n := by
  unfold roundUp16 allocGranularity
  omega

/-- The memory of the loaded image belongs to nobody else. -/
theorem imageRam_partition (partition : Partition region.base region.size k.ram free used) (positive : 1 ≤ k.forkSize args)
    (fits : k.forkSize args ≤ 4294967280) (live : blockOf (k.granted args) ≠ 0) :
    ∃ free', Partition region.base region.size (k.imageRam args) free'
      (⟨blockOf (k.granted args), roundUp16 (k.forkSize args)⟩ :: used) := by
  have outcome : (blockOf (k.granted args) = 0 ∧ memOf (k.granted args) = k.ram) ∨ (blockOf (k.granted args) ≠ 0 ∧
      ∃ free', Partition region.base region.size (memOf (k.granted args)) free'
        (⟨blockOf (k.granted args), roundUp16 (k.forkSize args)⟩ :: used)) := by
    rw [blockOf_eq, memOf_eq]
    unfold granted
    exact allocMem_partition partition positive fits
  rcases outcome with ⟨none, -⟩ | ⟨-, free', taken⟩
  · exact absurd none live
  · refine ⟨free', taken.agree (fun x outside => ?_)⟩
    have away := outside _ List.mem_cons_self
    have rounds := rounds_up fits
    unfold Block.Covers at away
    dsimp only at away
    exact imageRam_outside (by omega)

/-! What the descriptor of the child says of its memory. -/

def childBlock (k k' : Kernel) : Nat := k'.desc.get32 k.poolFree Desc.allocBase

def childSize (k k' : Kernel) : Nat := k'.desc.get32 k.poolFree Desc.allocSize

def childFrame (k k' : Kernel) : Nat := k'.desc.get32 k.poolFree Desc.savedSp

/-- Parameters up to the top of the block, the start frame below them, the data below the frame. -/
structure Layout (k : Kernel) (args : ForkArgs) (k' : Kernel) : Prop where
  size : childSize k k' = k.forkSize args
  params : childFrame k k' + frameSize + args.paramSize = childBlock k k' + childSize k k'
  inside : childBlock k k' ≤ childFrame k k'
  apart : childBlock k k' + k.ram.getU32 (k.forkHdr args + Mh.mem) ≤ childFrame k k'
  stack : getFrameReg k'.ram (childFrame k k') 13 = add32 (childFrame k k') frameSize
  top : getFrameReg k'.ram (childFrame k k') 9 = add32 (childBlock k k') (childSize k k')

/-- No byte outside the block of the child changes but for those that `kept` excepts. -/
def OnlyBlock (k k' : Kernel) (kept : Nat → Prop) : Prop :=
  ∀ x, x < childBlock k k' ∨ childBlock k k' + childSize k k' ≤ x → ¬ kept x → k'.ram x = k.ram x

/-- No other block in use and no free block has a byte of the child's. -/
def Exclusive (region : Region) (k k' : Kernel) (used : List Block) : Prop :=
  childSize k k' ≤ roundUp16 (childSize k k') ∧ ∃ free',
    Partition region.base region.size k'.ram free' (⟨childBlock k k', roundUp16 (childSize k k')⟩ :: used)

/-- Everything about the memory of a new child. -/
structure ForkMemory (region : Region) (free used : List Block) (k : Kernel) (args : ForkArgs) (k' : Kernel) : Prop where
  layout : Layout k args k'
  only : OnlyBlock k k' (Touches free)
  exclusive : Exclusive region k k' used
  enters : Enters k args k.poolFree k'

theorem Layout.room {k' : Kernel} (layout : Layout k args k') : k.Roomy args := by
  obtain ⟨size, params, -, apart, -, -⟩ := layout
  unfold Roomy
  omega

theorem granted_low (partition : Partition region.base region.size k.ram free used) :
    blockOf (k.granted args) < 4294967296 := by
  rw [blockOf_eq]
  unfold granted allocMem
  rcases partition.firstFit (roundUp16 (k.forkSize args)) with ⟨missing, -⟩ | ⟨front, b, back, rfl, -, taken⟩
  · rw [missing]
    exact Nat.succ_pos _
  · rw [taken]
    have top := partition.spaced.fits b (by simp)
    have header := partition.spaced.header b (by simp)
    dsimp only
    omega

theorem granted_frame (partition : Partition region.base region.size k.ram free used) {x : Nat}
    (untouched : ¬ Touches free x) : memOf (k.granted args) x = k.ram x := by
  unfold granted
  rw [memOf_eq, partition.allocMem_frame untouched]

/-- The block of a loaded image lies in the region. -/
theorem Loaded.fits (loaded : Loaded k args image) (partition : Partition region.base region.size k.ram free used)
    (positive : 1 ≤ k.forkSize args) (rounds : k.forkSize args ≤ 4294967280) :
    image.block + image.size ≤ 4294967296 := by
  have live := loaded.live
  rw [loaded.block] at live ⊢
  rw [loaded.size]
  obtain ⟨free', owned⟩ := imageRam_partition partition positive rounds live
  have top := owned.spaced.fits _ (List.mem_append_right free' List.mem_cons_self)
  have up := rounds_up rounds
  dsimp only at top
  omega

theorem forkStack_frame (k : Kernel) (args : ForkArgs) (image : Image) (desc : Nat) :
    getFrameReg (k.forkStack args image desc).2 (frameBase args image) 13 = spBoundary args image ∧
      getFrameReg (k.forkStack args image desc).2 (frameBase args image) 9 = add32 image.block image.size := by
  constructor
  · have told : getFrameReg (k.forkStack args image desc).2 (frameBase args image) 13 =
        spBoundary args image % 4294967296 := getFrameReg_startFrame _ _ rfl rfl
    exact told.trans (Nat.mod_eq_of_lt (Nat.mod_lt _ (by decide)))
  · have told : getFrameReg (k.forkStack args image desc).2 (frameBase args image) 9 =
        add32 image.block image.size % 4294967296 := getFrameReg_startFrame _ _ rfl rfl
    exact told.trans (Nat.mod_eq_of_lt (Nat.mod_lt _ (by decide)))

/-- A fork that succeeds: its image, its descriptor and its memory. -/
theorem procFork_memory {pid : Nat} (partition : Partition region.base region.size k.ram free used)
    (forked : (k.procFork args).1 = .ok pid) :
    ∃ image, Loaded k args image ∧ childBlock k (k.procFork args).2 = image.block ∧
      childSize k (k.procFork args).2 = k.forkSize args ∧ childFrame k (k.procFork args).2 = frameBase args image ∧
      ∃ linked : Kernel, linked.ram = k.imageRam args ∧
        (k.procFork args).2.ram = (linked.forkStack args image k.poolFree).2 := by
  obtain ⟨image, loaded, -, is⟩ := procFork_success forked
  have low : image.block < 4294967296 := by
    rw [loaded.block]
    exact granted_low partition
  have small : image.size < 4294967296 := by
    rw [loaded.size]
    exact Nat.mod_lt _ (by decide)
  obtain ⟨block, size, frame⟩ := forkInto_described
    (k.setStore (k.mods.counted (k.forkEntry args), k.imageRam args)).popSlot args image k.poolFree low small
  obtain ⟨child, fills, into⟩ := forkInto_fills
    (k.setStore (k.mods.counted (k.forkEntry args), k.imageRam args)).popSlot args image k.poolFree
  unfold childBlock childSize childFrame
  rw [is, ← loaded.size]
  refine ⟨image, loaded, block, size, frame,
    (k.setStore (k.mods.counted (k.forkEntry args), k.imageRam args)).popSlot, rfl, ?_⟩
  rw [into]
  exact congrArg Kernel.ram fills.rest

/-- Data, frame and parameters have room in the block and the block has the size asked for. -/
theorem fork_memory {pid : Nat} (partition : Partition region.base region.size k.ram free used)
    (forked : (k.procFork args).1 = .ok pid) (roomy : k.Roomy args) (rounds : k.forkSize args ≤ 4294967280) :
    ForkMemory region free used k args (k.procFork args).2 := by
  obtain ⟨image, loaded, block, size, frame, linked, before, ram⟩ := procFork_memory partition forked
  have room : k.ram.getU32 (k.forkHdr args + Mh.mem) + args.paramSize + frameSize ≤ image.size := by
    rw [loaded.size]
    exact roomy
  have positive : 1 ≤ k.forkSize args := by
    rw [← loaded.size]
    unfold frameSize at room
    omega
  have fits := loaded.fits partition positive rounds
  have live := loaded.live
  have params : frameBase args image + frameSize + args.paramSize = image.block + image.size :=
    frameBase_eq (by omega) fits
  have outside : ∀ x, x < image.block ∨ image.block + image.size ≤ x →
      (k.procFork args).2.ram x = k.imageRam args x := by
    intro x apart
    rw [ram, forkStack_outside (by omega) fits k.poolFree apart, before]
  rw [← loaded.size] at size
  refine ⟨?_, fun x apart untouched => ?_, ⟨?_, ?_⟩, procFork_enters forked⟩
  · obtain ⟨stack, top⟩ := forkStack_frame linked args image k.poolFree
    refine ⟨size.trans loaded.size, ?_, ?_, ?_, ?_, ?_⟩
    · rw [frame, block, size]
      exact params
    · rw [frame, block]
      omega
    · rw [frame, block]
      omega
    · rw [frame, ram, stack, frameBase_top]
    · rw [frame, ram, top, block, size]
  · rw [block, size] at apart
    rw [outside x apart, imageRam_outside (by rw [← loaded.block, ← loaded.size]; exact apart)]
    exact granted_frame partition untouched
  · rw [size, loaded.size]
    exact rounds_up rounds
  · rw [loaded.block] at live
    obtain ⟨free', owned⟩ := imageRam_partition partition positive rounds live
    rw [block, size, loaded.block, loaded.size]
    refine ⟨free', owned.agree (fun x apart => outside x ?_)⟩
    have away := apart _ List.mem_cons_self
    have up := rounds_up rounds
    unfold Block.Covers at away
    rw [loaded.block, loaded.size]
    dsimp only at away
    omega

/-- Both conditions are needed. -/
theorem ForkMemory.fits {k' : Kernel} (memory : ForkMemory region free used k args k') :
    k.Roomy args ∧ k.forkSize args ≤ 4294967280 := by
  refine ⟨memory.layout.room, ?_⟩
  have word : k.forkSize args < 4294967296 := Nat.mod_lt _ (by decide)
  have covers := memory.exclusive.1
  rw [memory.layout.size] at covers
  unfold roundUp16 allocGranularity at covers
  omega

/-- One free process slot, 256 bytes of free memory and the module `a`. -/
def seated : Kernel := { crowded 1 with poolBase := 0x8000, poolCount := 1, poolFree := 0x8000 }

/-- A fork of `a`, which has neither data nor stack of its own. -/
def forkWith (addMem : Nat) : ForkArgs := { oneFork with addMem := addMem }

theorem fork_memory_seated : ForkMemory sampleRegion [⟨sampleRegion.base, sampleRegion.size⟩] [] seated (forkWith 0x80)
    (seated.procFork (forkWith 0x80)).2 := by
  have forked : (seated.procFork (forkWith 0x80)).1 = .ok 1 := by decide
  exact fork_memory (arenaInit_partition sampleRegion oneModule) forked (by decide) (by decide)

/-- A fork writes more than the block: the link count of the module and the cells of the arena. With
64 bytes of stack the frame does not fit, and a size next to 2^32 gets a block of no bytes. -/
theorem fork_writes_more :
    ((seated.procFork (forkWith 0x80)).1 = .ok 1 ∧
      (seated.procFork (forkWith 0x80)).2.mods.entries.get16 0x500 ModDir.linkCnt ≠
        seated.mods.entries.get16 0x500 ModDir.linkCnt ∧
      (seated.procFork (forkWith 0x80)).2.ram.getU32 arenaHead ≠ seated.ram.getU32 arenaHead) ∧
    ((seated.procFork (forkWith 0x40)).1 = .ok 1 ∧
      ¬ ForkMemory sampleRegion [⟨sampleRegion.base, sampleRegion.size⟩] [] seated (forkWith 0x40)
        (seated.procFork (forkWith 0x40)).2) ∧
    ((seated.procFork (forkWith 0xFFFFFFF1)).1 = .ok 1 ∧
      ¬ ForkMemory sampleRegion [⟨sampleRegion.base, sampleRegion.size⟩] [] seated (forkWith 0xFFFFFFF1)
        (seated.procFork (forkWith 0xFFFFFFF1)).2) := by
  have small : ¬ seated.Roomy (forkWith 0x40) := by decide
  have huge : ¬ seated.forkSize (forkWith 0xFFFFFFF1) ≤ 4294967280 := by decide
  refine ⟨⟨?_, ?_, ?_⟩, ⟨?_, fun memory => small memory.fits.1⟩, ⟨?_, fun memory => huge memory.fits.2⟩⟩
  all_goals decide

end Memory

end Kernel

end Q9OS

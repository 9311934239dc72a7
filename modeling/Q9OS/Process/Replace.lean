import Q9OS.Process.Chain
import Q9OS.Process.Teardown

/-!
# F$Chain as a whole

Either the caller keeps its program and nothing happened, or it has the new
program and nothing of the old one is left: its block, its link, its handlers
and alarms and its signals are gone, each given back once.
-/

namespace Q9OS.Kernel

open Heap Arena SysMem

variable {k : Kernel} {args : ForkArgs} {region : KernelRegion} {held : List Block} {free : List Block}
  {loans : List Loan}

/-! ### A chain that fails -/

theorem procChain_failed {code : Nat} (failed : (k.procChain args).1 = .error code) :
    (k.proc = 0 ∧ (k.procChain args).2 = k) ∨ (k.proc ≠ 0 ∧ Undone k args (k.procChain args).2) := by
  unfold procChain at failed ⊢
  by_cases nobody : k.proc = 0
  · rw [if_pos nobody]
    exact .inl ⟨nobody, rfl⟩
  · rw [if_neg nobody] at failed ⊢
    refine .inr ⟨nobody, ?_⟩
    rcases @forkImage_undone k args with ⟨missing, made⟩ | ⟨found, ram, memory, ⟨code, made⟩ | ⟨image, mods, m, made, -⟩⟩
    · rw [made]
      exact .inl ⟨missing, rfl⟩
    · rw [made]
      exact .inr ⟨found, ram, rfl, memory⟩
    · rw [made] at failed
      cases failed

/-- Nothing the caller can see has changed: descriptors, modules, free memory and the bytes of every block. -/
structure Refused (used : List Block) (k k' : Kernel) : Prop where
  unchanged : k.Unchanged k'
  blocks : ∀ b ∈ used, ∀ x, b.Covers x → k'.ram x = k.ram x

/-- The bytes of the blocks in use come through a block that is taken and given back. -/
theorem undoMemory_blocks {used : List Block} {ram : Mem} {size : Nat}
    (partition : Partition region.base region.size ram free used) (hdr : Nat)
    (fits : size ≤ 4294967280 ∨ ram.getU32 arenaHead = 0) {b : Block} (member : b ∈ used) {x : Nat} (covered : b.Covers x) :
    undoMemory ram hdr size x = ram x := by
  have above := block_above partition (List.mem_append_right free member)
  have low := covered.1
  have cells : arenaTail + 4 ≤ 0x18000 := by decide
  have untouched : ¬ Touches free x := by
    rintro (⟨-, below⟩ | ⟨c, inFree, here⟩)
    · omega
    · have apart := (List.pairwise_append.mp partition.tiles.apart).2.2 c inFree b member
      unfold Block.Apart at apart
      unfold Block.Covers at here covered
      omega
  rcases Nat.eq_zero_or_pos size with rfl | positive
  · rw [undoMemory_zero partition]
  have same : (allocMem ram size).2 x = ram x := partition.allocMem_frame untouched
  rcases fits with fits | empty
  · have outcome := allocMem_partition partition positive fits
    cases took : allocMem ram size with
    | mk block m =>
      rw [took] at outcome same
      dsimp only at outcome same
      rw [undoMemory_eq took]
      rcases outcome with ⟨none, -⟩ | ⟨some, free', taken⟩
      · rw [if_pos none]
        exact same
      · have apart := (List.pairwise_cons.mp (List.pairwise_append.mp taken.tiles.apart).2.1).1 b member
        have shaped := taken.shaped ⟨block, roundUp16 size⟩ (by simp)
        obtain ⟨-, multiple, some'⟩ := shaped
        have up := rounds_up fits
        unfold Block.Apart at apart
        unfold Block.Covers at covered
        dsimp only at apart multiple some'
        rw [if_neg some, freeMem_frame (by omega) (by omega), applyInitializedData_outside _ _ (by omega),
          zeroFill_outside _ (by omega)]
        exact same
  · rw [undoMemory_eq (allocMem_empty partition empty), if_pos rfl]

/-- A chain that fails changes nothing exactly when the link of the module can be taken back. -/
theorem procChain_refused {code : Nat} (owned : Owned region held k.ram free loans)
    (failed : (k.procChain args).1 = .error code) :
    (Refused (loans.map Loan.block ++ held) k (k.procChain args).2 → k.proc ≠ 0 → k.LinkUndoable args) ∧
      ((k.proc ≠ 0 → k.LinkUndoable args ∧ k.SizeRounds args) →
        Refused (loans.map Loan.block ++ held) k (k.procChain args).2) := by
  rcases procChain_failed failed with ⟨nobody, same⟩ | ⟨live, undone⟩
  · rw [same]
    exact ⟨fun _ live => absurd nobody live, fun _ => ⟨⟨.refl _, fun _ => Iff.rfl, rfl⟩, fun _ _ _ _ => rfl⟩⟩
  · obtain ⟨needs, enough⟩ := undone.unchanged owned.partition
    refine ⟨fun refused _ => needs refused.unchanged, fun meets => ?_⟩
    obtain ⟨undoable, rounds⟩ := meets live
    refine ⟨enough undoable rounds, fun b member x covered => ?_⟩
    rcases undone with ⟨-, same⟩ | ⟨found, ram, is, rfl | rfl⟩
    · rw [same]
    · rw [is]
    · rw [is]
      exact undoMemory_blocks owned.partition _ (rounds found) member covered

/-! ### The new program -/

/-- What the running process has of its program. -/
def currentImage (k : Kernel) : OldImage :=
  ⟨k.desc.get32 k.proc Desc.allocBase, k.desc.get32 k.proc Desc.allocSize, k.desc.get32 k.proc Desc.modHdr⟩

theorem procChain_success {old : OldImage} (done : (k.procChain args).1 = .ok old) :
    old = k.currentImage ∧ ∃ image, Loaded k args image ∧ (k.procChain args).2 = k.chained args image := by
  have success : (k.procChain args).1.isOk := by
    rw [done]
    rfl
  obtain ⟨live, image, ready, is⟩ := procChain_ok success
  refine ⟨?_, image, forkImage_loaded ready, is⟩
  unfold procChain at done
  rw [if_neg live] at done
  generalize forkImage k.mods k.ram args = loaded at done ready
  obtain ⟨result, store⟩ := loaded
  dsimp only at ready
  subst ready
  exact (Except.ok.inj done).symm

/-- The bytes of a new image are all in its block. -/
theorem chained_outside {image : Image} (loaded : Loaded k args image) (room : args.paramSize + frameSize ≤ image.size)
    (fits : image.block + image.size ≤ 4294967296) {x : Nat} (outside : x < image.block ∨ image.block + image.size ≤ x) :
    (k.chained args image).ram x = memOf (k.granted args) x := by
  have framed : (k.chained args image).ram x = (k.setStore (forkImage k.mods k.ram args).2).ram x :=
    framed_outside _ room fits rfl outside
  rw [framed, loaded.store]
  refine imageRam_outside ?_
  rw [← loaded.block, ← loaded.size]
  exact outside

/-- The block of the new program is the caller's, next to what was in use before. -/
theorem chained_owned {image : Image} (owned : Owned region held k.ram free loans) (loaded : Loaded k args image)
    (room : args.paramSize + frameSize ≤ k.forkSize args) (rounds : k.forkSize args ≤ 4294967280) :
    ∃ free', Owned region (⟨image.block, roundUp16 image.size⟩ :: held) (k.chained args image).ram free' loans := by
  have positive : 1 ≤ k.forkSize args := by
    unfold frameSize at room
    omega
  have fits := loaded.fits owned.partition positive rounds
  have up := rounds_up rounds
  have outcome := allocMem_partition owned.partition positive rounds
  have frame := fun x => @Partition.allocMem_frame k.ram free _ region.toRegion (k.forkSize args) x owned.partition
  have live := loaded.live
  have block : image.block = (allocMem k.ram (k.forkSize args)).1 := loaded.block
  rcases outcome with ⟨none, -⟩ | ⟨-, free', taken⟩
  · exact absurd (block.trans none) live
  · rw [← block, ← loaded.size] at taken
    refine ⟨free', (owned.leak taken (loaded.size ▸ frame)).within fun x away => ?_⟩
    have same := chained_outside loaded (loaded.size ▸ room) fits (x := x) (by
      unfold Block.Covers at away
      rw [loaded.size] at away ⊢
      dsimp only at away
      omega)
    rw [same, loaded.size]
    rfl

/-! ### The process stays the same -/

/-- What the new program leaves of the descriptor, and what the old one's end does. -/
def KeptOff (o : Nat) : Prop := ¬ ChainOff o ∧ ¬ TrapOff o

/-- The process is still the one it was. -/
structure SameProcess (k k' : Kernel) : Prop where
  pid : k'.procIdForDesc k.proc = k.procIdForDesc k.proc
  id : k'.desc.get16 k.proc Desc.id = k.desc.get16 k.proc Desc.id
  parent : k'.desc.get32 k.proc Desc.parent = k.desc.get32 k.proc Desc.parent
  user : k'.desc.get32 k.proc Desc.user = k.desc.get32 k.proc Desc.user
  files : ∀ i < Desc.pathCount, k'.desc.get16 k.proc (Desc.path + i * 2) = k.desc.get16 k.proc (Desc.path + i * 2)
  paths : k'.paths = k.paths
  beside : Beside k.proc k.desc k'.desc

/-- No signal waits and no intercept is set. -/
structure Silent (h : Heap) (d : Nat) : Prop where
  signal : h.get16 d Desc.signal = 0
  sigVec : h.get32 d Desc.sigVec = 0
  sigDat : h.get32 d Desc.sigDat = 0

theorem keptOff_low {o : Nat} (low : o < 0x08 ∨ (0x0C ≤ o ∧ o < 0x18) ∨ (0x19 ≤ o ∧ o < 0x26) ∨ (0x3C ≤ o ∧ o < 0x1B0) ∨
    (0x1B8 ≤ o ∧ o < 0x1C8)) : KeptOff o := by
  simp only [KeptOff, ChainOff, TrapOff, Desc.savedSp, chainPriority, Desc.signal, Desc.next, Desc.modHdr,
    Desc.allocBase, Desc.allocSize, Desc.entryPc, Desc.trapTbl, Desc.trapSize]
  omega

theorem procIdForDesc_congr {k' : Kernel} {d : Nat} (base : k'.poolBase = k.poolBase) (count : k'.poolCount = k.poolCount)
    (state : k'.desc.get8 d Desc.state = k.desc.get8 d Desc.state) : k'.procIdForDesc d = k.procIdForDesc d := by
  have allocated : k'.procIsAllocated d = k.procIsAllocated d := by
    unfold procIsAllocated
    rw [state]
  unfold procIdForDesc
  rw [base, count, allocated]

theorem sameProcess {k' : Kernel} (base : k'.poolBase = k.poolBase) (count : k'.poolCount = k.poolCount)
    (paths : k'.paths = k.paths) (agree : Agree KeptOff k.desc k'.desc) (beside : Beside k.proc k.desc k'.desc) :
    SameProcess k k' := by
  refine ⟨procIdForDesc_congr base count (agree.get8 _ (keptOff_low (by decide))), agree.get16 _ ?_, agree.get32 _ ?_,
    agree.get32 _ ?_, fun i few => agree.get16 _ ?_, paths, beside⟩
  all_goals
    intro x low high
    simp only [Desc.id, Desc.parent, Desc.user, Desc.path, Desc.pathCount] at *
    exact keptOff_low (by omega)

theorem chainDesc_beside (h : Heap) (d : Nat) (image : Image) (frame priority : Nat) :
    Beside d h (chainDesc h d image frame priority) := by
  unfold chainDesc
  exact ((((setImage_beside _ _ _ _ _ _).set8 _ _).set16 _ _).set32 _ _).set32 _ _

theorem chainDesc_silent (h : Heap) (d : Nat) (image : Image) (frame priority : Nat) :
    Silent (chainDesc h d image frame priority) d := by
  unfold chainDesc
  dsimp only
  refine ⟨?_, ?_, get32_set32_of_lt _ _ _ (by decide)⟩
  · rw [get16_set32_off _ _ _ _ (by decide), get16_set32_off _ _ _ _ (by decide), get16_set16]
  · rw [get32_set32_off _ _ _ _ (by decide), get32_set32_of_lt _ _ _ (by decide)]

theorem chainDesc_image (h : Heap) (d : Nat) {image : Image} (frame priority : Nat) (block : image.block < 4294967296)
    (size : image.size < 4294967296) (hdr : image.hdr < 4294967296) :
    (chainDesc h d image frame priority).get32 d Desc.allocBase = image.block ∧
      (chainDesc h d image frame priority).get32 d Desc.allocSize = image.size ∧
      (chainDesc h d image frame priority).get32 d Desc.modHdr = image.hdr := by
  unfold chainDesc setImage
  dsimp only
  refine ⟨?_, ?_, ?_⟩
  · rw [get32_set32_off _ _ _ _ (by decide), get32_set32_off _ _ _ _ (by decide), get32_set16_off _ _ _ _ (by decide),
      get32_set8_off _ _ _ _ (by decide), get32_set32_off _ _ _ _ (by decide), get32_set32_off _ _ _ _ (by decide),
      get32_set32_off _ _ _ _ (by decide), get32_set32_of_lt _ _ _ block]
  · rw [get32_set32_off _ _ _ _ (by decide), get32_set32_off _ _ _ _ (by decide), get32_set16_off _ _ _ _ (by decide),
      get32_set8_off _ _ _ _ (by decide), get32_set32_off _ _ _ _ (by decide), get32_set32_off _ _ _ _ (by decide),
      get32_set32_of_lt _ _ _ size]
  · rw [get32_set32_off _ _ _ _ (by decide), get32_set32_off _ _ _ _ (by decide), get32_set16_off _ _ _ _ (by decide),
      get32_set8_off _ _ _ _ (by decide), get32_set32_off _ _ _ _ (by decide), get32_set32_off _ _ _ _ (by decide),
      get32_set32_off _ _ _ _ (by decide), get32_set32_off _ _ _ _ (by decide), get32_set32_of_lt _ _ _ hdr]

/-! ### The old program goes -/

/-- The memory of a program as a block of the arena, if it has any. -/
def OldImage.blocks (old : OldImage) : List Block :=
  if old.block ≠ 0 ∧ old.size ≠ 0 then [⟨old.block, roundUp16 old.size⟩] else []

theorem OldImage.freed_owned {m : Mem} (old : OldImage) (owned : Owned region (old.blocks ++ held) m free loans) :
    ∃ free', Owned region held (old.freed m) free' loans := by
  unfold OldImage.blocks at owned
  unfold OldImage.freed
  by_cases some : old.block ≠ 0 ∧ old.size ≠ 0
  · rw [if_pos some] at owned ⊢
    exact ⟨_, owned.drop rfl⟩
  · rw [if_neg some] at owned ⊢
    exact ⟨free, owned⟩

section Teardown
variable {others : List Block} {lent kept : List Loan} {slots pool : List Nat} {ledger : List Entry}

/-- The books of the kernel are right about the running process: its memory and that of its trap
handlers are in use, every module has one entry that counts its links, and it is in the process table. -/
structure Accounted (region : KernelRegion) (others : List Block) (lent kept : List Loan) (free : List Block)
    (slots pool : List Nat) (ledger : List Entry) (k : Kernel) : Prop where
  owned : Owned region (k.currentImage.blocks ++ others) k.ram free (lent ++ kept)
  handlers : lent.map (fun loan => (loan.addr, loan.size)) = k.trapBlocks (List.range' 1 15)
  keeps : ModDir.Keeps slots k.mods ledger pool
  once : (ledger.map Entry.hdr).Nodup
  named : k.proc ≠ 0 → k.procIdForDesc k.proc ≠ 0

/-- The start frame fits into the block, the block has the size asked for, and the module can be
linked once more. -/
structure ChainFits (ledger : List Entry) (k : Kernel) (args : ForkArgs) : Prop where
  room : args.paramSize + frameSize ≤ k.forkSize args
  rounds : k.forkSize args ≤ 4294967280
  bound : ∀ e ∈ ledger, e.slot = k.forkEntry args → e.count + 1 < 65536

/-- The process goes on with the new program, and what the old one had is given back once: its
block and those of its handlers, one link for itself and one for each handler. -/
structure Replaced (region : KernelRegion) (others : List Block) (kept : List Loan) (slots : List Nat)
    (ledger : List Entry) (k : Kernel) (args : ForkArgs) (k' : Kernel) : Prop where
  image : k'.currentImage = ⟨blockOf (k.granted args), k.forkSize args, k.forkHdr args⟩
  memory : ∃ free, Owned region (k'.currentImage.blocks ++ others) k'.ram free kept
  modules : ModDir.Relinked slots ledger (k.forkEntry args) (k.programHdrs k.currentImage.mod) k'.mods
  handlers : ∀ n, 1 ≤ n → n ≤ 15 → TrapFree k'.desc k.proc n
  alarms : ∀ i < alarmSlots, (k'.alarms.slots i).id ≠ 0 → (k'.alarms.slots i).pid ≠ k.procIdForDesc k.proc
  silent : Silent k'.desc k.proc
  same : SameProcess k k'

theorem without_gone (t : AlarmTable) {pid i : Nat} {range : List Nat} (inside : i ∈ range)
    (live : ((t.without pid range).slots i).id ≠ 0) : ((t.without pid range).slots i).pid ≠ pid := by
  unfold AlarmTable.without at live ⊢
  dsimp only at live ⊢
  split
  · next mine =>
    rw [if_pos mine] at live
    exact absurd rfl live
  · next other =>
    rw [if_neg other] at live
    exact fun same => other ⟨inside, live, same⟩

theorem Silent.agree {h h' : Heap} {d : Nat} (silent : Silent h d) (agree : Agree (fun o => ¬ TrapOff o) h h') :
    Silent h' d := by
  refine ⟨(agree.get16 d ?_).trans silent.signal, (agree.get32 d ?_).trans silent.sigVec,
    (agree.get32 d ?_).trans silent.sigDat⟩
  all_goals
    intro x low high
    simp only [TrapOff, Desc.trapTbl, Desc.trapSize, Desc.signal, Desc.sigVec, Desc.sigDat] at *
    omega

theorem currentImage_congr {k' : Kernel} (proc : k'.proc = k.proc) (agree : Agree (fun o => ¬ TrapOff o) k.desc k'.desc) :
    k'.currentImage = k.currentImage := by
  have word : ∀ o, o + 4 ≤ Desc.trapTbl → k'.desc.get32 k.proc o = k.desc.get32 k.proc o := by
    intro o below
    refine agree.get32 _ (fun x low high => ?_)
    simp only [TrapOff, Desc.trapTbl, Desc.trapSize] at *
    omega
  unfold currentImage
  rw [proc, word _ (by decide), word _ (by decide), word _ (by decide)]

/-- A chain leaves the trap table alone. -/
theorem chained_handlers {image : Image} : (∀ n, 1 ≤ n → n ≤ 15 → (k.chained args image).trapMod n = k.trapMod n ∧
    (k.chained args image).trapStatic n = k.trapStatic n) := by
  intro n low high
  have agree := @chained_agree k args image
  have word : ∀ o, Desc.trapTbl ≤ o → (k.chained args image).desc.get32 k.proc o = k.desc.get32 k.proc o := by
    intro o above
    refine agree.get32 _ (fun x start stop => ?_)
    simp only [ChainOff, Desc.savedSp, chainPriority, Desc.signal, Desc.next, Desc.modHdr, Desc.allocBase, Desc.allocSize,
      Desc.entryPc, Desc.trapTbl] at *
    omega
  have proc : (k.chained args image).proc = k.proc := rfl
  unfold trapMod trapStatic
  rw [proc, word _ (by unfold Desc.trapSlot; omega), word _ (by unfold Desc.trapSlot; omega),
    word _ (by unfold Desc.trapSizeSlot Desc.trapSize Desc.trapTbl; omega)]
  exact ⟨rfl, rfl⟩

theorem chained_programHdrs {image : Image} (mod : Nat) :
    (k.chained args image).programHdrs mod = k.programHdrs mod := by
  have same : (List.range' 1 15).map (k.chained args image).trapMod = (List.range' 1 15).map k.trapMod := by
    refine List.map_congr_left (fun n member => (chained_handlers n ?_ ?_).1)
    · exact (List.mem_range'_1.mp member).1
    · exact Nat.le_of_lt_succ (List.mem_range'_1.mp member).2
  unfold programHdrs trapHdrs
  rw [same]

theorem chained_trapBlocks {image : Image} :
    (k.chained args image).trapBlocks (List.range' 1 15) = k.trapBlocks (List.range' 1 15) := by
  have same : (List.range' 1 15).map (k.chained args image).trapStatic = (List.range' 1 15).map k.trapStatic := by
    refine List.map_congr_left (fun n member => (chained_handlers n ?_ ?_).2)
    · exact (List.mem_range'_1.mp member).1
    · exact Nat.le_of_lt_succ (List.mem_range'_1.mp member).2
  unfold trapBlocks
  rw [same]

/-- What the caller holds once the old program is gone, field by field. -/
theorem chainRelease_chained {image : Image} (loaded : Loaded k args image) (named : k.procIdForDesc k.proc ≠ 0) :
    (k.chained args image).chainRelease k.currentImage =
      { k.chained args image with
        alarms := k.alarms.without (k.procIdForDesc k.proc) (List.range alarmSlots)
        mods := (k.programHdrs k.currentImage.mod).foldl ModDir.unlinkByHeader (k.mods.counted (k.forkEntry args))
        ram := k.currentImage.freed (returned k.proc (k.chained args image).ram (k.trapBlocks (List.range' 1 15)))
        desc := clearTraps (k.chained args image).desc k.proc (List.range' 1 15) } := by
  have proc : (k.chained args image).proc = k.proc := rfl
  have alarms : (k.chained args image).alarms = k.alarms := rfl
  have mods : (k.chained args image).mods = k.mods.counted (k.forkEntry args) := congrArg Prod.fst loaded.store
  have pid : (k.chained args image).procIdForDesc k.proc = k.procIdForDesc k.proc :=
    procIdForDesc_congr rfl rfl (chained_schedule image).2.1
  rw [chainRelease_eq (by rw [proc, pid]; exact named), proc, pid, alarms, mods, chained_programHdrs, chained_trapBlocks]
  rfl

theorem chained_image {image : Image} (partition : Partition region.base region.size k.ram free held)
    (loaded : Loaded k args image) :
    (k.chained args image).currentImage = ⟨blockOf (k.granted args), k.forkSize args, k.forkHdr args⟩ := by
  have block : image.block < 4294967296 := by
    rw [loaded.block]
    exact granted_low partition
  have size : image.size < 4294967296 := by
    rw [loaded.size]
    exact Nat.mod_lt _ (by decide)
  have hdr : image.hdr < 4294967296 := by
    rw [loaded.hdr]
    exact get32_lt _ _ _
  obtain ⟨blockIs, sizeIs, hdrIs⟩ := chainDesc_image k.desc k.proc
    (sub32 (sub32 (add32 image.block image.size) args.paramSize) frameSize) (k.chainTakes args) block size hdr
  have desc : (k.chained args image).desc = chainDesc k.desc k.proc image
      (sub32 (sub32 (add32 image.block image.size) args.paramSize) frameSize) (k.chainTakes args) := rfl
  have proc : (k.chained args image).proc = k.proc := rfl
  unfold currentImage
  rw [proc, desc, blockIs, sizeIs, hdrIs, loaded.block, loaded.size, loaded.hdr]

theorem chained_memory {image : Image} (accounted : Accounted region others lent kept free slots pool ledger k)
    (loaded : Loaded k args image) (fits : ChainFits ledger k args) :
    ∃ free', Owned region ((k.chained args image).currentImage.blocks ++ others)
      (k.currentImage.freed (returned k.proc (k.chained args image).ram (k.trapBlocks (List.range' 1 15)))) free' kept := by
  obtain ⟨owned, handlers, -, -, -⟩ := accounted
  have positive : k.forkSize args ≠ 0 := by
    have room := fits.room
    unfold frameSize at room
    omega
  have live := loaded.live
  rw [loaded.block] at live
  obtain ⟨free₁, grown⟩ := chained_owned owned loaded fits.room fits.rounds
  obtain ⟨free₂, unlent⟩ := grown.returned k.proc
  rw [handlers, loaded.block, loaded.size] at unlent
  obtain ⟨free₃, left⟩ := k.currentImage.freed_owned (unlent.reorder List.perm_middle.symm)
  rw [chained_image owned.partition loaded]
  unfold OldImage.blocks
  dsimp only
  rw [if_pos ⟨live, positive⟩]
  exact ⟨free₃, left⟩

theorem chained_replaced {image : Image} (isPool : ModDir.IsPool slots)
    (accounted : Accounted region others lent kept free slots pool ledger k) (live : k.proc ≠ 0)
    (loaded : Loaded k args image) (fits : ChainFits ledger k args) :
    Replaced region others kept slots ledger k args ((k.chained args image).chainRelease k.currentImage) := by
  have cleared := @clearTraps_agree (List.range' 1 15) (by decide) (k.chained args image).desc k.proc
  have freed := fun n first last => @clearTraps_free (List.range' 1 15) (by decide) (k.chained args image).desc k.proc n
    first last
  have memory := chained_memory accounted loaded fits
  have image' := chained_image accounted.owned.partition loaded
  have silent := chainDesc_silent k.desc k.proc image
    (sub32 (sub32 (add32 image.block image.size) args.paramSize) frameSize) (k.chainTakes args)
  rw [chainRelease_chained loaded (accounted.named live)]
  generalize k.currentImage.freed _ = ram at memory ⊢
  have now : ∀ (alarms : AlarmTable) (mods : ModDir), currentImage { k.chained args image with
      alarms := alarms, mods := mods, ram := ram, desc := clearTraps (k.chained args image).desc k.proc (List.range' 1 15) } =
      (k.chained args image).currentImage := fun _ _ => currentImage_congr rfl cleared
  refine ⟨(now _ _).trans image', ?_, ?_, fun n first last => ?_, fun i inside => ?_, ?_, ?_⟩
  · rw [now]
    exact memory
  · have relinked := accounted.keeps.relinked isPool accounted.once k.ram args.typeLang args.namePtr fits.bound loaded.found
      (k.programHdrs k.currentImage.mod)
    have linked := congrArg Prod.snd (linkByName_found loaded.found)
    rw [linked] at relinked
    exact relinked
  · exact freed n first last (.inl (List.mem_range'_1.mpr ⟨first, by omega⟩))
  · exact without_gone k.alarms (List.mem_range.mpr inside)
  · exact Silent.agree silent cleared
  · have agree : Agree KeptOff k.desc (k.chained args image).desc := (chained_agree image).weaken (fun _ => And.left)
    have beside : Beside k.proc k.desc (k.chained args image).desc := chainDesc_beside _ _ _ _ _
    exact sameProcess rfl rfl rfl (agree.trans (cleared.weaken (fun _ => And.right)))
      (beside.trans (clearTraps_beside _ _ _))

theorem programHdrs_few (k : Kernel) (mod : Nat) : (k.programHdrs mod).length < 65536 := by
  have handlers : (k.trapHdrs (List.range' 1 15)).length ≤ 15 := by
    refine (List.length_filter_le _ _).trans ?_
    rw [List.length_map, List.length_range']
  have own : ([mod].filter (· ≠ 0)).length ≤ 1 := List.length_filter_le _ _
  unfold programHdrs
  rw [List.length_append]
  omega

/-- Neither a block without bytes nor a link count that starts over can be accounted for. -/
theorem chained_needs {image : Image} (isPool : ModDir.IsPool slots)
    (accounted : Accounted region others lent kept free slots pool ledger k) (live : k.proc ≠ 0)
    (loaded : Loaded k args image)
    (replaced : Replaced region others kept slots ledger k args ((k.chained args image).chainRelease k.currentImage)) :
    k.forkSize args ≤ 4294967280 ∧ ∀ e ∈ ledger, e.slot = k.forkEntry args → e.count + 1 < 65536 := by
  obtain ⟨image', ⟨free', owned⟩, modules, -, -, -, -⟩ := replaced
  constructor
  · by_contra huge
    have block := loaded.live
    rw [loaded.block] at block
    have word : k.forkSize args < 4294967296 := Nat.mod_lt _ (by decide)
    have none : roundUp16 (k.forkSize args) = 0 := by
      unfold roundUp16 allocGranularity
      omega
    rw [image'] at owned
    unfold OldImage.blocks at owned
    dsimp only at owned
    rw [if_pos ⟨block, by omega⟩, none] at owned
    have shaped := owned.partition.shaped ⟨blockOf (k.granted args), 0⟩ (by simp)
    exact absurd shaped.2.2 (Nat.lt_irrefl 0)
  · intro e member here
    rw [chainRelease_chained loaded (accounted.named live)] at modules
    exact ModDir.Relinked.bound isPool accounted.keeps accounted.once (programHdrs_few k _) modules member here

/-- A chain that fails changes nothing exactly when the link of the new module can be taken back. One that
succeeds and has room for the start frame replaces the program, gives back what the old one held and
keeps the books right exactly when the block has the size asked for and the link count does not start over. -/
theorem chain_all_or_nothing (isPool : ModDir.IsPool slots)
    (accounted : Accounted region others lent kept free slots pool ledger k) :
    (∀ code, (k.procChain args).1 = .error code →
      (Refused ((lent ++ kept).map Loan.block ++ (k.currentImage.blocks ++ others)) k (k.procChain args).2 →
        k.proc ≠ 0 → k.LinkUndoable args) ∧
      ((k.proc ≠ 0 → k.LinkUndoable args ∧ k.SizeRounds args) →
        Refused ((lent ++ kept).map Loan.block ++ (k.currentImage.blocks ++ others)) k (k.procChain args).2)) ∧
    ∀ old, (k.procChain args).1 = .ok old →
      (Replaced region others kept slots ledger k args ((k.procChain args).2.chainRelease old) →
        k.forkSize args ≤ 4294967280 ∧ ∀ e ∈ ledger, e.slot = k.forkEntry args → e.count + 1 < 65536) ∧
      (ChainFits ledger k args →
        Replaced region others kept slots ledger k args ((k.procChain args).2.chainRelease old)) := by
  refine ⟨fun code failed => procChain_refused accounted.owned failed, fun old done => ?_⟩
  obtain ⟨rfl, image, loaded, is⟩ := procChain_success done
  have live : k.proc ≠ 0 := (procChain_ok (by rw [done]; rfl)).1
  rw [is]
  exact ⟨chained_needs isPool accounted live loaded, chained_replaced isPool accounted live loaded⟩

end Teardown

/-! ### A process with 64 bytes -/

/-- Memory after boot, 64 bytes of it in use. -/
def smallRam : Mem := (allocMem (boot sampleRegion oneModule).mem 0x40).2

/-- A process in those 64 bytes that runs the module at `hdr`, and the module `a` with `links` links. -/
def small (links : UInt8) (hdr : Nat) : Kernel :=
  let desc : Heap := fun _ _ => 0
  let desc := (desc.set8 0x8000 Desc.state stateActive).set32 0x8000 Desc.allocBase 0x20000
  { crowded links with
    proc := 0x8000
    poolBase := 0x8000
    poolCount := 1
    ram := smallRam
    desc := (desc.set32 0x8000 Desc.allocSize 0x40).set32 0x8000 Desc.modHdr hdr }

theorem smallRam_owned : ∃ free, Owned sampleRegion [⟨0x20000, 0x40⟩] smallRam free [] := by
  have start := boot_owned sampleRegion oneModule
  have outcome := @allocMem_partition sampleRegion.toRegion _ _ _ 0x40 start.partition (by decide) (by decide)
  have frame := fun x => @Partition.allocMem_frame (boot sampleRegion oneModule).mem _ _ sampleRegion.toRegion 0x40 x
    start.partition
  have here : (allocMem (boot sampleRegion oneModule).mem 0x40).1 = 0x20000 := by decide
  rcases outcome with ⟨none, -⟩ | ⟨-, free, taken⟩
  · rw [here] at none
    cases none
  · rw [here] at taken
    exact ⟨free, start.leak taken frame⟩

theorem crowded_keeps {links : UInt8} (few : links = 0 ∨ links = 1) :
    ModDir.Keeps [0x500] (crowded links).mods [⟨0x500, 0x2000, false, links.toNat, 0⟩] [] := by
  have next : (crowded links).mods.entries.get32 0x500 ModDir.next = 0 := by
    rcases few with rfl | rfl
    all_goals decide
  refine ⟨⟨rfl, Nat.succ_ne_zero _, next⟩, rfl, List.Perm.refl _, fun e member => ?_⟩
  obtain rfl := List.mem_singleton.mp member
  rcases few with rfl | rfl
  all_goals exact ⟨by decide, by decide, by decide, Nat.zero_le _⟩

theorem small_accounted {links : UInt8} {hdr : Nat} {free : List Block} (few : links = 0 ∨ links = 1)
    (owned : Owned sampleRegion [⟨0x20000, 0x40⟩] smallRam free [])
    (image : (small links hdr).currentImage.blocks = [⟨0x20000, 0x40⟩])
    (handlers : (small links hdr).trapBlocks (List.range' 1 15) = [])
    (named : (small links hdr).procIdForDesc 0x8000 ≠ 0) :
    Accounted sampleRegion [] [] [] free [0x500] [] [⟨0x500, 0x2000, false, links.toNat, 0⟩] (small links hdr) := by
  have ram : (small links hdr).ram = smallRam := by
    simp only [small]
  have mods : (small links hdr).mods = (crowded links).mods := rfl
  refine ⟨?_, handlers.symm, mods ▸ crowded_keeps few, by simp, fun _ => named⟩
  rw [image, ram, List.append_nil, List.append_nil]
  exact owned

theorem refusal (refused : (k.procChain args).1.isOk = false) : ∃ code, (k.procChain args).1 = .error code := by
  cases is : (k.procChain args).1 with
  | error code => exact ⟨code, rfl⟩
  | ok old =>
    rw [is] at refused
    cases refused

theorem grant (success : (k.procChain args).1.isOk = true) : ∃ old, (k.procChain args).1 = .ok old := by
  cases is : (k.procChain args).1 with
  | ok old => exact ⟨old, rfl⟩
  | error code =>
    rw [is] at success
    cases success

theorem oneSlot : ModDir.IsPool [0x500] := ⟨List.nodup_singleton _, by simp, by decide⟩

/-- The process asks for more memory than there is, and then chains to the module it runs, which
keeps its one link. -/
theorem chain_all_or_nothing_small :
    Refused [⟨0x20000, 0x40⟩] (small 1 0x2000) ((small 1 0x2000).procChain (forkWith 0x10000)).2 ∧
    ∃ old, ((small 1 0x2000).procChain (forkWith 0x80)).1 = .ok old ∧
      Replaced sampleRegion [] [] [0x500] [⟨0x500, 0x2000, false, 1, 0⟩] (small 1 0x2000) (forkWith 0x80)
        (((small 1 0x2000).procChain (forkWith 0x80)).2.chainRelease old) := by
  obtain ⟨free, owned⟩ := smallRam_owned
  have image : (small 1 0x2000).currentImage.blocks = [⟨0x20000, 0x40⟩] := by decide
  have accounted := small_accounted (.inr rfl) owned image (by decide) (by decide)
  have entry : (small 1 0x2000).forkEntry (forkWith 0x10000) = 0x500 := by decide +kernel
  constructor
  · obtain ⟨code, failed⟩ := @refusal (small 1 0x2000) (forkWith 0x10000) (by decide +kernel)
    have refused := ((@chain_all_or_nothing _ (forkWith 0x10000) _ _ _ _ _ _ _ _ oneSlot accounted).1 code failed).2
    rw [image] at refused
    refine refused fun _ => ⟨fun _ => ?_, fun _ => .inl (by decide +kernel)⟩
    rw [entry]
    have last : (small 1 0x2000).mods.entries.get32 0x500 ModDir.next = 0 := by decide
    exact ⟨by decide, ⟨[], [], ⟨rfl, Nat.succ_ne_zero _, last⟩, nofun⟩, by decide, .inl (by decide)⟩
  · obtain ⟨old, done⟩ := @grant (small 1 0x2000) (forkWith 0x80) (by decide +kernel)
    refine ⟨old, done, ((@chain_all_or_nothing _ (forkWith 0x80) _ _ _ _ _ _ _ _ oneSlot accounted).2 old done).2
      ⟨by decide +kernel, by decide +kernel, fun e member _ => ?_⟩⟩
    obtain rfl := List.mem_singleton.mp member
    decide

/-- A module that was entered and never linked is gone after a chain that found no memory. -/
theorem chain_drops_module :
    ¬ ∀ (k : Kernel) (args : ForkArgs) (region : KernelRegion) (others : List Block) (lent kept : List Loan)
        (free : List Block) (slots pool : List Nat) (ledger : List Entry) (code : Nat),
      ModDir.IsPool slots → Accounted region others lent kept free slots pool ledger k →
        (k.procChain args).1 = .error code →
          Refused ((lent ++ kept).map Loan.block ++ (k.currentImage.blocks ++ others)) k (k.procChain args).2 := by
  intro always
  obtain ⟨free, owned⟩ := smallRam_owned
  have accounted := @small_accounted 0 0 free (.inl rfl) owned (by decide) (by decide) (by decide)
  obtain ⟨code, failed⟩ := @refusal (small 0 0) (forkWith 0x10000) (by decide +kernel)
  have refused := always _ (forkWith 0x10000) _ _ _ _ _ _ _ _ code oneSlot accounted failed
  have listed : (small 0 0).mods.Listed 0x500 := .head (by decide)
  have empty : ((small 0 0).procChain (forkWith 0x10000)).2.mods.head = 0 := by decide +kernel
  have chain : Linked (fun a => ((small 0 0).procChain (forkWith 0x10000)).2.mods.entries.get32 a ModDir.next) 0
      ((small 0 0).procChain (forkWith 0x10000)).2.mods.head [] := empty
  have gone := (ModDir.listed_iff chain).mp ((refused.unchanged.modules.listed 0x500).mpr listed)
  exact absurd gone List.not_mem_nil

end Q9OS.Kernel

import Mathlib.Tactic
import Q9OS.Memory.Return
import Q9OS.Module.Lookup
import Q9OS.Process.Overlap
import Q9OS.Process.Undo

/-!
# F$TLink there and back

What F$TLink acquires for a trap handler, its three ways to fail, and the call
without a name that gives everything back.
-/

namespace Q9OS

/-! ### The entry a name finds -/

namespace ModDir

variable {d : ModDir} {m : Mem} {name : Nat}

/-- With any type and language allowed, entries with one header are one to the search. -/
theorem fits_of_hdr {a b : Nat} (same : d.entries.get32 a hdrPtr = d.entries.get32 b hdrPtr)
    (fits : d.Fits m 0 name b) : d.Fits m 0 name a := by
  unfold Fits slotMatches at fits ⊢
  dsimp only at fits ⊢
  rw [same]
  have any : ∀ present, tyLangFits 0 present = true := fun present => rfl
  rw [any, Bool.true_and] at fits ⊢
  exact fits

/-- The entry found is the first with its header. -/
theorem findSlotByName_first (found : d.findSlotByName m 0 name ≠ 0) :
    ∃ front back, Linked (fun a => d.entries.get32 a next) 0 d.head (front ++ d.findSlotByName m 0 name :: back) ∧
      front.length < queueLimit ∧
      ∀ a ∈ front, d.entries.get32 a hdrPtr ≠ d.entries.get32 (d.findSlotByName m 0 name) hdrPtr := by
  obtain ⟨nodes, chain, short⟩ := findWalk_chain m 0 name 0 0 found
  have looked : Looked d m 0 name true nodes (d.findSlot m 0 name true) := (looked_highest chain).mpr (.inr short)
  rw [findSlot_highest] at looked
  have highest := looked.some found
  rw [if_pos rfl] at highest
  obtain ⟨front, back, rfl, fits, before, -⟩ := highest
  refine ⟨front, back, chain, ?_, ?_⟩
  · rw [queueLimit_eq]
    unfold searchMax at short
    simp only [List.length_append, List.length_cons] at short
    omega
  · intro a member same
    have less := before a member (fits_of_hdr same fits)
    unfold revisionOf at less
    rw [same] at less
    exact Nat.lt_irrefl _ less

/-- A link can be taken back unless its count overflows. -/
theorem undoLink_same_iff (found : d.findSlotByName m 0 name ≠ 0)
    (live : d.entries.get32 (d.findSlotByName m 0 name) hdrPtr ≠ 0)
    (held : d.entries.get16 (d.findSlotByName m 0 name) linkCnt ≠ 0 ∨
      d.entries.get16 (d.findSlotByName m 0 name) flags % 2 = 1) :
    d.Same (d.undoLink (d.findSlotByName m 0 name)) ↔ d.entries.get16 (d.findSlotByName m 0 name) linkCnt < 65535 := by
  obtain ⟨front, back, chain, short, first⟩ := findSlotByName_first found
  constructor
  · intro same
    exact (undoable_of_same chain short same).below
  · intro below
    rw [undoLink_undoable chain short ⟨live, ⟨front, back, chain, first⟩, below, held⟩]
    exact .refl d

end ModDir

namespace Kernel

open Arena SysMem

/-! ### What is to be as before -/

/-- An entry of the trap table with the size of its static memory. -/
def trapWords (h : Heap) (p n : Nat) : Fields.TrapEntry × Nat :=
  (Fields.trapEntry h p n, h.get32 p (Desc.trapSizeSlot n))

/-- Link counts, free bytes, owner table and trap table are as before. -/
structure Kept (k k' : Kernel) : Prop where
  modules : k.mods.Same k'.mods
  memory : ∀ x, FreeByte k'.ram x ↔ FreeByte k.ram x
  owners : ∀ i < memOwnerSlots, slot k'.ram i = slot k.ram i
  traps : ∀ t, 1 ≤ t → t ≤ 15 → trapWords k'.desc k.proc t = trapWords k.desc k.proc t

/-- The entries of the other trap numbers are as before. -/
def OtherTraps (k k' : Kernel) (n : Nat) : Prop :=
  ∀ t, 1 ≤ t → t ≤ 15 → t ≠ n → trapWords k'.desc k.proc t = trapWords k.desc k.proc t

/-- A link that fails leaves everything; one that succeeds is undone by the call without a name. -/
def RoundTrip (k : Kernel) (n memOverride namePtr : Nat) : Prop :=
  match k.procTLink n memOverride namePtr with
  | (.error _, k') => k.Kept k'
  | (.ok _, k') => k.OtherTraps k' n ∧ ∀ memOverride', k.Kept (k'.procTLink n memOverride' 0).2

theorem trapWords_other (h : Heap) (p n modPtr execEntry staticPtr size : Nat) {t : Nat} (first : 1 ≤ n ∧ n ≤ 15)
    (other : 1 ≤ t ∧ t ≤ 15) (apart : t ≠ n) :
    trapWords (setTrapEntry h p n modPtr execEntry staticPtr size) p t = trapWords h p t := by
  have entry : Fields.trapEntry (setTrapEntry h p n modPtr execEntry staticPtr size) p t = Fields.trapEntry h p t := by
    refine Fields.trapEntry_congr (fun o low high => Fields.setTrapEntry_outside _ _ _ _ _ _ _ _ ?_ ?_)
    · unfold Desc.trapSlot at *
      omega
    · unfold Desc.trapSlot Desc.trapSizeSlot Desc.trapTbl Desc.trapSize at *
      omega
  have size : (setTrapEntry h p n modPtr execEntry staticPtr size).get32 p (Desc.trapSizeSlot t) =
      h.get32 p (Desc.trapSizeSlot t) := by
    refine Mem.getU32_congr (fun o low high => Fields.setTrapEntry_outside _ _ _ _ _ _ _ _ ?_ ?_)
    · unfold Desc.trapSlot Desc.trapSizeSlot Desc.trapTbl Desc.trapSize at *
      omega
    · unfold Desc.trapSizeSlot at *
      omega
  unfold trapWords
  rw [entry, size]

theorem trapWords_same (h : Heap) (p : Nat) {n modPtr execEntry staticPtr size : Nat} (inside : 1 ≤ n ∧ n ≤ 15)
    (modFits : modPtr < 4294967296) (execFits : execEntry < 4294967296) (staticFits : staticPtr < 4294967296)
    (sizeFits : size < 4294967296) :
    trapWords (setTrapEntry h p n modPtr execEntry staticPtr size) p n = (⟨modPtr, execEntry, staticPtr⟩, size) := by
  have entry : Fields.trapEntry (setTrapEntry h p n modPtr execEntry staticPtr size) p n =
      ⟨modPtr, execEntry, staticPtr⟩ :=
    @Fields.trapEntry_setTrapEntry h p n ⟨modPtr, execEntry, staticPtr⟩ size ⟨inside, modFits, execFits, staticFits⟩
  unfold trapWords
  rw [entry]
  unfold setTrapEntry
  rw [Heap.get32_set32_of_lt _ _ _ sizeFits]

/-! ### Static memory -/

section Static
variable {k : Kernel} {region : KernelRegion} {held free : List Block} {loans : List Loan} {hdr size : Nat}

section Answer
variable {load : Mem → Nat → Nat → Nat → Bool × Mem} {staticPtr granted : Nat} {ram image : Mem}

theorem staticAnswer_valid (valid : load (zeroFill ram staticPtr granted) hdr staticPtr granted = (true, image)) :
    staticAnswer load hdr (.ok (staticPtr, granted), { k with ram := ram }) =
      (.ok (staticPtr, granted), { k with ram := image }) := by
  unfold staticAnswer
  dsimp only
  rw [valid]

theorem staticAnswer_invalid (invalid : load (zeroFill ram staticPtr granted) hdr staticPtr granted = (false, image)) :
    staticAnswer load hdr (.ok (staticPtr, granted), { k with ram := ram }) =
      (.error eBmid, { k with
        mods := k.mods.unlinkByHeader hdr,
        ram := SysMem.procSRtMem (image.setU32 dProc k.proc) staticPtr granted }) := by
  unfold staticAnswer
  dsimp only
  rw [invalid]
  rfl

end Answer

theorem procSRqMem_answer {answer : Except Nat (Nat × Nat)} {ram : Mem}
    (answered : SysMem.procSRqMem k.ramForProc size = (answer, ram)) :
    k.procSRqMem size = (answer, { k with ram := ram }) := by
  unfold procSRqMem
  rw [answered]

/-- What an empty block takes of the initial data. -/
theorem image_empty (m : Mem) (hdr block : Nat) : (applyInitializedData (zeroFill m block 0) hdr block 0).2 = m := by
  funext x
  rw [applyInitializedData_outside _ _ (by omega), zeroFill_outside _ (by omega)]

/-- Memory after a handler's static memory has gone back. -/
def staticBack (k : Kernel) (ram : Mem) (staticPtr granted : Nat) : Mem :=
  if staticPtr ≠ 0 ∧ granted ≠ 0 then SysMem.procSRtMem (ram.setU32 dProc k.proc) staticPtr granted else ram

/-- Static memory is refused and nothing kept but the link given up, or it can be given back. -/
theorem tlinkStatic_settles (owned : Owned region held k.ram free loans) (hdr : Nat) (fits : size < 4294967296) :
    (∃ code ram, k.tlinkStatic hdr size = (.error code, { k with mods := k.mods.unlinkByHeader hdr, ram := ram }) ∧
        SysMem.Settled region (loans.map Loan.block ++ held) k.ram ram) ∨
      ∃ staticPtr granted ram, k.tlinkStatic hdr size = (.ok (staticPtr, granted), { k with ram := ram }) ∧
        (staticPtr < 4294967296 ∧ granted < 4294967296) ∧ (staticPtr = 0 → granted = 0) ∧
        SysMem.Settled region (loans.map Loan.block ++ held) k.ram (k.staticBack ram staticPtr granted) := by
  have owned' : Owned region held k.ramForProc free loans := owned.switch k.proc
  have start : SysMem.Settled region (loans.map Loan.block ++ held) k.ram k.ramForProc :=
    (SysMem.Settled.refl owned'.partition).proc k.proc
  by_cases none : size = 0
  · refine .inr ⟨0, 0, k.ram, if_pos none, ⟨by decide, by decide⟩, fun _ => rfl, ?_⟩
    exact SysMem.Settled.refl owned.partition
  · rw [tlinkStatic_answer none]
    rcases owned'.request fits with ⟨code, refused⟩ | ⟨addr, some, served⟩ | ⟨addr, granted, m', served, taken⟩
    · rw [procSRqMem_answer refused]
      exact .inl ⟨code, k.ramForProc, rfl, start⟩
    · have small := Fields.sysProcSRqMem_lt served
      have empty := image_empty k.ramForProc hdr addr
      rw [procSRqMem_answer served]
      cases loaded : applyInitializedData (zeroFill k.ramForProc addr 0) hdr addr 0 with
      | mk valid ram =>
        rw [loaded] at empty
        have same : ram = k.ramForProc := empty
        cases valid with
        | true =>
          refine .inr ⟨addr, 0, ram, staticAnswer_valid loaded, ⟨small, by decide⟩, fun _ => rfl, ?_⟩
          unfold staticBack
          rw [if_neg (by simp), same]
          exact start
        | false =>
          have owned'' : Owned region held (k.ramForProc.setU32 dProc k.proc) free loans := owned'.switch k.proc
          have back : SysMem.procSRtMem (k.ramForProc.setU32 dProc k.proc) addr 0 = k.ramForProc.setU32 dProc k.proc :=
            owned''.giveNothing some
          refine .inl ⟨eBmid, _, staticAnswer_invalid loaded, ?_⟩
          rw [same, back]
          exact ((SysMem.Settled.refl owned''.partition).proc k.proc).proc k.proc
    · obtain ⟨above, bound, -, positive⟩ := granted_bounds taken.partition.choose_spec
      have small := Fields.sysProcSRqMem_lt served
      dsimp only at above bound positive
      have outside : ∀ x, x < addr ∨ addr + granted ≤ x →
          (applyInitializedData (zeroFill m' addr granted) hdr addr granted).2 x = m' x :=
        fun x away => (applyInitializedData_outside _ _ away).trans (zeroFill_outside _ away)
      rw [procSRqMem_answer served]
      cases loaded : applyInitializedData (zeroFill m' addr granted) hdr addr granted with
      | mk valid ram =>
        rw [loaded] at outside
        have taken' : Taken region (loans.map Loan.block ++ held) k.ramForProc (ram.setU32 dProc k.proc) ⟨addr, granted⟩ := by
          refine taken.congr (fun x away clear => ?_)
          rw [Mem.setU32_outside _ _ (by omega)]
          unfold Block.Covers at away
          dsimp only at away
          exact outside x (by omega)
        have back := (taken'.giveBack owned').proc k.proc
        cases valid with
        | true =>
          refine .inr ⟨addr, granted, ram, staticAnswer_valid loaded, ⟨small, by omega⟩, fun null => by omega, ?_⟩
          unfold staticBack
          rw [if_pos ⟨by omega, by omega⟩]
          exact back
        | false => exact .inl ⟨eBmid, _, staticAnswer_invalid loaded, back⟩

end Static

/-! ### The call with a name -/

/-- The entry of the module a link names, 0 when there is none. -/
def tlinkEntry (k : Kernel) (namePtr : Nat) : Nat := k.mods.findSlotByName k.ram 0 namePtr

def tlinkHdr (k : Kernel) (namePtr : Nat) : Nat := k.mods.entries.get32 (k.tlinkEntry namePtr) ModDir.hdrPtr

section Named
variable {k : Kernel} {region : KernelRegion} {held free : List Block} {loans : List Loan} {n memOverride namePtr : Nat}

theorem procTLink_named (inside : 1 ≤ n ∧ n ≤ 15) (named : namePtr ≠ 0) :
    k.procTLink n memOverride namePtr = k.tlinkInstall n memOverride namePtr := by
  unfold procTLink
  rw [if_neg (by omega), if_neg named]

theorem procTLink_nameless (inside : 1 ≤ n ∧ n ≤ 15) :
    k.procTLink n memOverride 0 = (.ok ⟨0, 0, 0, 0, 0⟩, k.tlinkRemove n) := by
  unfold procTLink
  rw [if_neg (by omega), if_pos rfl]

/-- No trap entry is installed. -/
def TrapEmpty (k : Kernel) (n : Nat) : Prop := trapWords k.desc k.proc n = (⟨0, 0, 0⟩, 0)

theorem TrapEmpty.modPtr (empty : k.TrapEmpty n) : k.desc.get32 k.proc (Desc.trapSlot n + Desc.trapModPtr) = 0 :=
  congrArg (fun words => words.1.modPtr) empty

theorem tlinkInstall_missing (empty : k.TrapEmpty n) (missing : k.tlinkEntry namePtr = 0) :
    k.tlinkInstall n memOverride namePtr = (.error eMnf, k) := by
  have link : k.modLink 0 namePtr = (0, k) := by
    unfold modLink ModDir.linkByName
    rw [show k.mods.findSlotByName k.ram 0 namePtr = 0 from missing]
    rfl
  unfold tlinkInstall
  extract_lets pastName
  rw [if_neg (not_not.mpr empty.modPtr), link]
  rfl

theorem modLink_found (found : k.tlinkEntry namePtr ≠ 0) :
    k.modLink 0 namePtr = (k.tlinkHdr namePtr, { k with mods := k.mods.counted (k.tlinkEntry namePtr) }) := by
  have some : k.mods.findSlotByName k.ram 0 namePtr ≠ 0 := found
  unfold modLink ModDir.linkByName
  dsimp only
  rw [if_neg some]
  rfl

/-- An entry without a header counts a link for nobody. -/
theorem tlinkInstall_null (empty : k.TrapEmpty n) (found : k.tlinkEntry namePtr ≠ 0) (null : k.tlinkHdr namePtr = 0) :
    k.tlinkInstall n memOverride namePtr =
      (.error eMnf, { k with mods := k.mods.counted (k.tlinkEntry namePtr) }) := by
  unfold tlinkInstall
  extract_lets pastName
  rw [if_neg (not_not.mpr empty.modPtr), modLink_found found, null]
  rfl

/-- Static memory of the handler: M$Mem and what the caller adds. -/
def tlinkSize (k : Kernel) (memOverride namePtr : Nat) : Nat :=
  (k.ram.getU32 (k.tlinkHdr namePtr + Mh.mem) + memOverride) % 4294967296

theorem tlinkHdr_lt (k : Kernel) (namePtr : Nat) : k.tlinkHdr namePtr < 4294967296 := Mem.getU32_lt _ _

/-- A refused link gives the link up; an installed one can be removed. -/
theorem tlinkInstall_live (owned : Owned region held k.ram free loans) (empty : k.TrapEmpty n)
    (found : k.tlinkEntry namePtr ≠ 0) (live : k.tlinkHdr namePtr ≠ 0) :
    (∃ code ram, k.tlinkInstall n memOverride namePtr =
        (.error code, { k with mods := k.mods.undoLink (k.tlinkEntry namePtr), ram := ram }) ∧
        SysMem.Settled region (loans.map Loan.block ++ held) k.ram ram) ∨
      ∃ link execEntry staticPtr granted ram, k.tlinkInstall n memOverride namePtr =
        (.ok link, { k with
          mods := k.mods.counted (k.tlinkEntry namePtr), ram := ram,
          desc := setTrapEntry k.desc k.proc n (k.tlinkHdr namePtr) execEntry staticPtr granted }) ∧
        (execEntry < 4294967296 ∧ staticPtr < 4294967296 ∧ granted < 4294967296) ∧
        SysMem.Settled region (loans.map Loan.block ++ held) k.ram (k.staticBack ram staticPtr granted) := by
  have undone : k.mods.undoLink (k.tlinkEntry namePtr) =
      (k.mods.counted (k.tlinkEntry namePtr)).unlinkByHeader (k.tlinkHdr namePtr) := if_neg live
  have static := @tlinkStatic_settles { k with mods := k.mods.counted (k.tlinkEntry namePtr) } region held free loans
    (k.tlinkSize memOverride namePtr) owned (k.tlinkHdr namePtr) (Nat.mod_lt _ (by decide))
  generalize is : k.tlinkInstall n memOverride namePtr = result
  -- the local names stay folded: comparing the unfolded ones makes the check slow
  unfold tlinkInstall at is
  extract_lets pastName at is
  rw [if_neg (not_not.mpr empty.modPtr), modLink_found found] at is
  dsimp -zeta only at is
  rw [if_neg live] at is
  extract_lets execEntry initEntry size at is
  have whole : size = k.tlinkSize memOverride namePtr := rfl
  rw [whole] at is
  rcases static with ⟨code, ram, refused, settled⟩ | ⟨staticPtr, granted, ram, served, fits, null, settled⟩
  · rw [refused] at is
    rw [undone]
    exact .inl ⟨code, ram, is.symm, settled⟩
  · rw [served] at is
    have owns : (if staticPtr ≠ 0 then granted else 0) = granted := by
      split
      · rfl
      · next none => exact (null (not_not.mp none)).symm
    refine .inr ⟨⟨pastName, k.tlinkHdr namePtr, execEntry, initEntry, staticPtr⟩, execEntry, staticPtr, granted, ram,
      ?_, ⟨Nat.mod_lt _ (by decide), fits⟩, settled⟩
    rw [← is]
    dsimp -zeta only
    rw [owns]

/-- The call without a name takes back what the call with one has installed. -/
theorem tlinkRemove_installed {k' : Kernel} {execEntry staticPtr granted : Nat} {ram : Mem} (inside : 1 ≤ n ∧ n ≤ 15)
    (live : k.tlinkHdr namePtr ≠ 0)
    (fits : execEntry < 4294967296 ∧ staticPtr < 4294967296 ∧ granted < 4294967296)
    (is : k' = { k with
      mods := k.mods.counted (k.tlinkEntry namePtr), ram := ram,
      desc := setTrapEntry k.desc k.proc n (k.tlinkHdr namePtr) execEntry staticPtr granted }) :
    k'.tlinkRemove n = { k with
      mods := k.mods.undoLink (k.tlinkEntry namePtr), ram := k.staticBack ram staticPtr granted,
      desc := setTrapEntry k'.desc k.proc n 0 0 0 0 } := by
  have undone : k.mods.undoLink (k.tlinkEntry namePtr) =
      (k.mods.counted (k.tlinkEntry namePtr)).unlinkByHeader (k.tlinkHdr namePtr) := if_neg live
  have words : trapWords k'.desc k'.proc n = (⟨k.tlinkHdr namePtr, execEntry, staticPtr⟩, granted) := by
    rw [is]
    exact trapWords_same _ _ inside (k.tlinkHdr_lt namePtr) fits.1 fits.2.1 fits.2.2
  have modPtr : k'.desc.get32 k'.proc (Desc.trapSlot n + Desc.trapModPtr) = k.tlinkHdr namePtr :=
    congrArg (fun words => words.1.modPtr) words
  have static : k'.desc.get32 k'.proc (Desc.trapSlot n + Desc.trapStaticPtr) = staticPtr :=
    congrArg (fun words => words.1.staticPtr) words
  have size : k'.desc.get32 k'.proc (Desc.trapSizeSlot n) = granted := congrArg Prod.snd words
  unfold tlinkRemove
  dsimp only
  rw [modPtr, static, size, if_pos live, undone]
  unfold staticBack
  by_cases some : staticPtr ≠ 0 ∧ granted ≠ 0
  · rw [if_pos some, if_pos some, is]
    rfl
  · rw [if_neg some, if_neg some, is]
    rfl

/-- Everything but the directory is as before; the directory is when the link can be taken back. -/
theorem kept_iff {ram : Mem} {desc : Heap} (owned : Owned region held k.ram free loans) (mods : ModDir)
    (settled : SysMem.Settled region (loans.map Loan.block ++ held) k.ram ram)
    (traps : ∀ t, 1 ≤ t → t ≤ 15 → trapWords desc k.proc t = trapWords k.desc k.proc t) :
    k.Kept { k with mods := mods, ram := ram, desc := desc } ↔ k.mods.Same mods :=
  ⟨fun kept => kept.modules, fun same => ⟨same, settled.freeByte owned.partition, settled.slots, traps⟩⟩

/-- A link counted for an entry without a header shows. -/
theorem counted_differs (found : k.tlinkEntry namePtr ≠ 0) :
    ¬ k.mods.Same (k.mods.counted (k.tlinkEntry namePtr)) := by
  intro same
  obtain ⟨front, back, chain, -, -⟩ := ModDir.findSlotByName_first found
  have listed : k.mods.Listed (k.tlinkEntry namePtr) := (ModDir.listed_iff chain).mpr (by simp [tlinkEntry])
  have count := same.fields _ listed ModDir.linkCnt (by simp)
  have small := k.mods.entries.get16_lt (k.tlinkEntry namePtr) ModDir.linkCnt
  rw [ModDir.counted_count] at count
  omega

/-- F$TLink and its undoing leave everything as it was exactly when the entry found, if any, has a header and its
link count does not overflow. -/
theorem procTLink_roundTrip_iff (owned : Owned region held k.ram free loans) (inside : 1 ≤ n ∧ n ≤ 15)
    (empty : k.TrapEmpty n) (named : namePtr ≠ 0)
    (linked : k.tlinkEntry namePtr ≠ 0 → k.mods.entries.get16 (k.tlinkEntry namePtr) ModDir.linkCnt ≠ 0 ∨
      k.mods.entries.get16 (k.tlinkEntry namePtr) ModDir.flags % 2 = 1) :
    k.RoundTrip n memOverride namePtr ↔ (k.tlinkEntry namePtr ≠ 0 → k.tlinkHdr namePtr ≠ 0 ∧
      k.mods.entries.get16 (k.tlinkEntry namePtr) ModDir.linkCnt < 65535) := by
  have settled : SysMem.Settled region (loans.map Loan.block ++ held) k.ram k.ram := SysMem.Settled.refl owned.partition
  unfold RoundTrip
  rw [procTLink_named inside named]
  by_cases missing : k.tlinkEntry namePtr = 0
  · rw [tlinkInstall_missing empty missing]
    exact iff_of_true ((kept_iff owned k.mods settled (fun _ _ _ => rfl)).mpr (.refl _)) (fun found => absurd missing found)
  have found : k.tlinkEntry namePtr ≠ 0 := missing
  by_cases null : k.tlinkHdr namePtr = 0
  · rw [tlinkInstall_null empty found null]
    refine iff_of_false (fun kept => counted_differs found kept.modules) (fun all => (all found).1 null)
  have undoes : k.mods.Same (k.mods.undoLink (k.tlinkEntry namePtr)) ↔
      k.mods.entries.get16 (k.tlinkEntry namePtr) ModDir.linkCnt < 65535 :=
    ModDir.undoLink_same_iff found null (linked found)
  have condition : (k.tlinkEntry namePtr ≠ 0 → k.tlinkHdr namePtr ≠ 0 ∧
      k.mods.entries.get16 (k.tlinkEntry namePtr) ModDir.linkCnt < 65535) ↔
      k.mods.entries.get16 (k.tlinkEntry namePtr) ModDir.linkCnt < 65535 := by
    simp [found, null]
  rw [condition, ← undoes]
  rcases tlinkInstall_live owned empty found null with
    ⟨code, ram, refused, after⟩ | ⟨link, execEntry, staticPtr, granted, ram, installed, fits, after⟩
  · rw [refused]
    exact kept_iff owned _ after (fun _ _ _ => rfl)
  · rw [installed]
    have others : k.OtherTraps { k with
        mods := k.mods.counted (k.tlinkEntry namePtr), ram := ram,
        desc := setTrapEntry k.desc k.proc n (k.tlinkHdr namePtr) execEntry staticPtr granted } n :=
      fun t first last other => trapWords_other _ _ _ _ _ _ _ inside ⟨first, last⟩ other
    have cleared : ∀ t, 1 ≤ t → t ≤ 15 → trapWords (setTrapEntry
        (setTrapEntry k.desc k.proc n (k.tlinkHdr namePtr) execEntry staticPtr granted) k.proc n 0 0 0 0) k.proc t =
        trapWords k.desc k.proc t := by
      intro t first last
      by_cases here : t = n
      · rw [here, trapWords_same _ _ inside (by decide) (by decide) (by decide) (by decide)]
        exact empty.symm
      · rw [trapWords_other _ _ _ _ _ _ _ inside ⟨first, last⟩ here]
        exact others t first last here
    have same := kept_iff owned (k.mods.undoLink (k.tlinkEntry namePtr)) after cleared
    dsimp only
    rw [← same]
    constructor
    · rintro ⟨-, back⟩
      have kept := back 0
      rw [procTLink_nameless inside, tlinkRemove_installed inside null fits rfl] at kept
      exact kept
    · intro kept
      refine ⟨others, fun memOverride' => ?_⟩
      rw [procTLink_nameless inside, tlinkRemove_installed inside null fits rfl]
      exact kept

/-- The round trip of a link that succeeds keeps the link count of every entry. -/
theorem RoundTrip.count {e : Nat} (trip : k.RoundTrip n memOverride namePtr)
    (served : (k.procTLink n memOverride namePtr).1.isOk = true) (listed : k.mods.Listed e) :
    ((k.procTLink n memOverride namePtr).2.procTLink n 0 0).2.mods.entries.get16 e ModDir.linkCnt =
      k.mods.entries.get16 e ModDir.linkCnt := by
  unfold RoundTrip at trip
  cases is : k.procTLink n memOverride namePtr with
  | mk answer k' =>
    rw [is] at trip served
    cases answer with
    | error code => cases served
    | ok link => exact (trip.2 0).modules.fields e listed ModDir.linkCnt (by simp)

end Named

/-! ### One module -/

/-- Process 1 runs; the module `a` has the count `high`, `low` and is permanent or not. -/
def oneHandler (high low permanent : UInt8) : Kernel :=
  { Kernel.zeroed 0 0 with
    proc := 1
    ram := (SysMem.boot SysMem.sampleRegion oneModule).mem
    mods := ⟨0x500, 0, fun b o => if b ≠ 0x500 then 0 else if o = 6 then 0x20 else if o = 12 then high
      else if o = 13 then low else if o = 15 then permanent else 0⟩ }

theorem oneHandler_empty (high low permanent : UInt8) (n : Nat) : (oneHandler high low permanent).TrapEmpty n := by
  have zero : ∀ o, (oneHandler high low permanent).desc.get32 1 o = 0 := fun o => by
    simp [Heap.get32, Mem.getU32, Mem.getU16, Mem.getU8, oneHandler, Kernel.zeroed]
  have words : trapWords (oneHandler high low permanent).desc 1 n = (⟨0, 0, 0⟩, 0) := by
    simp only [trapWords, Fields.trapEntry, zero]
  exact words

theorem procTLink_roundTrip_one : (oneHandler 0 1 0).RoundTrip 2 0x40 0x3000 := by
  have owned : Owned SysMem.sampleRegion [] (oneHandler 0 1 0).ram _ [] := boot_owned SysMem.sampleRegion oneModule
  refine (procTLink_roundTrip_iff owned (by decide) (oneHandler_empty 0 1 0 2) (by decide) ?_).mpr ?_
  · exact fun _ => .inl (by decide +kernel)
  · exact fun _ => ⟨by decide +kernel, by decide +kernel⟩

/-- With 65535 links counted, one more is 0, and the unlink leaves it there. -/
theorem procTLink_roundTrip_overflow :
    ¬ ∀ (k : Kernel) (region : KernelRegion) (held free : List Block) (loans : List Loan) (n memOverride namePtr : Nat),
      Owned region held k.ram free loans → 1 ≤ n ∧ n ≤ 15 → k.TrapEmpty n → namePtr ≠ 0 →
        (k.tlinkEntry namePtr ≠ 0 → k.mods.entries.get16 (k.tlinkEntry namePtr) ModDir.linkCnt ≠ 0 ∨
          k.mods.entries.get16 (k.tlinkEntry namePtr) ModDir.flags % 2 = 1) → k.RoundTrip n memOverride namePtr := by
  intro always
  have owned : Owned SysMem.sampleRegion [] (oneHandler 0xFF 0xFF 1).ram _ [] :=
    boot_owned SysMem.sampleRegion oneModule
  have listed : (oneHandler 0xFF 0xFF 1).mods.Listed 0x500 := .head (by decide)
  -- the name as a variable keeps Lean from running the call when it reads the statement
  obtain ⟨namePtr, name⟩ : ∃ namePtr, namePtr = 0x3000 := ⟨_, rfl⟩
  have count : (oneHandler 0xFF 0xFF 1).mods.entries.get16 ((oneHandler 0xFF 0xFF 1).tlinkEntry namePtr)
      ModDir.linkCnt ≠ 0 := by rw [name]; decide +kernel
  have served : ((oneHandler 0xFF 0xFF 1).procTLink 2 0 namePtr).1.isOk = true := by rw [name]; decide +kernel
  have after : (((oneHandler 0xFF 0xFF 1).procTLink 2 0 namePtr).2.procTLink 2 0 0).2.mods.entries.get16 0x500
      ModDir.linkCnt = 0 := by rw [name]; decide +kernel
  have trip : (oneHandler 0xFF 0xFF 1).RoundTrip 2 0 namePtr :=
    always _ _ _ _ _ _ _ _ owned (by decide) (oneHandler_empty 0xFF 0xFF 1 2) (by omega) (fun _ => .inl count)
  have same := trip.count served listed
  rw [after] at same
  exact absurd same (by decide)

end Kernel

end Q9OS

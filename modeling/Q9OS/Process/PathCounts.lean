import Mathlib.Tactic
import Q9OS.Lib.Run
import Q9OS.Process.Frame
import Q9OS.Process.PathTally
import Q9OS.Process.Slots

/-!
# Reference counts of native paths

What each call does to the path tables of all processes, and that it keeps the
counts of the descriptors right.
-/

namespace Q9OS

open Heap

namespace Kernel

/-! ### Path tables -/

/-- The cells of all path tables, by slot and path number. -/
def cells (k : Kernel) : Finset (Nat × Nat) := Finset.range k.poolCount ×ˢ Finset.range Desc.pathCount

def cell (k : Kernel) (c : Nat × Nat) : Nat := k.pathEntry (k.slotAddr c.1) c.2

/-- How many path numbers of all processes name descriptor `n`. -/
def pathUses (k : Kernel) (n : Nat) : Nat := holders k.cells k.cell n

/-- No path number of the slot is in use. -/
def Bare (k : Kernel) (d : Nat) : Prop := ∀ j < Desc.pathCount, k.pathEntry d j = 0

def isZombie (k : Kernel) (d : Nat) : Prop := k.desc.get8 d Desc.state = stateZombie

/-! ### What leaves the tables alone -/

/-- P$ID, the path table and the parent of a process. -/
def UserOff (o : Nat) : Prop := o < 4 ∨ (0x168 ≤ o ∧ o < 0x1A8) ∨ (0x1B8 ≤ o ∧ o < 0x1BC)

/-- Neither pools, path tables nor parents change, and nobody becomes a zombie. -/
structure Steady (k k' : Kernel) : Prop where
  base : k'.poolBase = k.poolBase
  count : k'.poolCount = k.poolCount
  free : k'.poolFree = k.poolFree
  paths : k'.paths = k.paths
  fields : Agree UserOff k.desc k'.desc
  zombies : ∀ d, k'.isZombie d → k.isZombie d

namespace Steady

variable {k k' k'' : Kernel} {h : Heap}

theorem rfl : Steady k k := ⟨Eq.refl _, Eq.refl _, Eq.refl _, Eq.refl _, Agree.rfl, fun _ z => z⟩

theorem trans (first : Steady k k') (second : Steady k' k'') : Steady k k'' where
  base := second.base.trans first.base
  count := second.count.trans first.count
  free := second.free.trans first.free
  paths := second.paths.trans first.paths
  fields := first.fields.trans second.fields
  zombies d z := first.zombies d (second.zombies d z)

theorem store {on : Nat → Prop} (agree : Agree on k.desc h) (fewer : ∀ o, UserOff o ∨ o = 0x1D → on o) :
    Steady k { k with desc := h } where
  base := Eq.refl _
  count := Eq.refl _
  free := Eq.refl _
  paths := Eq.refl _
  fields := agree.weaken (fun o here => fewer o (Or.inl here))
  zombies d z := (agree.get8 d (fewer _ (Or.inr (Eq.refl _)))).symm.trans z

theorem kept (agree : Agree (fun o => UserOff o ∨ o = 0x1D) k.desc h) : Steady k { k with desc := h } :=
  store agree (fun _ here => here)

theorem set8 (d v : Nat) {o : Nat} (apart : ∀ x, UserOff x ∨ x = 0x1D → x ≠ o) : Steady k { k with desc := k.desc.set8 d o v } :=
  kept (Agree.rfl.set8 d v apart)

theorem set16 (d v : Nat) {o : Nat} (apart : ∀ x, UserOff x ∨ x = 0x1D → x < o ∨ o + 2 ≤ x) :
    Steady k { k with desc := k.desc.set16 d o v } :=
  kept (Agree.rfl.set16 d v apart)

theorem set32 (d v : Nat) {o : Nat} (apart : ∀ x, UserOff x ∨ x = 0x1D → x < o ∨ o + 4 ≤ x) :
    Steady k { k with desc := k.desc.set32 d o v } :=
  kept (Agree.rfl.set32 d v apart)

/-- A state letter other than the one of zombies. -/
theorem letter (d : Nat) {v : Nat} (fits : v < 256) (other : v ≠ stateZombie) :
    Steady k { k with desc := k.desc.set8 d Desc.state v } where
  base := Eq.refl _
  count := Eq.refl _
  free := Eq.refl _
  paths := Eq.refl _
  fields := Agree.rfl.set8 d v (fun x here => by unfold UserOff at here; unfold Desc.state; omega)
  zombies e z := by
    unfold isZombie at *
    by_cases own : e = d
    · rw [own, get8_set8, Nat.mod_eq_of_lt fits] at z
      exact absurd z other
    · rwa [get8_set8_block _ _ _ _ own] at z

theorem queue {h : Heap} (agree : Agree (fun o => ¬ QueueOff o) k.desc h) : Steady k { k with desc := h } :=
  store agree (fun o here => by unfold QueueOff LinkOff UserOff at *; omega)

theorem links {h : Heap} (agree : Agree (fun o => ¬ LinkOff o) k.desc h) : Steady k { k with desc := h } :=
  store agree (fun o here => by unfold LinkOff UserOff at *; omega)

end Steady

theorem schedFirstPick_steady (k : Kernel) : Steady k k.schedFirstPick.2 := by
  have links : Steady k { k with desc := (schedPickHighestAge k.desc 0).2 } := Steady.links (pick_agree k.desc 0)
  obtain ⟨base, count, free, paths, fields, zombies⟩ := links
  unfold schedFirstPick
  dsimp only
  split <;> exact ⟨base, count, free, paths, fields, zombies⟩

theorem switchTo_steady {k : Kernel} {picked : Nat × Kernel} (steady : Steady k picked.2) : Steady k (switchTo picked) := by
  obtain ⟨base, count, free, paths, fields, zombies⟩ := steady
  unfold switchTo
  split <;> exact ⟨base, count, free, paths, fields, zombies⟩

theorem setReg_steady (k : Kernel) (frame reg value : Nat) : Steady k (k.setReg frame reg value) :=
  ⟨rfl, rfl, rfl, rfl, Agree.rfl, fun _ z => z⟩

theorem saveSp_steady (k : Kernel) (sp : Nat) : Steady k (k.saveSp sp) :=
  Steady.set32 _ _ (fun x here => by unfold UserOff at here; unfold Desc.savedSp; omega)

theorem waitQTake_steady (k : Kernel) (desc : Nat) : Steady k (k.waitQTake desc) := Steady.links (listUnlink_agree _ _)

theorem activate_steady (k : Kernel) (desc : Nat) : Steady k (k.activate desc) :=
  (Steady.letter desc (by decide) (by decide)).trans (Steady.queue (schedInsert_agree _ _))

theorem icptDeliver_steady (k : Kernel) (desc signal : Nat) : Steady k (k.icptDeliver desc signal) := by
  unfold icptDeliver
  split
  · have first : Agree (fun o => UserOff o ∨ o = 0x1D) k.desc (k.desc.set32 desc Desc.savedSp (sub32 (k.desc.get32 desc Desc.savedSp) frameSize)) :=
      Agree.rfl.set32 _ _ (fun x here => by unfold UserOff at here; unfold Desc.savedSp; omega)
    have second := first.set32 desc ((k.desc.set32 desc Desc.savedSp (sub32 (k.desc.get32 desc Desc.savedSp) frameSize)).get32 desc Desc.icptDepth + 1)
      (o := Desc.icptDepth) (fun x here => by unfold UserOff at here; unfold Desc.icptDepth; omega)
    have third := second.set16 desc 0 (o := Desc.signal) (fun x here => by unfold UserOff at here; unfold Desc.signal; omega)
    obtain ⟨base, count, free, paths, fields, zombies⟩ := Steady.store third (fun _ here => here)
    exact ⟨base, count, free, paths, fields, zombies⟩
  · exact Steady.rfl

theorem releaseModule_steady (k : Kernel) (desc : Nat) : Steady k (k.releaseModule desc) := by
  unfold releaseModule
  dsimp only
  split
  · have unlinked : Steady k (k.modUnlink (k.desc.get32 desc Desc.modHdr)) := ⟨rfl, rfl, rfl, rfl, Agree.rfl, fun _ z => z⟩
    exact unlinked.trans (Steady.set32 _ _ (fun x here => by unfold UserOff at here; unfold Desc.modHdr; omega))
  · exact Steady.rfl

theorem setTrapEntry_steady (k : Kernel) (desc : Nat) {n : Nat} (low : 1 ≤ n) (high : n ≤ 15) (modPtr execEntry staticPtr size : Nat) :
    Steady k { k with desc := setTrapEntry k.desc desc n modPtr execEntry staticPtr size } := by
  refine Steady.kept ?_
  unfold setTrapEntry
  refine (((Agree.rfl.set32 _ _ ?_).set32 _ _ ?_).set32 _ _ ?_).set32 _ _ ?_ <;>
    · intro x here
      unfold UserOff at here
      simp only [Desc.trapSlot, Desc.trapTbl, Desc.trapModPtr, Desc.trapExecEntry, Desc.trapStaticPtr, Desc.trapSizeSlot, Desc.trapSize]
      omega

theorem releaseTrapLinksFrom_steady (desc : Nat) (traps : List Nat) (range : ∀ n ∈ traps, 1 ≤ n ∧ n ≤ 15) (k : Kernel) :
    Steady k (k.releaseTrapLinksFrom desc traps) := by
  induction traps generalizing k with
  | nil => exact Steady.rfl
  | cons n traps ih =>
    obtain ⟨low, high⟩ := range n (List.mem_cons_self ..)
    have one : Steady k (k.releaseTrapLink desc n) := by
      unfold releaseTrapLink
      dsimp only
      split
      · have unlinked : Steady k (k.modUnlink (k.desc.get32 desc (Desc.trapSlot n + Desc.trapModPtr))) :=
          ⟨rfl, rfl, rfl, rfl, Agree.rfl, fun _ z => z⟩
        exact unlinked.trans (setTrapEntry_steady _ _ low high _ _ _ _)
      · exact setTrapEntry_steady _ _ low high _ _ _ _
    exact one.trans (ih (fun m member => range m (List.mem_cons_of_mem _ member)) _)

theorem procReleaseTrapLinks_steady (k : Kernel) (desc : Nat) : Steady k (k.procReleaseTrapLinks desc) :=
  k.releaseTrapLinksFrom_steady desc _ (fun n member => by rw [List.mem_range'_1] at member; omega)

theorem procReleaseMemory_steady (k : Kernel) (desc : Nat) : Steady k (k.procReleaseMemory desc) := by
  have agree : Agree (fun o => UserOff o ∨ o = 0x1D) k.desc ((k.desc.set32 desc Desc.allocBase 0).set32 desc Desc.allocSize 0) :=
    (Agree.rfl.set32 _ _ (fun x here => by unfold UserOff at here; unfold Desc.allocBase; omega)).set32 _ _
      (fun x here => by unfold UserOff at here; unfold Desc.allocSize; omega)
  obtain ⟨base, count, free, paths, fields, zombies⟩ := Steady.store agree (fun _ here => here)
  exact ⟨base, count, free, paths, fields, zombies⟩

theorem alarmClearSlots_steady (pid : Nat) (slots : List Nat) (k : Kernel) : Steady k (k.alarmClearSlots pid slots) := by
  induction slots generalizing k with
  | nil => exact Steady.rfl
  | cons i slots ih =>
    rw [alarmClearSlots]
    split
    · exact ih k
    · have cleared : Steady k (k.setAlarm i Alarm.clear) := ⟨rfl, rfl, rfl, rfl, Agree.rfl, fun _ z => z⟩
      exact cleared.trans (ih _)

theorem alarmCleanupProcess_steady (k : Kernel) (desc : Nat) : Steady k (k.alarmCleanupProcess desc) := by
  unfold alarmCleanupProcess
  dsimp only
  split
  · exact Steady.rfl
  · exact k.alarmClearSlots_steady _ _

/-! ### The invariant -/

/-- Free slots and zombies use no path number, and the pool counts what the tables name. -/
structure PathsSound (k : Kernel) (count : Nat) (spare : List Nat) : Prop where
  placed : k.Placed
  spares : k.Spares spare
  bare : ∀ d, d ∈ spare ∨ (k.IsSlot d ∧ k.isZombie d) → k.Bare d
  tallied : k.paths.Tallied count k.cells k.cell

section
variable {k k' : Kernel} {count : Nat} {spare : List Nat} {d i j v : Nat}

theorem Steady.pathEntry (steady : Steady k k') (d : Nat) (inside : j < Desc.pathCount) : k'.pathEntry d j = k.pathEntry d j :=
  steady.fields.get16 d (fun x low high => by
    unfold UserOff
    unfold Desc.path at low high
    unfold Desc.pathCount at inside
    omega)

theorem Steady.bare (steady : Steady k k') (bare : k.Bare d) : k'.Bare d :=
  fun j inside => (steady.pathEntry d inside).trans (bare j inside)

theorem Steady.cells (steady : Steady k k') : k'.cells = k.cells := by
  unfold Kernel.cells
  rw [steady.count]

theorem Steady.slotAddr (steady : Steady k k') (i : Nat) : k'.slotAddr i = k.slotAddr i := by
  unfold Kernel.slotAddr
  rw [steady.base]

theorem Steady.isSlot (steady : Steady k k') (d : Nat) : k'.IsSlot d ↔ k.IsSlot d := isSlot_congr steady.base steady.count

theorem Steady.cell (steady : Steady k k') {c : Nat × Nat} (inside : c ∈ k.cells) : k'.cell c = k.cell c := by
  have few : c.2 < Desc.pathCount := Finset.mem_range.mp (Finset.mem_product.mp inside).2
  unfold Kernel.cell
  rw [steady.slotAddr, steady.pathEntry _ few]

theorem Steady.pathUses (steady : Steady k k') (n : Nat) : k'.pathUses n = k.pathUses n := by
  unfold Kernel.pathUses
  rw [steady.cells]
  exact holders_congr (fun _ inside => steady.cell inside) n

theorem PathsSound.steady (sound : PathsSound k count spare) (steady : Steady k k') : PathsSound k' count spare where
  placed := sound.placed.congr steady.base steady.count
  spares := sound.spares.congr steady.base steady.count steady.free
    (fun d _ => steady.fields.get32 d (fun x _ high => Or.inl (by unfold Desc.id at high; omega)))
    (fun d _ => steady.fields.get32 d (fun x low high => Or.inr (Or.inr (by unfold Desc.parent at low high; omega))))
  bare d idle := by
    refine steady.bare (sound.bare d ?_)
    rcases idle with free | ⟨slot, zombie⟩
    · exact Or.inl free
    · exact Or.inr ⟨(steady.isSlot d).mp slot, steady.zombies d zombie⟩
  tallied := by
    rw [steady.paths, steady.cells]
    exact sound.tallied.congr (fun _ inside => steady.cell inside)

theorem pathEntry_set (k : Kernel) (d j : Nat) (fits : v < 65536) (e m : Nat) :
    (k.setPathEntry d j v).pathEntry e m = if e = d ∧ m = j then v else k.pathEntry e m := by
  unfold pathEntry setPathEntry
  dsimp only
  by_cases own : e = d
  · subst own
    by_cases here : m = j
    · rw [if_pos ⟨rfl, here⟩, here, get16_set16, Nat.mod_eq_of_lt fits]
    · rw [if_neg (fun both => here both.2), get16_set16_off _ _ _ _ (by omega)]
  · rw [if_neg (fun both => own both.1)]
    exact congrArg (fun m => Mem.getU16 m _) (set16_block _ _ _ own)

theorem mem_cells (few : i < k.poolCount) (inside : j < Desc.pathCount) : (i, j) ∈ k.cells :=
  Finset.mem_product.mpr ⟨Finset.mem_range.mpr few, Finset.mem_range.mpr inside⟩

theorem rows_le (placed : k.Placed) : (k.cells.image Prod.fst).card < 65536 := by
  have rows : k.cells.image Prod.fst ⊆ Finset.range k.poolCount := by
    intro i member
    obtain ⟨c, inside, rfl⟩ := Finset.mem_image.mp member
    exact (Finset.mem_product.mp inside).1
  have fewer := Finset.card_le_card rows
  rw [Finset.card_range] at fewer
  have few := placed.few
  omega

/-- One cell of a running process changes, and the pool with it. -/
theorem PathsSound.change {paths : PathPool} (sound : PathsSound k count spare) (used : k.slotAddr i ∉ spare)
    (living : ¬ k.isZombie (k.slotAddr i)) (fits : v < 65536)
    (tallied : ∀ f, (∀ c ∈ k.cells, c ≠ (i, j) → f c = k.cell c) → f (i, j) = v → paths.Tallied count k.cells f) :
    PathsSound { k.setPathEntry (k.slotAddr i) j v with paths := paths } count spare where
  placed := sound.placed.congr rfl rfl
  spares := by
    refine sound.spares.congr rfl rfl rfl (fun d member => ?_) (fun d member => ?_)
    · exact congrArg (fun m => Mem.getU32 m _) (set16_block _ _ _ (fun same => used (same ▸ member)))
    · exact congrArg (fun m => Mem.getU32 m _) (set16_block _ _ _ (fun same => used (same ▸ member)))
  bare d idle m inside := by
    have entry : ({ k.setPathEntry (k.slotAddr i) j v with paths := paths } : Kernel).pathEntry d m = _ := pathEntry_set k (k.slotAddr i) j fits d m
    have letter : (k.setPathEntry (k.slotAddr i) j v).desc.get8 d Desc.state = k.desc.get8 d Desc.state := get8_set16_off _ _ _ _ (by unfold Desc.path Desc.state; omega)
    have idle' : d ∈ spare ∨ (k.IsSlot d ∧ k.isZombie d) := by
      refine idle.imp id (fun both => ⟨both.1, ?_⟩)
      unfold isZombie
      rw [← letter]
      exact both.2
    rw [entry, if_neg]
    · exact sound.bare d idle' m inside
    · rintro ⟨rfl, -⟩
      rcases idle' with free | ⟨-, zombie⟩
      · exact used free
      · exact living zombie
  tallied := by
    refine tallied _ (fun c _ other => ?_) ?_
    · have entry := pathEntry_set k (k.slotAddr i) j fits (k.slotAddr c.1) c.2
      refine entry.trans (if_neg (fun both => other ?_))
      exact Prod.ext (slotAddr_inj both.1) both.2
    · exact (pathEntry_set k (k.slotAddr i) j fits _ _).trans (if_pos ⟨rfl, rfl⟩)

end

/-! ### Giving a slot back -/

/-- The same pool, path tables and zombies. -/
structure SameRows (k k' : Kernel) : Prop where
  base : k'.poolBase = k.poolBase
  count : k'.poolCount = k.poolCount
  rows : ∀ d, ∀ j < Desc.pathCount, k'.pathEntry d j = k.pathEntry d j
  zombies : ∀ d, k'.isZombie d → k.isZombie d

section
variable {k k' k'' : Kernel} {count : Nat} {spare : List Nat} {d : Nat}

theorem SameRows.trans (first : SameRows k k') (second : SameRows k' k'') : SameRows k k'' where
  base := second.base.trans first.base
  count := second.count.trans first.count
  rows d j inside := (second.rows d j inside).trans (first.rows d j inside)
  zombies d z := first.zombies d (second.zombies d z)

theorem Steady.sameRows (steady : Steady k k') : SameRows k k' :=
  ⟨steady.base, steady.count, fun d _ inside => steady.pathEntry d inside, steady.zombies⟩

theorem SameRows.bare (same : SameRows k k') (bare : k.Bare d) : k'.Bare d :=
  fun j inside => (same.rows d j inside).trans (bare j inside)

/-- Other fields of a slot that is not free change. -/
theorem PathsSound.own {h : Heap} (sound : PathsSound k count spare) (fresh : d ∉ spare)
    (others : ∀ e, e ≠ d → h e = k.desc e) (rows : ∀ j < Desc.pathCount, h.get16 d (Desc.path + j * 2) = k.pathEntry d j)
    (letter : h.get8 d Desc.state = stateZombie → k.isZombie d) :
    PathsSound { k with desc := h } count spare ∧ SameRows k { k with desc := h } := by
  have entries : ∀ e, ∀ j < Desc.pathCount, ({ k with desc := h } : Kernel).pathEntry e j = k.pathEntry e j := by
    intro e j inside
    by_cases same : e = d
    · rw [same]
      exact rows j inside
    · exact congrArg (fun m => Mem.getU16 m _) (others e same)
  have zombies : ∀ e, ({ k with desc := h } : Kernel).isZombie e → k.isZombie e := by
    intro e zombie
    by_cases same : e = d
    · rw [same] at zombie ⊢
      exact letter zombie
    · unfold isZombie Heap.get8 at *
      rwa [← others e same]
  refine ⟨⟨sound.placed.congr rfl rfl, ?_, ?_, ?_⟩, rfl, rfl, entries, zombies⟩
  · refine sound.spares.congr rfl rfl rfl (fun e member => ?_) (fun e member => ?_)
    · exact congrArg (fun m => Mem.getU32 m _) (others e (fun same => fresh (same ▸ member)))
    · exact congrArg (fun m => Mem.getU32 m _) (others e (fun same => fresh (same ▸ member)))
  · intro e idle j inside
    rw [entries e j inside]
    exact sound.bare e (idle.imp id (fun both => ⟨both.1, zombies e both.2⟩)) j inside
  · refine sound.tallied.congr (fun c inside => ?_)
    exact entries _ _ (Finset.mem_range.mp (Finset.mem_product.mp inside).2)

theorem procReleasePaths_bare (bare : k.Bare d) : k.procReleasePaths d = k := by
  have always : ∀ slots : List Nat, (∀ j ∈ slots, j < Desc.pathCount) → k.releasePathsFrom d slots = k := by
    intro slots
    induction slots with
    | nil => exact fun _ => rfl
    | cons j slots ih =>
      intro few
      have none : k.releasePath d j = k := if_pos (bare j (few j (List.mem_cons_self ..)))
      rw [releasePathsFrom, none]
      exact ih (fun m member => few m (List.mem_cons_of_mem _ member))
  exact always _ (fun j member => List.mem_range.mp member)

theorem procReleaseAll_bare (bare : k.Bare d) : Steady k (k.procReleaseAll d) := by
  have traps := k.procReleaseTrapLinks_steady d
  unfold procReleaseAll
  rw [procReleasePaths_bare (traps.bare bare)]
  exact traps.trans (procReleaseMemory_steady _ d)

theorem clearSlot_others (h : Heap) (d : Nat) {e : Nat} (other : e ≠ d) : clearSlot h d e = h e := by
  unfold clearSlot
  rw [set32_block _ _ _ other, set32_block _ _ _ other, set32_block _ _ _ other, set16_block _ _ _ other,
    set32_block _ _ _ other, set32_block _ _ _ other]

theorem clearSlot_parent (h : Heap) (d : Nat) : (clearSlot h d).get32 d Desc.parent = 0 := by
  unfold clearSlot
  rw [get32_set32_off _ _ _ _ (by decide), get32_set32_off _ _ _ _ (by decide), get32_set32_off _ _ _ _ (by decide),
    get32_set16_off _ _ _ _ (by decide), get32_set32_off _ _ _ _ (by decide), get32_set32]

theorem clearSlot_path (h : Heap) (d j : Nat) (inside : j < Desc.pathCount) :
    (clearSlot h d).get16 d (Desc.path + j * 2) = h.get16 d (Desc.path + j * 2) := by
  unfold Desc.pathCount at inside
  unfold clearSlot
  rw [get16_set32_off, get16_set32_off, get16_set32_off, get16_set16_off, get16_set32_off, get16_set32_off] <;>
    · simp only [Desc.path, Desc.parent, Desc.modHdr, Desc.exitStatus, Desc.dbgPar, Desc.dbgInstr, Desc.dbgTotal]
      omega

theorem clearSlot_state (h : Heap) (d : Nat) : (clearSlot h d).get8 d Desc.state = h.get8 d Desc.state := by
  unfold clearSlot
  rw [get8_set32_off _ _ _ _ (by decide), get8_set32_off _ _ _ _ (by decide), get8_set32_off _ _ _ _ (by decide),
    get8_set16_off _ _ _ _ (by decide), get8_set32_off _ _ _ _ (by decide), get8_set32_off _ _ _ _ (by decide)]

/-- A slot without paths goes back to the pool. -/
theorem PathsSound.procPoolFree (sound : PathsSound k count spare) (slot : k.IsSlot d) (fresh : d ∉ spare) (bare : k.Bare d) :
    PathsSound (k.procPoolFree d) count (d :: spare) ∧ SameRows k (k.procPoolFree d) := by
  have alarms := k.alarmCleanupProcess_steady d
  have steady := alarms.trans (procReleaseAll_bare (alarms.bare bare))
  unfold Kernel.procPoolFree
  dsimp only
  generalize (k.alarmCleanupProcess d).procReleaseAll d = mid at steady
  have slot' : mid.IsSlot d := (steady.isSlot d).mpr slot
  have sound' := sound.steady steady
  obtain ⟨cleared, sameRows⟩ := sound'.own fresh (fun e other => clearSlot_others mid.desc d other)
    (fun j inside => clearSlot_path mid.desc d j inside) (fun zombie => by rwa [clearSlot_state] at zombie)
  have orphan : ({ mid with desc := clearSlot mid.desc d } : Kernel).desc.get32 d Desc.parent = 0 := clearSlot_parent _ _
  have bare' : ({ mid with desc := clearSlot mid.desc d } : Kernel).Bare d := sameRows.bare (steady.bare bare)
  generalize ({ mid with desc := clearSlot mid.desc d } : Kernel) = last at cleared sameRows orphan bare'
  have slot'' : last.IsSlot d := (isSlot_congr sameRows.base sameRows.count).mpr slot'
  have agree : Agree (fun o => 4 ≤ o) last.desc (last.procPoolAbortAlloc d).desc :=
    Agree.rfl.set32 d last.poolFree (fun x here => by unfold Desc.id; omega)
  have rows : ∀ e, ∀ j < Desc.pathCount, (last.procPoolAbortAlloc d).pathEntry e j = last.pathEntry e j :=
    fun e j _ => agree.get16 e (fun x low _ => by unfold Desc.path at low; omega)
  have zombies : ∀ e, (last.procPoolAbortAlloc d).isZombie e → last.isZombie e := by
    intro e zombie
    unfold isZombie at *
    rwa [← agree.get8 e (by decide)]
  refine ⟨⟨cleared.placed.congr rfl rfl, cleared.spares.push cleared.placed slot'' fresh orphan, ?_, ?_⟩,
    steady.sameRows.trans (sameRows.trans ⟨rfl, rfl, rows, zombies⟩)⟩
  · intro e idle j inside
    rw [rows e j inside]
    rcases idle with free | ⟨slotE, zombie⟩
    · rcases List.mem_cons.mp free with rfl | later
      · exact bare' j inside
      · exact cleared.bare e (Or.inl later) j inside
    · exact cleared.bare e (Or.inr ⟨slotE, zombies e zombie⟩) j inside
  · refine cleared.tallied.congr (fun c inside => ?_)
    exact rows _ _ (Finset.mem_range.mp (Finset.mem_product.mp inside).2)

/-- The zombies among the children of a process that ends. -/
theorem PathsSound.freeDeadChildrenFrom {caller : Nat} (slots : List Nat) (sound : PathsSound k count spare)
    (inside : ∀ i ∈ slots, i < k.poolCount) (live : caller ≠ 0) (used : caller ∉ spare) (living : ¬ k.isZombie caller) :
    ∃ spare', PathsSound (k.freeDeadChildrenFrom caller slots) count spare' ∧ caller ∉ spare' ∧
      SameRows k (k.freeDeadChildrenFrom caller slots) := by
  induction slots generalizing k spare with
  | nil => exact ⟨spare, sound, used, Steady.rfl.sameRows⟩
  | cons i slots ih =>
    rw [Kernel.freeDeadChildrenFrom]
    split
    · next dead =>
      obtain ⟨parent, zombie⟩ : k.desc.get32 (k.slotAddr i) Desc.parent = caller ∧ k.isZombie (k.slotAddr i) := by
        simpa [isDeadChild, isZombie] using dead
      have slot : k.IsSlot (k.slotAddr i) := ⟨i, inside i (List.mem_cons_self ..), rfl⟩
      have fresh : k.slotAddr i ∉ spare := fun free => live (parent.symm.trans (sound.spares.orphans _ free))
      obtain ⟨freed, same⟩ := sound.procPoolFree slot fresh (sound.bare _ (Or.inr ⟨slot, zombie⟩))
      have other : caller ≠ k.slotAddr i := fun equal => living (equal ▸ zombie)
      obtain ⟨spare', sound', used', same'⟩ := ih freed
        (fun j member => by rw [same.count]; exact inside j (List.mem_cons_of_mem _ member))
        (fun free => (List.mem_cons.mp free).elim other used) (fun z => living (same.zombies caller z))
      exact ⟨spare', sound', used', same.trans same'⟩
    · exact ih sound (fun j member => inside j (List.mem_cons_of_mem _ member)) used living

end

/-! ### The paths of a process that ends -/

/-- Path numbers of one process are given up. -/
structure Drops (d : Nat) (k k' : Kernel) : Prop where
  base : k'.poolBase = k.poolBase
  count : k'.poolCount = k.poolCount
  others : ∀ e, e ≠ d → k'.desc e = k.desc e
  letter : k'.desc.get8 d Desc.state = k.desc.get8 d Desc.state
  parent : ∀ o, 0x1A8 ≤ o → k'.desc d o = k.desc d o
  gone : ∀ j < Desc.pathCount, k.pathEntry d j = 0 → k'.pathEntry d j = 0

section
variable {k k' k'' : Kernel} {count : Nat} {spare : List Nat} {d i j : Nat}

theorem Drops.trans (first : Drops d k k') (second : Drops d k' k'') : Drops d k k'' where
  base := second.base.trans first.base
  count := second.count.trans first.count
  others e other := (second.others e other).trans (first.others e other)
  letter := second.letter.trans first.letter
  parent o high := (second.parent o high).trans (first.parent o high)
  gone j inside none := second.gone j inside (first.gone j inside none)

theorem Drops.slotAddr (drops : Drops d k k') (i : Nat) : k'.slotAddr i = k.slotAddr i := by
  unfold Kernel.slotAddr
  rw [drops.base]

theorem PathsSound.releasePath (sound : PathsSound k count spare) (few : i < k.poolCount) (used : k.slotAddr i ∉ spare)
    (living : ¬ k.isZombie (k.slotAddr i)) (inside : j < Desc.pathCount) :
    PathsSound (k.releasePath (k.slotAddr i) j) count spare ∧ Drops (k.slotAddr i) k (k.releasePath (k.slotAddr i) j) ∧
      (k.releasePath (k.slotAddr i) j).pathEntry (k.slotAddr i) j = 0 := by
  unfold Kernel.releasePath
  dsimp only
  split
  · next none => exact ⟨sound, ⟨rfl, rfl, fun _ _ => rfl, rfl, fun _ _ => rfl, fun _ _ none => none⟩, none⟩
  · next some =>
    have entry := pathEntry_set k (k.slotAddr i) j (v := 0) (by decide) (k.slotAddr i)
    refine ⟨?_, ⟨rfl, rfl, fun e other => set16_block _ _ _ other, ?_, ?_, ?_⟩, ?_⟩
    · exact sound.change (v := 0) used living (by decide)
        (fun f same new => sound.tallied.dropRef (mem_cells few inside) same rfl some new)
    · exact get8_set16_off _ _ _ _ (by unfold Desc.path Desc.state; omega)
    · intro o high
      exact set16_off _ _ _ _ (by unfold Desc.path; unfold Desc.pathCount at inside; omega)
    · intro m _ none
      refine (entry m).trans ?_
      split
      · rfl
      · exact none
    · exact (entry j).trans (if_pos ⟨rfl, rfl⟩)

theorem PathsSound.releasePathsFrom (slots : List Nat) (sound : PathsSound k count spare) (few : i < k.poolCount)
    (used : k.slotAddr i ∉ spare) (living : ¬ k.isZombie (k.slotAddr i)) (inside : ∀ j ∈ slots, j < Desc.pathCount) :
    PathsSound (k.releasePathsFrom (k.slotAddr i) slots) count spare ∧
      Drops (k.slotAddr i) k (k.releasePathsFrom (k.slotAddr i) slots) ∧
      ∀ j ∈ slots, (k.releasePathsFrom (k.slotAddr i) slots).pathEntry (k.slotAddr i) j = 0 := by
  induction slots generalizing k with
  | nil => exact ⟨sound, ⟨rfl, rfl, fun _ _ => rfl, rfl, fun _ _ => rfl, fun _ _ none => none⟩, by simp⟩
  | cons j slots ih =>
    obtain ⟨sound', drops, none⟩ := sound.releasePath few used living (inside j (List.mem_cons_self ..))
    have same := drops.slotAddr i
    obtain ⟨sound'', drops', rest⟩ := ih sound' (by rwa [drops.count]) (by rwa [same])
      (by rw [same]; unfold isZombie; rw [drops.letter]; exact living) (fun m member => inside m (List.mem_cons_of_mem _ member))
    rw [same] at sound'' drops' rest
    rw [Kernel.releasePathsFrom]
    refine ⟨sound'', drops.trans drops', fun m member => ?_⟩
    rcases List.mem_cons.mp member with rfl | later
    · exact drops'.gone m (inside m (List.mem_cons_self ..)) none
    · exact rest m later

end

/-! ### F$Exit and F$Wait -/

section
variable {k k' : Kernel} {count : Nat} {spare : List Nat} {d i : Nat}

/-- The paths of process `p` are gone, those of all others are as before. -/
structure Ended (p : Nat) (k k' : Kernel) : Prop where
  base : k'.poolBase = k.poolBase
  count : k'.poolCount = k.poolCount
  rows : ∀ d, d ≠ p → ∀ j < Desc.pathCount, k'.pathEntry d j = k.pathEntry d j
  bare : k'.Bare p

theorem Ended.same (ended : Ended d k k') {k'' : Kernel} (same : SameRows k' k'') : Ended d k k'' where
  base := same.base.trans ended.base
  count := same.count.trans ended.count
  rows e other j inside := (same.rows e j inside).trans (ended.rows e other j inside)
  bare := same.bare ended.bare

theorem PathsSound.exitRelease (sound : PathsSound k count spare) (few : i < k.poolCount) (used : k.slotAddr i ∉ spare)
    (living : ¬ k.isZombie (k.slotAddr i)) :
    ∃ spare', PathsSound (k.exitRelease (k.slotAddr i)) count spare' ∧ k.slotAddr i ∉ spare' ∧
      Ended (k.slotAddr i) k (k.exitRelease (k.slotAddr i)) := by
  have slot : k.IsSlot (k.slotAddr i) := ⟨i, few, rfl⟩
  have live := slot.pos sound.placed
  have before := (k.releaseModule_steady (k.slotAddr i)).trans ((k.releaseModule (k.slotAddr i)).procReleaseTrapLinks_steady (k.slotAddr i))
  unfold Kernel.exitRelease procReleaseAll procReleasePaths procExitFreeDeadChildren
  generalize ((k.releaseModule (k.slotAddr i)).procReleaseTrapLinks (k.slotAddr i)) = mid at before
  have addr := before.slotAddr i
  obtain ⟨sound', drops, none⟩ := (sound.steady before).releasePathsFrom (List.range Desc.pathCount) (i := i)
    (by rwa [before.count]) (by rwa [addr]) (fun z => living (before.zombies _ (addr ▸ z))) (fun j member => List.mem_range.mp member)
  rw [addr] at sound' drops none
  generalize mid.releasePathsFrom (k.slotAddr i) (List.range Desc.pathCount) = last at sound' drops none
  have memory := last.procReleaseMemory_steady (k.slotAddr i)
  generalize last.procReleaseMemory (k.slotAddr i) = next at memory
  have living' : ¬ next.isZombie (k.slotAddr i) := by
    intro z
    have z' := memory.zombies _ z
    unfold isZombie at z'
    rw [drops.letter] at z'
    exact living (before.zombies _ z')
  obtain ⟨spare', sound'', used', same⟩ := (sound'.steady memory).freeDeadChildrenFrom (List.range next.poolCount)
    (fun j member => List.mem_range.mp member) live used living'
  refine ⟨spare', sound'', used', ?_⟩
  have ended : Ended (k.slotAddr i) k last := by
    refine ⟨drops.base.trans before.base, drops.count.trans before.count, fun e other j inside => ?_, fun j inside => ?_⟩
    · have kept : last.pathEntry e j = mid.pathEntry e j := congrArg (fun m => Mem.getU16 m _) (drops.others e other)
      exact kept.trans (before.pathEntry e inside)
    · exact none j (List.mem_range.mpr inside)
  exact (ended.same memory.sameRows).same same

theorem buryChild_sound (sound : PathsSound k count spare) (bare : k.Bare d) (status : Nat) :
    PathsSound (k.buryChild d status) count spare ∧ (k.buryChild d status).poolBase = k.poolBase ∧
      (k.buryChild d status).poolCount = k.poolCount ∧
      ∀ e, ∀ j < Desc.pathCount, (k.buryChild d status).pathEntry e j = k.pathEntry e j := by
  have agree : Agree UserOff k.desc (k.buryChild d status).desc :=
    (Agree.rfl.set8 d stateZombie (fun x here => by unfold UserOff at here; unfold Desc.state; omega)).set16 d status
      (fun x here => by unfold UserOff at here; unfold Desc.exitStatus; omega)
  have rows : ∀ e, ∀ j < Desc.pathCount, (k.buryChild d status).pathEntry e j = k.pathEntry e j := by
    intro e j inside
    refine agree.get16 e (fun x low high => ?_)
    unfold UserOff
    unfold Desc.path at low high
    unfold Desc.pathCount at inside
    omega
  refine ⟨⟨sound.placed.congr rfl rfl, ?_, ?_, ?_⟩, rfl, rfl, rows⟩
  · exact sound.spares.congr rfl rfl rfl
      (fun e _ => agree.get32 e (fun x _ high => Or.inl (by unfold Desc.id at high; omega)))
      (fun e _ => agree.get32 e (fun x low high => Or.inr (Or.inr (by unfold Desc.parent at low high; omega))))
  · intro e idle j inside
    rw [rows e j inside]
    by_cases own : e = d
    · rw [own]
      exact bare j inside
    · refine sound.bare e (idle.imp id (fun both => ⟨both.1, ?_⟩)) j inside
      have block : (k.buryChild d status).desc e = k.desc e := (set16_block _ _ _ own).trans (set8_block _ _ _ own)
      exact (congrArg (fun m => Mem.getU8 m _) block).symm.trans both.2
  · refine sound.tallied.congr (fun c inside => ?_)
    exact rows _ _ (Finset.mem_range.mp (Finset.mem_product.mp inside).2)

theorem procDebugChildExit_steady (k : Kernel) (child owner status : Nat) :
    Steady k (k.procDebugChildExit child owner status).2 := by
  have first : Steady k { k with desc := k.desc.set16 child Desc.exitStatus status } :=
    Steady.set16 _ _ (fun x here => by unfold UserOff at here; unfold Desc.exitStatus; omega)
  have second := first.trans (Steady.letter (k := { k with desc := k.desc.set16 child Desc.exitStatus status }) child
    (v := stateWaiting) (by decide) (by decide))
  have third := second.trans (Steady.set32 (k := { k with desc := (k.desc.set16 child Desc.exitStatus status).set8 child Desc.state stateWaiting })
    child 0 (o := Desc.dbgInstr) (fun x here => by unfold UserOff at here; unfold Desc.dbgInstr; omega))
  unfold procDebugChildExit
  dsimp only at third ⊢
  split
  · exact third.trans (schedFirstPick_steady _)
  · refine (third.trans ?_).trans (schedFirstPick_steady _)
    refine Steady.trans ?_ (activate_steady _ owner)
    refine Steady.trans ?_ (waitQTake_steady _ owner)
    exact ⟨rfl, rfl, rfl, rfl, Agree.rfl, fun _ z => z⟩

/-- The end of a process that no debugger owns. -/
theorem PathsSound.procExit (sound : PathsSound k count spare) (few : i < k.poolCount) (used : k.slotAddr i ∉ spare)
    (living : ¬ k.isZombie (k.slotAddr i)) (free : k.desc.get32 (k.slotAddr i) Desc.dbgPar = 0) (status : Nat) :
    ∃ spare', PathsSound (k.procExit (k.slotAddr i) status).2 count spare' ∧ Ended (k.slotAddr i) k (k.procExit (k.slotAddr i) status).2 := by
  obtain ⟨spare', sound', used', ended⟩ := sound.exitRelease few used living
  unfold Kernel.procExit
  rw [if_neg (not_not.mpr free)]
  dsimp only
  generalize k.desc.get32 (k.slotAddr i) Desc.parent = parent
  generalize k.exitRelease (k.slotAddr i) = mid at sound' ended
  have slot : mid.IsSlot (k.slotAddr i) := (isSlot_congr ended.base ended.count).mpr ⟨i, few, rfl⟩
  split
  · unfold deliverExit
    dsimp only
    have woken : Steady mid (((((mid.waitQTake parent).setReg (mid.desc.get32 parent Desc.savedSp) 0 (mid.slotPid (k.slotAddr i))).setReg
        (mid.desc.get32 parent Desc.savedSp) 1 status)).activate parent) :=
      (((waitQTake_steady _ _).trans (setReg_steady _ _ _ _)).trans (setReg_steady _ _ _ _)).trans (activate_steady _ _)
    obtain ⟨freed, same⟩ := (sound'.steady woken).procPoolFree ((woken.isSlot _).mpr slot) used' (woken.bare ended.bare)
    have picked := schedFirstPick_steady (((((mid.waitQTake parent).setReg (mid.desc.get32 parent Desc.savedSp) 0
      (mid.slotPid (k.slotAddr i))).setReg (mid.desc.get32 parent Desc.savedSp) 1 status).activate parent).procPoolFree (k.slotAddr i))
    exact ⟨_, freed.steady picked, ((ended.same woken.sameRows).same same).same picked.sameRows⟩
  · obtain ⟨buried, base, poolCount, rows⟩ := buryChild_sound sound' ended.bare status
    have picked := schedFirstPick_steady (mid.buryChild (k.slotAddr i) status)
    refine ⟨_, buried.steady picked, picked.base.trans (base.trans ended.base), picked.count.trans (poolCount.trans ended.count), ?_, ?_⟩
    · intro e other j inside
      exact (picked.pathEntry e inside).trans ((rows e j inside).trans (ended.rows e other j inside))
    · intro j inside
      exact (picked.pathEntry _ inside).trans ((rows _ j inside).trans (ended.bare j inside))

theorem findDeadChild_some {caller : Nat} (slots : List Nat) (found : (k.findDeadChild caller slots).1 = some i) :
    i ∈ slots ∧ k.desc.get32 (k.slotAddr i) Desc.parent = caller ∧ k.isZombie (k.slotAddr i) := by
  induction slots with
  | nil => cases found
  | cons j slots ih =>
    rw [findDeadChild] at found
    split_ifs at found with other zombie
    · obtain ⟨member, rest⟩ := ih found
      exact ⟨List.mem_cons_of_mem _ member, rest⟩
    · obtain rfl := Option.some.inj found
      exact ⟨List.mem_cons_self .., not_not.mp other, zombie⟩
    · obtain ⟨member, rest⟩ := ih found
      exact ⟨List.mem_cons_of_mem _ member, rest⟩

theorem PathsSound.procWaitTryReap (sound : PathsSound k count spare) {caller : Nat} (live : caller ≠ 0) :
    ∃ spare', PathsSound (k.procWaitTryReap caller).2 count spare' ∧ SameRows k (k.procWaitTryReap caller).2 := by
  unfold Kernel.procWaitTryReap
  split
  · next i _ found =>
    obtain ⟨member, parent, zombie⟩ := findDeadChild_some _ (congrArg Prod.fst found)
    have slot : k.IsSlot (k.slotAddr i) := ⟨i, List.mem_range.mp member, rfl⟩
    have fresh : k.slotAddr i ∉ spare := fun free => live (parent.symm.trans (sound.spares.orphans _ free))
    exact ⟨_, sound.procPoolFree slot fresh (sound.bare _ (Or.inr ⟨slot, zombie⟩))⟩
  · exact ⟨spare, sound, Steady.rfl.sameRows⟩
  · exact ⟨spare, sound, Steady.rfl.sameRows⟩

theorem waitFrame_steady (k : Kernel) (sp : Nat) : Steady k (k.waitFrame sp) := by
  unfold waitFrame
  dsimp only
  refine Steady.trans ?_ (saveSp_steady _ sp)
  exact ⟨rfl, rfl, rfl, rfl, Agree.rfl, fun _ z => z⟩

theorem waitBlock_steady (k : Kernel) (sp : Nat) : Steady k (k.waitBlock sp) := by
  have lettered := (waitFrame_steady k sp).trans (Steady.letter (k := k.waitFrame sp) k.proc (v := stateWaiting) (by decide) (by decide))
  have queued := lettered.trans (Steady.links (k := { k.waitFrame sp with desc := (k.waitFrame sp).desc.set8 k.proc Desc.state stateWaiting })
    (listAppend_agree ((k.waitFrame sp).desc.set8 k.proc Desc.state stateWaiting) waitQ k.proc))
  exact switchTo_steady (queued.trans (schedFirstPick_steady _))

theorem procWaitDeliver_steady (k : Kernel) : Steady k k.procWaitDeliver.2 := by
  have queued : Steady k { k with desc := schedInsert k.desc k.proc } := Steady.queue (schedInsert_agree _ _)
  unfold procWaitDeliver
  dsimp only
  split
  · exact (queued.trans (icptDeliver_steady _ _ _)).trans (schedFirstPick_steady _)
  · exact queued.trans (schedFirstPick_steady _)

theorem waitSignalPending_steady (k : Kernel) (desc : Nat) : Steady k (k.waitSignalPending desc).2 := by
  unfold waitSignalPending
  split
  · exact Steady.rfl
  · exact Steady.set8 _ _ (fun x here => by unfold UserOff at here; unfold Desc.sigLvl; omega)

theorem PathsSound.sysWait (sound : PathsSound k count spare) (live : k.proc ≠ 0) (sp : Nat) :
    ∃ spare', PathsSound (k.sysWait sp).2 count spare' ∧ SameRows k (k.sysWait sp).2 := by
  obtain ⟨spare', sound', same⟩ := sound.procWaitTryReap live
  have onward : ∀ {mid : Kernel}, (k.procWaitTryReap k.proc).2 = mid → ∀ {last : Kernel}, Steady mid last →
      ∃ spare', PathsSound last count spare' ∧ SameRows k last := by
    rintro _ rfl last steady
    exact ⟨spare', sound'.steady steady, same.trans steady.sameRows⟩
  unfold Kernel.sysWait
  split
  · next found => exact onward (congrArg Prod.snd found) Steady.rfl
  · next found => exact onward (congrArg Prod.snd found) Steady.rfl
  · next mid found =>
    have pending := waitSignalPending_steady mid mid.proc
    split
    · next last answer =>
      have pending' : Steady mid last := by rwa [answer] at pending
      split
      · refine onward (congrArg Prod.snd found) (pending'.trans (switchTo_steady ?_))
        exact (waitFrame_steady _ sp).trans (procWaitDeliver_steady _)
      · exact onward (congrArg Prod.snd found) pending'
    · next last answer =>
      have pending' : Steady mid last := by rwa [answer] at pending
      exact onward (congrArg Prod.snd found) (pending'.trans (waitBlock_steady _ sp))

end

/-! ### I$Open and I$Close -/

section
variable {k k' : Kernel} {count : Nat} {spare : List Nat} {d i : Nat}

theorem freePathIndex_some {n : Nat} (found : k.freePathIndex d = some n) : 3 ≤ n ∧ n < Desc.pathCount ∧ k.pathEntry d n = 0 := by
  have member := List.mem_of_find?_eq_some found
  have empty := List.find?_some found
  rw [List.mem_range'_1] at member
  exact ⟨member.1, by simpa [Desc.pathCount] using member.2, by simpa using empty⟩

/-- What an open leaves behind: a failed one nothing, the other one path number. -/
structure Opened (p : Nat) (k : Kernel) (r : Except Nat Nat × Kernel) : Prop where
  base : r.2.poolBase = k.poolBase
  count : r.2.poolCount = k.poolCount
  failed : ∀ code, r.1 = .error code → ∀ d j, r.2.pathEntry d j = k.pathEntry d j
  done : ∀ n, r.1 = .ok n → n < Desc.pathCount ∧ r.2.pathEntry p n ≠ 0 ∧
    ∀ d j, ¬ (d = p ∧ j = n) → r.2.pathEntry d j = k.pathEntry d j

theorem PathsSound.openObject (sound : PathsSound k count spare) (few : i < k.poolCount) (used : k.slotAddr i ∉ spare)
    (living : ¬ k.isZombie (k.slotAddr i)) (proc : k.proc = k.slotAddr i) (mode : Nat) (kind : NativePath.Kind)
    (object : NativePath.Object) : PathsSound (k.openObject mode kind object).2 count spare ∧
      Opened k.proc k (k.openObject mode kind object) := by
  have live : k.proc ≠ 0 := proc ▸ IsSlot.pos sound.placed ⟨i, few, rfl⟩
  unfold Kernel.openObject
  dsimp only
  split
  · exact ⟨sound, rfl, rfl, fun _ _ _ _ => rfl, fun n done => by cases done⟩
  · next some =>
    have taken : k.paths.free ≠ 0 := by
      intro none
      unfold PathPool.pathPoolAlloc at some
      rw [if_pos none] at some
      exact some rfl
    have head : k.paths.pathPoolAlloc.1 = k.paths.free := congrArg Prod.fst (if_neg taken)
    split
    · refine ⟨⟨sound.placed.congr rfl rfl, sound.spares.congr rfl rfl rfl (fun _ _ => rfl) (fun _ _ => rfl), sound.bare, ?_⟩, rfl, rfl,
        fun _ _ _ _ => rfl, fun n done => by cases done⟩
      rw [head]
      exact sound.tallied.restored taken
    · next n found =>
      obtain ⟨low, inside, empty⟩ := freePathIndex_some found
      obtain ⟨m, here, place, unused⟩ := sound.tallied.head taken
      have base : k.paths.pathPoolAlloc.2.base = k.paths.base := by
        unfold PathPool.pathPoolAlloc
        rw [if_neg taken]
      have number : (k.paths.pathPoolAlloc.1 - k.paths.pathPoolAlloc.2.base) / PathPool.descSize + 3 = m := by
        have pos := here.1
        rw [head, base, place]
        unfold PathPool.descAddr PathPool.descSize
        omega
      have fits : m < 65536 := by
        have high := here.2
        have fewer := sound.tallied.few
        omega
      rw [number, head]
      have entry := pathEntry_set k k.proc n (v := m) fits
      refine ⟨?_, rfl, rfl, fun code failed => (by cases failed), ?_⟩
      · rw [proc] at empty
        have filled := sound.change (j := n) (v := m) used living fits
          (fun f same new => sound.tallied.enter (mem_cells few inside) same empty new low taken here place unused
            kind.code object.code mode)
        rwa [← proc] at filled
      · rintro m' done
        obtain rfl := Except.ok.inj done
        refine ⟨inside, fun zero => ?_, fun d j other => (entry d j).trans (if_neg other)⟩
        have value : 0 = m := zero.symm.trans ((entry k.proc n).trans (if_pos ⟨rfl, rfl⟩))
        have pos := here.1
        omega

theorem PathsSound.procIOpen (sound : PathsSound k count spare) (few : i < k.poolCount) (used : k.slotAddr i ∉ spare)
    (living : ¬ k.isZombie (k.slotAddr i)) (proc : k.proc = k.slotAddr i) (mode pathnamePtr : Nat) :
    PathsSound (k.procIOpen mode pathnamePtr).2.2 count spare ∧
      Opened k.proc k ((k.procIOpen mode pathnamePtr).1, (k.procIOpen mode pathnamePtr).2.2) := by
  have unchanged : ∀ code, PathsSound k count spare ∧ Opened k.proc k (.error code, k) :=
    fun code => ⟨sound, rfl, rfl, fun _ _ _ _ => rfl, fun n done => by cases done⟩
  unfold Kernel.procIOpen
  split
  · exact unchanged _
  · split
    · exact unchanged _
    · exact sound.openObject few used living proc mode _ _

/-- The descriptor of a path number in use. -/
theorem PathsSound.procPathDesc_ok (sound : PathsSound k count spare) (few : i < k.poolCount) (proc : k.proc = k.slotAddr i) {n a : Nat} :
    k.procPathDesc n = .ok a ↔ n < Desc.pathCount ∧ k.pathEntry k.proc n ≠ 0 ∧ a = k.paths.descAddr (k.pathEntry k.proc n) := by
  have live : k.proc ≠ 0 := proc ▸ IsSlot.pos sound.placed ⟨i, few, rfl⟩
  have base : k.paths.base ≠ 0 := by have := sound.tallied.placed.base; omega
  constructor
  · intro ok
    unfold procPathDesc at ok
    dsimp only at ok
    split_ifs at ok with range low
    obtain rfl := Except.ok.inj ok
    refine ⟨by omega, by omega, rfl⟩
  · rintro ⟨inside, some, rfl⟩
    have cell : k.cell (i, n) = k.pathEntry k.proc n := by rw [proc]; rfl
    obtain ⟨low, here⟩ := sound.tallied.entries (i, n) (mem_cells few inside) (cell ▸ some)
    have held := holders_pos (f := k.cell) (mem_cells few inside) cell
    rw [cell] at here
    have number := sound.tallied.nums _ here (by omega)
    unfold procPathDesc
    dsimp only at low ⊢
    have pos := here.1
    rw [if_neg (by omega), if_neg live, if_neg (by omega), if_neg base, if_neg (not_not.mpr number)]

theorem PathsSound.procNativeClose (sound : PathsSound k count spare) (few : i < k.poolCount) (used : k.slotAddr i ∉ spare)
    (living : ¬ k.isZombie (k.slotAddr i)) (proc : k.proc = k.slotAddr i) (n : Nat) :
    PathsSound (k.procNativeClose n).2 count spare ∧ (k.procNativeClose n).2.poolBase = k.poolBase ∧
      (k.procNativeClose n).2.poolCount = k.poolCount ∧
      (∀ code, (k.procNativeClose n).1 = .error code → ∀ d j, (k.procNativeClose n).2.pathEntry d j = k.pathEntry d j) ∧
      ∀ done, (k.procNativeClose n).1 = .ok done → ∀ d j, (k.procNativeClose n).2.pathEntry d j =
        if d = k.proc ∧ j = n then 0 else k.pathEntry d j := by
  have live : k.proc ≠ 0 := proc ▸ IsSlot.pos sound.placed ⟨i, few, rfl⟩
  cases found : k.procPathDesc n with
  | error code =>
    have same : k.procNativeClose n = (.error code, k) := by
      unfold Kernel.procNativeClose
      rw [found]
    rw [same]
    exact ⟨sound, rfl, rfl, fun _ _ _ _ => rfl, fun done ok => by cases ok⟩
  | ok a =>
    obtain ⟨inside, some, rfl⟩ := (sound.procPathDesc_ok few proc).mp found
    have cell : k.cell (i, n) = k.pathEntry k.proc n := by rw [proc]; rfl
    obtain ⟨here, users⟩ := sound.tallied.used (mem_cells few inside) (cell ▸ some)
    rw [cell] at here users
    have number := sound.tallied.nums _ here (by omega)
    have refs := sound.tallied.refs _ here
    have fewer := sound.tallied.few
    obtain ⟨low, high⟩ := here
    have dropped : k.procNativeClose n = (.ok (), { k.setPathEntry k.proc n 0 with paths := k.paths.dropRef (k.pathEntry k.proc n) }) := by
      have busy : ¬ (k.pathEntry k.proc n < 3 ∨ k.paths.refs (k.pathEntry k.proc n) = 0) := by omega
      unfold Kernel.procNativeClose
      rw [found, PathPool.dropRef_eq low (by omega)]
      dsimp only
      rw [if_neg live, number]
      exact if_neg busy
    rw [dropped]
    have entry := pathEntry_set k k.proc n (v := 0) (by decide)
    refine ⟨?_, rfl, rfl, fun code failed => (by cases failed), fun _ _ d j => entry d j⟩
    rw [proc] at cell some ⊢
    exact sound.change (v := 0) used living (by decide)
      (fun f same new => sound.tallied.dropRef (mem_cells few inside) same cell some new)

end

/-! ### F$Fork -/

section
variable {k k' : Kernel} {count : Nat} {spare : List Nat} {d i : Nat}

/-- Path numbers `slots` of `child` become those of `parent` below `inherit`. -/
structure Inherits (child parent inherit : Nat) (slots : List Nat) (k k' : Kernel) : Prop where
  base : k'.poolBase = k.poolBase
  count : k'.poolCount = k.poolCount
  letters : ∀ d, k'.isZombie d ↔ k.isZombie d
  copied : ∀ j ∈ slots, k'.pathEntry child j = if j < inherit then k.pathEntry parent j else 0
  others : ∀ d j, ¬ (d = child ∧ j ∈ slots) → k'.pathEntry d j = k.pathEntry d j

theorem PathsSound.inheritPath (sound : PathsSound k count spare) {c p j : Nat} (few : c < k.poolCount) (few' : p < k.poolCount)
    (used : k.slotAddr c ∉ spare) (living : ¬ k.isZombie (k.slotAddr c)) (inside : j < Desc.pathCount)
    (empty : k.pathEntry (k.slotAddr c) j = 0) (other : c ≠ p)
    (copied : ∀ m < Desc.pathCount, k.pathEntry (k.slotAddr c) m = 0 ∨ k.pathEntry (k.slotAddr c) m = k.pathEntry (k.slotAddr p) m)
    (inherit : Nat) : PathsSound (k.inheritPath (k.slotAddr c) (k.slotAddr p) inherit j) count spare ∧
      Inherits (k.slotAddr c) (k.slotAddr p) inherit [j] k (k.inheritPath (k.slotAddr c) (k.slotAddr p) inherit j) := by
  unfold Kernel.inheritPath
  dsimp only
  have same : k.desc.get16 (k.slotAddr p) (Desc.path + j * 2) = k.pathEntry (k.slotAddr p) j := rfl
  rw [same]
  generalize given : (if j < inherit then k.pathEntry (k.slotAddr p) j else 0) = v
  have fits : v < 65536 := by
    rw [← given]
    split
    · exact Heap.get16_lt _ _ _
    · decide
  have entry := pathEntry_set k (k.slotAddr c) j (v := v) fits
  refine ⟨?_, rfl, rfl, fun d => ?_, fun m member => ?_, fun d m away => ?_⟩
  · refine sound.change used living fits (fun f rest new => ?_)
    by_cases none : v = 0
    · have still : k.paths.addRef v = k.paths := by
        unfold PathPool.addRef
        rw [none, if_neg (by decide), if_neg (by decide)]
      rw [still]
      refine sound.tallied.congr (fun x member => ?_)
      by_cases own : x = (c, j)
      · rw [own, new, none]
        exact empty.symm
      · exact rest x member own
    · have held : k.pathEntry (k.slotAddr p) j = v := by
        split at given
        · exact given
        · exact absurd given.symm none
      have cell : k.cell (p, j) = v := held
      obtain ⟨low, here⟩ := sound.tallied.entries (p, j) (mem_cells few' inside) (by rw [cell]; exact none)
      rw [cell] at here
      have users := holders_pos (mem_cells few' inside) cell
      refine sound.tallied.addRef (rows_le sound.placed) (mem_cells few inside) rest empty new low here users ?_
      rintro ⟨x, m⟩ member row value
      obtain rfl : x = c := row
      have few'' : m < Desc.pathCount := Finset.mem_range.mp (Finset.mem_product.mp member).2
      have value' : k.pathEntry (k.slotAddr x) m = v := value
      rcases copied m few'' with zero | equal
      · exact none (value'.symm.trans zero)
      · have twice := sound.tallied.apart (p, m) (mem_cells few' few'') (p, j) (mem_cells few' inside) rfl
          ((equal.symm.trans value').trans cell.symm) (fun zero => none ((equal.symm.trans value').symm.trans zero).symm.symm)
        obtain rfl := congrArg Prod.snd twice
        exact none (value'.symm.trans empty)
  · unfold isZombie
    have letter : (k.desc.set16 (k.slotAddr c) (Desc.path + j * 2) v).get8 d Desc.state = k.desc.get8 d Desc.state :=
      get8_set16_off _ _ _ _ (by unfold Desc.path Desc.state; omega)
    rw [letter]
  · obtain rfl := List.mem_singleton.mp member
    exact (entry _ _).trans ((if_pos ⟨rfl, rfl⟩).trans given.symm)
  · exact (entry d m).trans (if_neg (fun here => away ⟨here.1, List.mem_singleton.mpr here.2⟩))

theorem PathsSound.inheritPaths (slots : List Nat) (sound : PathsSound k count spare) {c p : Nat} (few : c < k.poolCount)
    (few' : p < k.poolCount) (used : k.slotAddr c ∉ spare) (living : ¬ k.isZombie (k.slotAddr c)) (other : c ≠ p)
    (inside : ∀ j ∈ slots, j < Desc.pathCount) (once : slots.Nodup) (empty : ∀ j ∈ slots, k.pathEntry (k.slotAddr c) j = 0)
    (copied : ∀ m < Desc.pathCount, k.pathEntry (k.slotAddr c) m = 0 ∨ k.pathEntry (k.slotAddr c) m = k.pathEntry (k.slotAddr p) m)
    (inherit : Nat) : PathsSound (k.inheritPaths (k.slotAddr c) (k.slotAddr p) inherit slots) count spare ∧
      Inherits (k.slotAddr c) (k.slotAddr p) inherit slots k (k.inheritPaths (k.slotAddr c) (k.slotAddr p) inherit slots) := by
  induction slots generalizing k with
  | nil => exact ⟨sound, rfl, rfl, fun _ => Iff.rfl, fun j member => (by cases member), fun _ _ _ => rfl⟩
  | cons j slots ih =>
    obtain ⟨fresh, once'⟩ := List.nodup_cons.mp once
    obtain ⟨sound', step⟩ := sound.inheritPath few few' used living (inside j (List.mem_cons_self ..))
      (empty j (List.mem_cons_self ..)) other copied inherit
    have addr : ∀ x, (k.inheritPath (k.slotAddr c) (k.slotAddr p) inherit j).slotAddr x = k.slotAddr x := fun _ => rfl
    have apart : k.slotAddr p ≠ k.slotAddr c := fun equal => other (slotAddr_inj equal).symm
    have parent : ∀ m, (k.inheritPath (k.slotAddr c) (k.slotAddr p) inherit j).pathEntry (k.slotAddr p) m =
        k.pathEntry (k.slotAddr p) m :=
      fun m => step.others _ m (fun both => apart both.1)
    have child : ∀ m, m ≠ j → (k.inheritPath (k.slotAddr c) (k.slotAddr p) inherit j).pathEntry (k.slotAddr c) m =
        k.pathEntry (k.slotAddr c) m :=
      fun m differ => step.others _ m (fun both => differ (List.mem_singleton.mp both.2))
    have different : ∀ m ∈ slots, m ≠ j := fun m member equal => fresh (equal ▸ member)
    obtain ⟨sound'', rest⟩ := ih sound' few few' used (fun z => living ((step.letters _).mp z))
      (fun m member => inside m (List.mem_cons_of_mem _ member)) once'
      (fun m member => (child m (different m member)).trans (empty m (List.mem_cons_of_mem _ member)))
      (fun m few'' => by
        rw [addr, addr, parent m]
        by_cases here : m = j
        · rw [here, step.copied j (List.mem_singleton.mpr rfl)]
          split
          · exact Or.inr rfl
          · exact Or.inl rfl
        · rw [child m here]
          exact copied m few'')
    rw [addr, addr] at sound'' rest
    rw [Kernel.inheritPaths]
    refine ⟨sound'', rest.base.trans step.base, rest.count.trans step.count, fun d => (rest.letters d).trans (step.letters d),
      fun m member => ?_, fun d m away => ?_⟩
    · rcases List.mem_cons.mp member with rfl | later
      · rw [rest.others _ m (fun both => fresh both.2)]
        exact step.copied m (List.mem_singleton.mpr rfl)
      · rw [rest.copied m later, parent m]
    · rw [rest.others d m (fun both => away ⟨both.1, List.mem_cons_of_mem _ both.2⟩)]
      refine step.others d m (fun both => away ⟨both.1, ?_⟩)
      rw [List.mem_singleton.mp both.2]
      exact List.mem_cons_self ..

theorem copyDio_steady (desc parent : Nat) (slots : List Nat) (few : ∀ i ∈ slots, i < Desc.dioSize) (k : Kernel) :
    Steady k { k with desc := copyDio k.desc desc parent slots } := by
  induction slots generalizing k with
  | nil => exact Steady.rfl
  | cons i slots ih =>
    have bound := few i (List.mem_cons_self ..)
    unfold Desc.dioSize at bound
    have one : Steady k { k with desc := k.desc.set8 desc (Desc.dio + i) (k.desc.get8 parent (Desc.dio + i)) } :=
      Steady.set8 _ _ (fun x here => by unfold UserOff at here; unfold Desc.dio; omega)
    exact one.trans (ih (fun j member => few j (List.mem_cons_of_mem _ member)) _)

theorem setImage_steady (k : Kernel) (desc modHdr block size frame entryPc : Nat) :
    Steady k { k with desc := setImage k.desc desc modHdr block size frame entryPc } := by
  refine Steady.kept ?_
  refine ((((Agree.rfl.set32 _ _ ?_).set32 _ _ ?_).set32 _ _ ?_).set32 _ _ ?_).set32 _ _ ?_ <;>
    · intro x here
      unfold UserOff at here
      simp only [Desc.modHdr, Desc.allocBase, Desc.allocSize, Desc.savedSp, Desc.entryPc]
      omega

end

section
variable {k k' : Kernel} {count : Nat} {spare : List Nat} {d i : Nat}

/-- What a fork writes into a slot before it fills the path table. -/
def forkHeap (k : Kernel) (args : ForkArgs) (desc : Nat) : Heap :=
  let h := (k.nameProc desc stateActive).desc.set8 desc Desc.priority (k.forkPriority args.priority)
  let h := h.set32 desc Desc.parent k.proc
  h.set32 desc Desc.user (h.get32 k.proc Desc.user)

theorem forkDesc_eq (live : k.proc ≠ 0) (args : ForkArgs) (image : Image) (desc frame : Nat) :
    k.forkDesc args image desc frame =
      let shared := Kernel.shareFiles { k with desc := k.forkHeap args desc } desc k.proc args.numPaths
      { shared with desc := setImage shared.desc desc image.hdr image.block image.size frame image.entryPc } := by
  unfold forkDesc
  dsimp only
  rw [if_pos live]
  exact congrArg (fun shared : Kernel =>
    { shared with desc := setImage shared.desc desc image.hdr image.block image.size frame image.entryPc }) (if_pos live)

/-- A slot that was free becomes a child of the running process. -/
theorem PathsSound.forkDesc (sound : PathsSound k count spare) {c : Nat} (few : c < k.poolCount) (few' : i < k.poolCount)
    (fresh : k.slotAddr c ∉ spare) (bare : k.Bare (k.slotAddr c)) (other : c ≠ i) (proc : k.proc = k.slotAddr i)
    (args : ForkArgs) (image : Image) (frame : Nat) :
    PathsSound (k.forkDesc args image (k.slotAddr c) frame) count spare ∧
      (k.forkDesc args image (k.slotAddr c) frame).poolBase = k.poolBase ∧
      (k.forkDesc args image (k.slotAddr c) frame).poolCount = k.poolCount ∧
      ∀ d, ∀ j < Desc.pathCount, (k.forkDesc args image (k.slotAddr c) frame).pathEntry d j =
        if d = k.slotAddr c then (if j < args.numPaths then k.pathEntry k.proc j else 0) else k.pathEntry d j := by
  have live : k.proc ≠ 0 := proc ▸ IsSlot.pos sound.placed ⟨i, few', rfl⟩
  rw [forkDesc_eq live]
  have others : ∀ e, e ≠ k.slotAddr c → k.forkHeap args (k.slotAddr c) e = k.desc e := by
    intro e away
    unfold forkHeap nameProc
    dsimp only
    rw [set32_block _ _ _ away, set32_block _ _ _ away, set8_block _ _ _ away, set16_block _ _ _ away, set8_block _ _ _ away]
  have rows : ∀ j < Desc.pathCount, (k.forkHeap args (k.slotAddr c)).get16 (k.slotAddr c) (Desc.path + j * 2) =
      k.pathEntry (k.slotAddr c) j := by
    intro j inside
    unfold Desc.pathCount at inside
    unfold forkHeap nameProc pathEntry
    dsimp only
    rw [get16_set32_off, get16_set32_off, get16_set8_off, get16_set16_off, get16_set8_off] <;>
      · simp only [Desc.path, Desc.user, Desc.parent, Desc.priority, Desc.id, Desc.state]
        omega
  have letter : (k.forkHeap args (k.slotAddr c)).get8 (k.slotAddr c) Desc.state = stateActive := by
    unfold forkHeap nameProc
    dsimp only
    rw [get8_set32_off _ _ _ _ (by decide), get8_set32_off _ _ _ _ (by decide), get8_set8_off _ _ _ _ (by decide),
      get8_set16_off _ _ _ _ (by decide), get8_set8]
    rfl
  obtain ⟨sound', same⟩ := sound.own fresh others rows (fun z => absurd (letter.symm.trans z) (by decide))
  have empty := same.bare bare
  have parent : ∀ j < Desc.pathCount, Kernel.pathEntry { k with desc := k.forkHeap args (k.slotAddr c) } k.proc j = k.pathEntry k.proc j :=
    same.rows _
  have others' : ∀ e, ∀ j < Desc.pathCount, Kernel.pathEntry { k with desc := k.forkHeap args (k.slotAddr c) } e j = k.pathEntry e j :=
    same.rows
  have inherited := PathsSound.inheritPaths (List.range Desc.pathCount) sound' (c := c) (p := i) few few' fresh
    (fun z => absurd (letter.symm.trans z) (by decide)) other
    (fun j member => List.mem_range.mp member) List.nodup_range (fun j member => empty j (List.mem_range.mp member))
    (fun m inside => Or.inl (empty m inside)) (min args.numPaths Desc.pathCount)
  have addr : ∀ x, Kernel.slotAddr { k with desc := k.forkHeap args (k.slotAddr c) } x = k.slotAddr x := fun _ => rfl
  rw [addr, addr, ← proc] at inherited
  obtain ⟨sound'', inherits⟩ := inherited
  unfold shareFiles
  dsimp only
  generalize Kernel.inheritPaths { k with desc := k.forkHeap args (k.slotAddr c) } (k.slotAddr c) k.proc
    (min args.numPaths Desc.pathCount) (List.range Desc.pathCount) = mid at sound'' inherits
  have dio := copyDio_steady (k.slotAddr c) k.proc (List.range Desc.dioSize) (fun j member => List.mem_range.mp member) mid
  have imaged := dio.trans (setImage_steady { mid with desc := copyDio mid.desc (k.slotAddr c) k.proc (List.range Desc.dioSize) }
    (k.slotAddr c) image.hdr image.block image.size frame image.entryPc)
  refine ⟨sound''.steady imaged, inherits.base, inherits.count, fun e j inside => ?_⟩
  refine (imaged.pathEntry e inside).trans ?_
  by_cases own : e = k.slotAddr c
  · rw [if_pos own, own, inherits.copied j (List.mem_range.mpr inside), parent j inside]
    by_cases low : j < args.numPaths
    · rw [if_pos (by omega), if_pos low]
    · rw [if_neg (by omega), if_neg low]
  · rw [if_neg own, inherits.others e j (fun both => own both.1)]
    exact others' e j inside

/-- The path numbers of a child. -/
structure Forked (p numPaths : Nat) (k k' : Kernel) (child : Nat) : Prop where
  base : k'.poolBase = k.poolBase
  count : k'.poolCount = k.poolCount
  slot : k.IsSlot child
  bare : k.Bare child
  rows : ∀ d, ∀ j < Desc.pathCount, k'.pathEntry d j =
    if d = child then (if j < numPaths then k.pathEntry p j else 0) else k.pathEntry d j

theorem PathsSound.procFork (sound : PathsSound k count spare) (few : i < k.poolCount) (used : k.slotAddr i ∉ spare)
    (proc : k.proc = k.slotAddr i) (args : ForkArgs) :
    (∃ spare', PathsSound (k.procFork args).2 count spare') ∧
      (∀ code, (k.procFork args).1 = .error code → SameRows k (k.procFork args).2) ∧
      ∀ pid, (k.procFork args).1 = .ok pid → Forked k.proc args.numPaths k (k.procFork args).2 (k.slotAddr (pid - 1)) := by
  have stored : ∀ store : ModDir × Mem, Steady k (k.setStore store) := fun _ => ⟨rfl, rfl, rfl, rfl, Agree.rfl, fun _ z => z⟩
  have failed : ∀ (code : Nat) (k' : Kernel), Steady k k' → k.procFork args = (.error code, k') →
      (∃ spare', PathsSound (k.procFork args).2 count spare') ∧
      (∀ code, (k.procFork args).1 = .error code → SameRows k (k.procFork args).2) ∧
      ∀ pid, (k.procFork args).1 = .ok pid → Forked k.proc args.numPaths k (k.procFork args).2 (k.slotAddr (pid - 1)) := by
    intro code k' steady equal
    rw [equal]
    exact ⟨⟨spare, sound.steady steady⟩, fun _ _ => steady.sameRows, fun pid ok => by cases ok⟩
  cases loaded : (forkImage k.mods k.ram args).1 with
  | error code =>
    refine failed code _ (stored (forkImage k.mods k.ram args).2) ?_
    unfold Kernel.procFork forkLoaded
    rw [loaded]
  | ok image =>
    by_cases full : k.poolFree = 0
    · refine failed ePrcFul (k.setStore (dropImage (forkImage k.mods k.ram args).2.1 (forkImage k.mods k.ram args).2.2 image))
        (stored _) ?_
      unfold Kernel.procFork forkLoaded
      rw [loaded]
      dsimp only
      unfold forkSlot
      rw [procPoolAlloc_none (k.setStore (forkImage k.mods k.ram args).2) full]
      rfl
    · rw [procFork_image loaded full]
      obtain ⟨rest, split, fresh, slot, popped⟩ := sound.spares.pop full
      have bare := sound.bare k.poolFree (Or.inl (split ▸ List.mem_cons_self ..))
      have sound' : PathsSound k.popSlot count rest := by
        refine ⟨sound.placed.congr rfl rfl, popped, fun e idle => sound.bare e ?_, sound.tallied⟩
        exact idle.imp (fun free => split ▸ List.mem_cons_of_mem _ free) id
      generalize (forkImage k.mods k.ram args).2 = store
      obtain ⟨c, fewC, place⟩ := id slot
      have apart : c ≠ i := by
        rintro rfl
        rw [split, ← place] at used
        exact used (List.mem_cons_self ..)
      have onStack : Steady k.popSlot { (k.setStore store).popSlot with ram := ((k.setStore store).popSlot.forkStack args image k.poolFree).2 } :=
        ⟨rfl, rfl, rfl, rfl, Agree.rfl, fun _ z => z⟩
      have filled := PathsSound.forkDesc (sound'.steady onStack) (c := c) (i := i) fewC few (by rw [place] at fresh; exact fresh)
        (onStack.bare (by rw [place] at bare; exact bare)) apart proc args image ((k.setStore store).popSlot.forkStack args image k.poolFree).1
      have addr : Kernel.slotAddr { (k.setStore store).popSlot with ram := ((k.setStore store).popSlot.forkStack args image k.poolFree).2 } c =
          k.poolFree := place.symm
      rw [addr] at filled
      obtain ⟨sound'', base, poolCount, rows⟩ := filled
      have queued : Steady _ ((k.setStore store).popSlot.forkInto args image k.poolFree) := Steady.queue (schedInsert_agree _ _)
      refine ⟨⟨rest, sound''.steady queued⟩, fun code failed => (by cases failed), fun pid ok => ?_⟩
      obtain rfl := Except.ok.inj ok
      rw [slotAddr_slotPid slot]
      refine ⟨queued.base.trans base, queued.count.trans poolCount, slot, bare, fun e j inside => ?_⟩
      exact (queued.pathEntry e inside).trans (rows e j inside)

end

end Kernel

end Q9OS

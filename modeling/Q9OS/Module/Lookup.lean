import Mathlib.Tactic
import Q9OS.Lib.Chain
import Q9OS.Module.Directory

/-!
# Module lookup

`Q9K_ModDirFindSlotByName` of `q9kernel_moddir.c` with both of its modes: F$Link
takes the highest revision, F$FModul the first match.
-/

namespace Q9OS

namespace ModDir

def searchWalk (d : ModDir) (m : Mem) (desired name : Nat) (highestRevision : Bool) : Nat → Nat → Nat → Nat → Nat
  | 0, slot, best, _ => if slot = 0 then best else 0
  | fuel + 1, slot, best, bestRevision =>
    if slot = 0 then best
    else
      let revision := m.getU8 (d.entries.get32 slot hdrPtr + Mh.revision)
      let after := d.entries.get32 slot next
      if d.slotMatches m desired name slot then
        if !highestRevision then slot
        else if best = 0 ∨ revision > bestRevision then searchWalk d m desired name highestRevision fuel after slot revision
        else searchWalk d m desired name highestRevision fuel after best bestRevision
      else searchWalk d m desired name highestRevision fuel after best bestRevision

def findSlot (d : ModDir) (m : Mem) (desired name : Nat) (highestRevision : Bool) : Nat :=
  searchWalk d m desired name highestRevision searchMax d.head 0 0

theorem searchWalk_highest (d : ModDir) (m : Mem) (desired name fuel slot best bestRevision : Nat) :
    searchWalk d m desired name true fuel slot best bestRevision = findWalk d m desired name fuel slot best bestRevision := by
  induction fuel generalizing slot best bestRevision with
  | zero => rfl
  | succ fuel ih =>
    simp only [searchWalk, findWalk, ih]
    split
    · rfl
    · cases d.slotMatches m desired name slot <;> simp

/-- F$Link and F$UnLoad look for the highest revision. -/
theorem findSlot_highest (d : ModDir) (m : Mem) (desired name : Nat) :
    d.findSlot m desired name true = d.findSlotByName m desired name :=
  searchWalk_highest d m desired name searchMax d.head 0 0

/-! ### What a lookup is for -/

section Choice
variable {α : Type} (fits : α → Prop) (score : α → Nat)

def First (l : List α) (a : α) : Prop := ∃ front back, l = front ++ a :: back ∧ fits a ∧ ∀ b ∈ front, ¬ fits b

/-- The first of those that fit and have the highest score. -/
def Highest (l : List α) (a : α) : Prop :=
  ∃ front back, l = front ++ a :: back ∧ fits a ∧ (∀ b ∈ front, fits b → score b < score a) ∧
    ∀ b ∈ back, fits b → score b ≤ score a

variable {fits score} {l : List α} {a b : α}

theorem Highest.fit (best : Highest fits score l a) : fits a := by
  obtain ⟨front, back, -, fit, -, -⟩ := best
  exact fit

theorem Highest.mem (best : Highest fits score l a) : a ∈ l := by
  obtain ⟨front, back, rfl, -, -, -⟩ := best
  simp

theorem Highest.bound (best : Highest fits score l a) (member : b ∈ l) (fit : fits b) : score b ≤ score a := by
  obtain ⟨front, back, rfl, -, before, after⟩ := best
  obtain inFront | member := List.mem_append.mp member
  · exact (before b inFront fit).le
  · obtain rfl | inBack := List.mem_cons.mp member
    · exact le_refl _
    · exact after b inBack fit

/-- The first element is the choice, or beaten by it. -/
theorem Highest.head (best : Highest fits score (b :: l) a) (fit : fits b) : a = b ∨ score b < score a := by
  obtain ⟨front, back, split, -, before, -⟩ := best
  cases front with
  | nil => exact .inl (List.cons.inj split).1.symm
  | cons c front =>
    obtain ⟨rfl, -⟩ := List.cons.inj split
    exact .inr (before b List.mem_cons_self fit)

/-- The next element leaves the choice as it is. -/
theorem Highest.keeps (best : Highest fits score l a) (worse : fits b → score b ≤ score a) : Highest fits score (l ++ [b]) a := by
  obtain ⟨front, back, rfl, fit, before, after⟩ := best
  refine ⟨front, back ++ [b], by simp, fit, before, ?_⟩
  intro c member fitC
  obtain inBack | last := List.mem_append.mp member
  · exact after c inBack fitC
  · obtain rfl := List.mem_singleton.mp last
    exact worse fitC

/-- The next element becomes the choice. -/
theorem Highest.moves (fit : fits b) (better : ∀ c ∈ l, fits c → score c < score b) : Highest fits score (l ++ [b]) b :=
  ⟨l, [], rfl, fit, better, by simp⟩

end Choice

def Fits (d : ModDir) (m : Mem) (desired name slot : Nat) : Prop := d.slotMatches m desired name slot = true

def revisionOf (d : ModDir) (m : Mem) (slot : Nat) : Nat := m.getU8 (d.entries.get32 slot hdrPtr + Mh.revision)

/-- The slot a lookup in the directory `slots` is to find. -/
structure Looked (d : ModDir) (m : Mem) (desired name : Nat) (highestRevision : Bool) (slots : List Nat) (found : Nat) :
    Prop where
  none : found = 0 ↔ ∀ s ∈ slots, ¬ d.Fits m desired name s
  some : found ≠ 0 → if highestRevision then Highest (d.Fits m desired name) (d.revisionOf m) slots found
    else First (d.Fits m desired name) slots found

/-! ### The walk -/

variable {d : ModDir} {m : Mem} {desired name : Nat} {seen rest slots : List Nat} {fuel slot best bestRevision : Nat}

/-- The choice among the entries seen so far. -/
def Sofar (d : ModDir) (m : Mem) (desired name : Nat) (seen : List Nat) (best bestRevision : Nat) : Prop :=
  best = 0 ∧ (∀ s ∈ seen, ¬ d.Fits m desired name s) ∨
    best ≠ 0 ∧ bestRevision = d.revisionOf m best ∧ Highest (d.Fits m desired name) (d.revisionOf m) seen best

theorem Sofar.next (sofar : Sofar d m desired name seen best bestRevision) {s : Nat} (live : s ≠ 0) :
    if d.slotMatches m desired name s ∧ (best = 0 ∨ d.revisionOf m s > bestRevision) then
      Sofar d m desired name (seen ++ [s]) s (d.revisionOf m s)
    else Sofar d m desired name (seen ++ [s]) best bestRevision := by
  obtain ⟨rfl, none⟩ | ⟨some, rfl, highest⟩ := sofar
  · by_cases fit : d.Fits m desired name s
    · rw [if_pos ⟨fit, .inl rfl⟩]
      exact .inr ⟨live, rfl, Highest.moves fit (fun c member fit => absurd fit (none c member))⟩
    · rw [if_neg (fun both => fit both.1)]
      refine .inl ⟨rfl, ?_⟩
      intro c member
      obtain before | last := List.mem_append.mp member
      · exact none c before
      · obtain rfl := List.mem_singleton.mp last
        exact fit
  · split
    · next both =>
      obtain ⟨fit, better⟩ := both
      have better := better.resolve_left some
      exact .inr ⟨live, rfl, Highest.moves fit (fun c member fitC => lt_of_le_of_lt (highest.bound member fitC) better)⟩
    · next worse =>
      refine .inr ⟨some, rfl, highest.keeps (fun fit => ?_)⟩
      by_contra better
      exact worse ⟨fit, .inr (Nat.lt_of_not_le better)⟩

theorem searchWalk_succ (live : slot ≠ 0) (highestRevision : Bool) :
    searchWalk d m desired name highestRevision (fuel + 1) slot best bestRevision =
      if d.slotMatches m desired name slot then
        if !highestRevision then slot
        else if best = 0 ∨ d.revisionOf m slot > bestRevision then
          searchWalk d m desired name highestRevision fuel (d.entries.get32 slot next) slot (d.revisionOf m slot)
        else searchWalk d m desired name highestRevision fuel (d.entries.get32 slot next) best bestRevision
      else searchWalk d m desired name highestRevision fuel (d.entries.get32 slot next) best bestRevision :=
  if_neg live

/-- Within the guard the walk chooses the highest revision; a longer directory yields nothing. -/
theorem searchWalk_true (chain : Linked (fun a => d.entries.get32 a next) 0 slot rest)
    (sofar : Sofar d m desired name seen best bestRevision) :
    if rest.length ≤ fuel then
      ∃ revision, Sofar d m desired name (seen ++ rest) (searchWalk d m desired name true fuel slot best bestRevision) revision
    else searchWalk d m desired name true fuel slot best bestRevision = 0 := by
  induction rest generalizing fuel slot seen best bestRevision with
  | nil =>
    obtain rfl : slot = 0 := chain
    have ended : searchWalk d m desired name true fuel 0 best bestRevision = best := by
      cases fuel <;> rfl
    rw [if_pos (by simp), ended, List.append_nil]
    exact ⟨bestRevision, sofar⟩
  | cons s rest ih =>
    obtain ⟨rfl, live, onward⟩ := chain
    cases fuel with
    | zero =>
      rw [if_neg (by simp), searchWalk, if_neg live]
    | succ fuel =>
      have sofar := sofar.next live
      have shift : seen ++ slot :: rest = seen ++ [slot] ++ rest := by simp
      have same : (slot :: rest).length ≤ fuel + 1 ↔ rest.length ≤ fuel := Nat.succ_le_succ_iff
      rw [searchWalk_succ live, shift]
      simp only [same, Bool.not_true, Bool.false_eq_true, if_false]
      split at sofar
      · next both =>
        rw [if_pos both.1, if_pos both.2]
        exact ih onward sofar
      · next worse =>
        by_cases fit : d.slotMatches m desired name slot
        · rw [if_pos fit, if_neg (fun better => worse ⟨fit, better⟩)]
          exact ih onward sofar
        · rw [if_neg fit]
          exact ih onward sofar

/-- The walk for the first match stops there, or at the guard. -/
theorem searchWalk_false (chain : Linked (fun a => d.entries.get32 a next) 0 slot rest) :
    (∃ s ∈ rest.take fuel, First (d.Fits m desired name) rest s ∧ searchWalk d m desired name false fuel slot 0 bestRevision = s) ∨
      (∀ s ∈ rest.take fuel, ¬ d.Fits m desired name s) ∧ searchWalk d m desired name false fuel slot 0 bestRevision = 0 := by
  induction rest generalizing fuel slot bestRevision with
  | nil =>
    obtain rfl : slot = 0 := chain
    exact .inr ⟨by simp, by cases fuel <;> rfl⟩
  | cons s rest ih =>
    obtain ⟨rfl, live, onward⟩ := chain
    cases fuel with
    | zero => exact .inr ⟨by simp, if_neg live⟩
    | succ fuel =>
      rw [searchWalk_succ live, List.take_succ_cons]
      by_cases fit : d.slotMatches m desired name slot
      · rw [if_pos fit]
        exact .inl ⟨slot, List.mem_cons_self, ⟨[], rest, rfl, fit, by simp⟩, rfl⟩
      · rw [if_neg fit]
        obtain ⟨s, member, ⟨front, back, rfl, fits, before⟩, found⟩ | ⟨none, found⟩ := @ih fuel _ bestRevision onward
        · exact .inl ⟨s, List.mem_cons_of_mem _ member,
            ⟨slot :: front, back, rfl, fits, List.forall_mem_cons.mpr ⟨fit, before⟩⟩, found⟩
        · exact .inr ⟨List.forall_mem_cons.mpr ⟨fit, none⟩, found⟩

/-! ### The guard -/

theorem looked_highest (chain : Linked (fun a => d.entries.get32 a next) 0 d.head slots) :
    Looked d m desired name true slots (d.findSlot m desired name true) ↔
      (∀ s ∈ slots, ¬ d.Fits m desired name s) ∨ slots.length ≤ searchMax := by
  have walked := @searchWalk_true d m desired name [] slots searchMax d.head 0 0 chain (.inl ⟨rfl, by simp⟩)
  rw [List.nil_append] at walked
  rw [← findSlot] at walked
  split at walked
  · next short =>
    refine iff_of_true ?_ (.inr short)
    obtain ⟨revision, ⟨found, none⟩ | ⟨found, -, highest⟩⟩ := walked
    · exact ⟨iff_of_true found none, fun some => absurd found some⟩
    · exact ⟨iff_of_false found (fun none => none _ highest.mem highest.fit), fun _ => by simpa using highest⟩
  · next long =>
    have missed : d.findSlot m desired name true = 0 := walked
    rw [or_iff_left long, missed]
    constructor
    · intro looked
      exact looked.none.mp rfl
    · intro none
      exact ⟨iff_of_true rfl none, fun some => absurd rfl some⟩

theorem looked_first (chain : Linked (fun a => d.entries.get32 a next) 0 d.head slots) :
    Looked d m desired name false slots (d.findSlot m desired name false) ↔
      (∀ s ∈ slots, ¬ d.Fits m desired name s) ∨ ∃ s ∈ slots.take searchMax, d.Fits m desired name s := by
  obtain ⟨s, member, first, found⟩ | ⟨none, found⟩ := @searchWalk_false d m desired name slots searchMax d.head 0 chain
  · have inside := List.mem_of_mem_take member
    obtain ⟨front, back, split, fit, before⟩ := first
    refine iff_of_true ?_ (.inr ⟨s, member, fit⟩)
    rw [findSlot, found]
    exact ⟨iff_of_false (chain.ne_null inside) (fun none => none s inside fit),
      fun _ => by simpa using ⟨front, back, split, fit, before⟩⟩
  · have missed : ¬ ∃ s ∈ slots.take searchMax, d.Fits m desired name s := by
      rintro ⟨s, member, fit⟩
      exact none s member fit
    rw [or_iff_left missed, findSlot, found]
    constructor
    · intro looked
      exact looked.none.mp rfl
    · intro none
      exact ⟨iff_of_true rfl none, fun some => absurd rfl some⟩

/-- A lookup is right exactly when nothing matches, or the guard of 256 entries does not end it: for the highest
revision the directory may have no more entries, for the first match one must be among the first 256. -/
theorem findSlot_looked_iff (d : ModDir) (m : Mem) (desired name : Nat) (highestRevision : Bool) (slots : List Nat)
    (chain : Linked (fun a => d.entries.get32 a next) 0 d.head slots) :
    Looked d m desired name highestRevision slots (d.findSlot m desired name highestRevision) ↔
      (∀ s ∈ slots, ¬ d.Fits m desired name s) ∨
        if highestRevision then slots.length ≤ 256 else ∃ s ∈ slots.take 256, d.Fits m desired name s := by
  cases highestRevision with
  | true => exact looked_highest chain
  | false => exact looked_first chain

/-! ### A directory of 257 modules -/

/-- A module header in every 64 bytes, with the name `a`. -/
def crowdMem : Mem := fun x => if x % 64 = 0x07 then 0x40 else if x % 64 = 0x0F then 0x30 else if x % 64 = 0x30 then 0x61 else 0

/-- Slots of 16 bytes from 0x1000 up to 0x2010, each for another header. -/
def crowd : ModDir where
  head := 0x1000
  free := 0
  entries := fun slot => Mem.setU32 (Mem.setU32 (fun _ => 0) next (if slot < 0x2000 then slot + 16 else 0)) hdrPtr (slot * 64)

/-- The last `k + 1` of them. -/
def crowdSlots : Nat → List Nat
  | 0 => [0x2000]
  | k + 1 => (0x2000 - 16 * (k + 1)) :: crowdSlots k

theorem crowd_next {slot : Nat} (small : slot ≤ 0x2000) :
    crowd.entries.get32 slot next = if slot < 0x2000 then slot + 16 else 0 := by
  have apart : crowd.entries.get32 slot next =
      (Mem.setU32 (fun _ => 0) next (if slot < 0x2000 then slot + 16 else 0)).getU32 next :=
    Mem.getU32_setU32_apart _ _ (.inl (by decide))
  rw [apart]
  apply Mem.getU32_setU32_of_lt
  split <;> omega

theorem crowd_chain (k : Nat) (small : k ≤ 256) :
    Linked (fun a => crowd.entries.get32 a next) 0 (0x2000 - 16 * k) (crowdSlots k) := by
  induction k with
  | zero => exact ⟨rfl, by decide, (crowd_next (le_refl _)).trans (if_neg (by decide))⟩
  | succ k ih =>
    have link : crowd.entries.get32 (0x2000 - 16 * (k + 1)) next = 0x2000 - 16 * k := by
      rw [crowd_next (by omega), if_pos (by omega)]
      omega
    refine ⟨rfl, by omega, ?_⟩
    dsimp only
    rw [link]
    exact ih (by omega)

theorem crowd_length (k : Nat) : (crowdSlots k).length = k + 1 := by
  induction k with
  | zero => rfl
  | succ k ih => rw [crowdSlots, List.length_cons, ih]

theorem crowd_fits : crowd.Fits crowdMem 0 0x30 0x1000 := by
  unfold Fits
  decide

/-- The first match is the first of them. -/
theorem findSlot_looked_crowd :
    Looked crowd crowdMem 0 0x30 false (crowdSlots 256) (crowd.findSlot crowdMem 0 0x30 false) ∧
      crowd.findSlot crowdMem 0 0x30 false = 0x1000 := by
  refine ⟨(findSlot_looked_iff crowd crowdMem 0 0x30 false (crowdSlots 256) (crowd_chain 256 (le_refl _))).mpr (.inr ?_), by decide⟩
  exact ⟨0x1000, List.mem_cons_self, crowd_fits⟩

/-- In a directory of 257 modules F$Link finds none, although all of them match. -/
theorem findSlot_misses :
    ¬ ∀ (d : ModDir) (m : Mem) (desired name : Nat) (highestRevision : Bool) (slots : List Nat),
      Linked (fun a => d.entries.get32 a next) 0 d.head slots →
        Looked d m desired name highestRevision slots (d.findSlot m desired name highestRevision) := by
  intro always
  have chain := crowd_chain 256 (le_refl _)
  obtain none | short := (looked_highest chain).mp (always crowd crowdMem 0 0x30 true (crowdSlots 256) chain)
  · exact none 0x1000 List.mem_cons_self crowd_fits
  · rw [crowd_length] at short
    exact absurd short (by decide)

end ModDir

end Q9OS

import Mathlib.Tactic
import Q9OS.Lib.Reading
import Q9OS.Lib.Word
import Q9OS.Module.Directory
import Q9OS.Names.Text

/-!
# Boot list scans

`Q9K_FindModuleByName` of `q9kernel_modsearch.c` and
`Q9K_ModDirPopulateFromBootList` of `q9kernel_moddir.c`, with every byte they
read.
-/

namespace Q9OS

namespace Scan

open Reading

def scanStep : Nat := 2
def maxRegions : Nat := 64
def totRam : Nat := 0x6C

def checkSyncWord (addr availableLen : Nat) : Reading Bool :=
  if addr = 0 ∨ availableLen < 2 then pure false
  else do
    let sync ← getU16 addr
    pure (sync == 0x4AFC)

def checksum (addr : Nat) : Nat → Reading Nat
  | 0 => pure 0
  | n + 1 => do
    let sum ← checksum addr n
    let word ← getU16 (addr + 2 * n)
    pure (sum ^^^ word)

def validModuleHeader (addr availableLen : Nat) : Reading Bool :=
  if availableLen < 0x30 then pure false
  else do
    let sync ← checkSyncWord addr availableLen
    if !sync then pure false
    else do
      let sum ← checksum addr 24
      pure (sum == 0xFFFF)

/-- Both names end with a NUL. -/
def namesMatch : Nat → Nat → Nat → Reading Bool
  | 0, _, _ => pure false
  | n + 1, a, t => do
    let c ← getU8 a
    let d ← getU8 t
    if ModDir.lower c ≠ ModDir.lower d then pure false
    else if c = 0 then pure true
    else namesMatch n (a + 1) (t + 1)

structure Best where
  hdr : Nat
  revision : Nat
  availableLen : Nat

/-- One candidate of F$FModul's search at boot: how far to go on, and the best match then. -/
def findVisit (target candidate remaining : Nat) (best : Best) : Reading (Nat × Best) := do
  let sync ← checkSyncWord candidate remaining
  if !sync then pure (scanStep, best)
  else do
    let valid ← validModuleHeader candidate remaining
    if !valid then pure (scanStep, best)
    else do
      let moduleSize ← getU32 (candidate + Mh.size)
      let nameOffset ← getU32 (candidate + Mh.name)
      if moduleSize = 0 ∨ nameOffset ≥ remaining then pure (scanStep, best)
      else do
        let same ← namesMatch (remaining - nameOffset) (candidate + nameOffset) target
        if same then do
          let revision ← getU8 (candidate + Mh.revision)
          if best.hdr = 0 ∨ revision > best.revision then pure (moduleSize, ⟨candidate, revision, remaining⟩)
          else pure (moduleSize, best)
        else pure (moduleSize, best)

/-- The number of entries and the directory with one more, unless the pool is empty. -/
def enterBoot (m : Mem) (s : Nat × ModDir) (hdr : Nat) : Nat × ModDir :=
  if (s.2.add m hdr).1 = 0 then (s.1, s.2.addBoot m hdr) else (s.1 + 1, s.2.addBoot m hdr)

/-- `ModDir.add` copies type, language, attributes and revision from the header. -/
def enter (s : Nat × ModDir) (hdr : Nat) : Reading (Nat × ModDir) :=
  fun m => (enterBoot m s hdr, if s.2.free = 0 then [] else [hdr + 0x12, hdr + 0x13, hdr + 0x14, hdr + 0x15])

def bootVisit (candidate remaining : Nat) (s : Nat × ModDir) : Reading (Nat × (Nat × ModDir)) := do
  let sync ← checkSyncWord candidate remaining
  if !sync then pure (scanStep, s)
  else do
    let valid ← validModuleHeader candidate remaining
    if !valid then pure (scanStep, s)
    else do
      let moduleSize ← getU32 (candidate + Mh.size)
      if moduleSize = 0 then pure (scanStep, s)
      else do
        let s ← enter s candidate
        pure (moduleSize, s)

section Loops
variable {σ : Type} (visit : Nat → Nat → σ → Reading (Nat × σ))

/-- The loop over one region, `none` when the fuel is used up. -/
def scanRegion (base len : Nat) : Nat → Nat → σ → Reading (Option σ)
  | 0, _, _ => pure none
  | fuel + 1, offset, s =>
    if add32 offset 0x30 ≤ len then do
      let visited ← visit (add32 base offset) (sub32 len offset) s
      scanRegion base len fuel (add32 offset visited.1) visited.2
    else pure (some s)

/-- The loop over the region list, with the regions to pass over. -/
def scanList (skip : Nat → Bool) (fuel : Nat) : Nat → Nat → σ → Reading (Option σ)
  | 0, _, s => pure (some s)
  | turns + 1, entry, s => do
    let regionBase ← getU32 entry
    let regionLen ← getU32 (entry + 4)
    if regionBase = 0 then pure (some s)
    else if skip regionBase then scanList skip fuel turns (entry + 8) s
    else do
      let scanned ← scanRegion visit regionBase regionLen fuel 0 s
      match scanned with
      | none => pure none
      | some s => scanList skip fuel turns (entry + 8) s

end Loops

/-- The best match, 0 for none, and the bytes available there; nothing is handed back for null pointers. -/
def findModuleByName (fuel regionList targetName : Nat) : Reading (Option (Nat × Option Nat)) :=
  if regionList = 0 ∨ targetName = 0 then pure (some (0, none))
  else do
    let best ← scanList (findVisit targetName) (fun _ => false) fuel maxRegions regionList ⟨0, 0, 0⟩
    pure (best.map fun best => (best.hdr, some best.availableLen))

/-- The number of entered modules and the directory with them. -/
def modDirPopulateFromBootList (fuel bootList : Nat) (d : ModDir) : Reading (Option (Nat × ModDir)) :=
  if bootList = 0 then pure (some (0, d))
  else do
    let totalRam ← getU32 totRam
    scanList bootVisit (fun regionBase => totalRam ≠ 0 && regionBase ≥ totalRam) fuel maxRegions bootList (0, d)

/-! ### Single checks -/

variable {m : Mem} {p : Nat → Prop}

@[simp] theorem value_checkSyncWord (a n : Nat) : (checkSyncWord a n).value m = Q9OS.checkSyncWord m a n := by
  unfold checkSyncWord Q9OS.checkSyncWord
  by_cases null : a = 0
  · simp [null]
  · by_cases short : n < 2
    · simp [null, short]
    · simp [null, short]
      omega

@[simp] theorem value_checksum (a n : Nat) : (checksum a n).value m = headerXor m a n := by
  induction n with
  | zero => rfl
  | succ n ih => simp [checksum, headerXor, ih]

@[simp] theorem value_validModuleHeader (a n : Nat) : (validModuleHeader a n).value m = Q9OS.validModuleHeader m a n := by
  unfold validModuleHeader Q9OS.validModuleHeader
  by_cases short : n < 0x30
  · simp [short]
  · by_cases sync : Q9OS.checkSyncWord m a n = true
    · simp [short, sync]
      omega
    · simp [short, sync]

theorem within_checkSyncWord {a n : Nat} (inside : ∀ x, a ≤ x → x < a + n → p x) : Within p (checkSyncWord a n) m := by
  unfold checkSyncWord
  split
  · exact within_pure false
  · exact (within_getU16 (fun x low high => inside x low (by omega))).bind (within_pure _)

theorem within_checksum {a n : Nat} (inside : ∀ x, a ≤ x → x < a + 2 * n → p x) : Within p (checksum a n) m := by
  induction n with
  | zero => exact within_pure 0
  | succ n ih =>
    refine (ih (fun x low high => inside x low (by omega))).bind (Within.bind ?_ (within_pure _))
    exact within_getU16 (fun x low high => inside x (by omega) (by omega))

theorem within_validModuleHeader {a n : Nat} (inside : ∀ x, a ≤ x → x < a + n → p x) :
    Within p (validModuleHeader a n) m := by
  unfold validModuleHeader
  split
  · exact within_pure false
  · refine (within_checkSyncWord inside).bind ?_
    split
    · exact within_pure false
    · exact (within_checksum (fun x low high => inside x low (by omega))).bind (within_pure _)

theorem within_namesMatch {n a t : Nat} {name : List UInt8} (text : Text m t name)
    (inside : ∀ x, a ≤ x → x < a + n → p x) (target : ∀ x, t ≤ x → x ≤ t + name.length → p x) :
    Within p (namesMatch n a t) m := by
  induction n generalizing a t name with
  | zero => exact within_pure false
  | succ n ih =>
    refine (within_getU8 (inside a (le_refl a) (by omega))).bind ?_
    refine (within_getU8 (target t (le_refl t) (by omega))).bind ?_
    rw [value_getU8, value_getU8]
    split
    · exact within_pure false
    · next same =>
      split
      · exact within_pure true
      · next live =>
        cases name with
        | nil =>
          -- only a NUL equals the NUL of the target
          have ended : m.getU8 t = 0 := text.getU8_zero.mpr rfl
          rw [ended, not_not, show ModDir.lower 0 = 0 from rfl] at same
          have zero : m.getU8 a = 0 := by
            unfold ModDir.lower at same
            split at same
            · omega
            · exact same
          exact absurd zero live
        | cons c name =>
          rw [List.length_cons] at target
          exact ih text.2.2 (fun x low high => inside x (by omega) (by omega))
            (fun x low high => target x (by omega) (by omega))

/-! ### Regions -/

structure Region where
  base : Nat
  len : Nat

def Region.Holds (r : Region) (x : Nat) : Prop := r.base ≤ x ∧ x < r.base + r.len

/-- The region list at an address, up to its terminator. -/
def Listed (m : Mem) : Nat → List Region → Prop
  | a, [] => m.getU32 a = 0
  | a, r :: rs => r.base ≠ 0 ∧ m.getU32 a = r.base ∧ m.getU32 (a + 4) = r.len ∧ Listed m (a + 8) rs

/-- The bytes of the list and of its terminator. -/
def Listing (a : Nat) (rs : List Region) (x : Nat) : Prop := a ≤ x ∧ x < a + 8 * (rs.length + 1)

/-- The candidates of a region, for a scan whose sums never wrap around. -/
def offsets (stride : Nat → Nat → Nat) (r : Region) : Nat → Nat → List Nat
  | 0, _ => []
  | n + 1, o =>
    if o + 0x30 ≤ r.len then o :: offsets stride r n (o + stride (r.base + o) (r.len - o)) else []

/-- No candidate is followed by one whose header would end behind the address space. -/
def NoWrap (stride : Nat → Nat → Nat) (r : Region) : Prop :=
  ∀ o ∈ offsets stride r (r.len + 1) 0, o + stride (r.base + o) (r.len - o) + 0x30 < 2 ^ 32

instance (stride : Nat → Nat → Nat) (r : Region) : Decidable (NoWrap stride r) :=
  inferInstanceAs (Decidable (∀ o ∈ offsets stride r (r.len + 1) 0, _))

section Loops
variable {σ : Type} {visit : Nat → Nat → σ → Reading (Nat × σ)} {stride : Nat → Nat → Nat} {r : Region}

/-- What one candidate does: it goes on by `stride`, and looks at the rest of the region only. -/
structure Visits (m : Mem) (visit : Nat → Nat → σ → Reading (Nat × σ)) (stride : Nat → Nat → Nat)
    (p : Nat → Prop) : Prop where
  goes : ∀ {c n s}, 0x30 ≤ n → ((visit c n s).value m).1 = stride c n
  on : ∀ c n, 0 < stride c n
  within : ∀ {c n s}, 0x30 ≤ n → Within (fun x => (c ≤ x ∧ x < c + n) ∨ p x) (visit c n s) m

/-- The result of one candidate. -/
def visited (visit : Nat → Nat → σ → Reading (Nat × σ)) (m : Mem) (r : Region) (s : σ) (o : Nat) : σ :=
  ((visit (r.base + o) (r.len - o) s).value m).2

theorem offsets_ge (on : ∀ c n, 0 < stride c n) {n o x : Nat} (member : x ∈ offsets stride r n o) :
    o ≤ x ∧ x + 0x30 ≤ r.len := by
  induction n generalizing o with
  | zero => exact absurd member List.not_mem_nil
  | succ n ih =>
    rw [offsets] at member
    split at member
    · next fits =>
      obtain rfl | later := List.mem_cons.mp member
      · exact ⟨le_refl x, fits⟩
      · have := on (r.base + o) (r.len - o)
        have bounds := ih later
        omega
    · exact absurd member List.not_mem_nil

/-- Every candidate lies behind the one before. -/
theorem offsets_sorted (on : ∀ c n, 0 < stride c n) (n o : Nat) : (offsets stride r n o).Pairwise (· < ·) := by
  induction n generalizing o with
  | zero => exact List.Pairwise.nil
  | succ n ih =>
    rw [offsets]
    split
    · refine List.pairwise_cons.mpr ⟨fun x member => ?_, ih _⟩
      have := on (r.base + o) (r.len - o)
      have bounds := offsets_ge on member
      omega
    · exact List.Pairwise.nil

theorem scanRegion_step {fuel o : Nat} {s : σ} (visits : Visits m visit stride p) (room : r.base + r.len ≤ 2 ^ 32)
    (based : r.base ≠ 0) (fits : o + 0x30 ≤ r.len) (noWrap : o + stride (r.base + o) (r.len - o) + 0x30 < 2 ^ 32) :
    (scanRegion visit r.base r.len (fuel + 1) o s).value m =
        (scanRegion visit r.base r.len fuel (o + stride (r.base + o) (r.len - o)) (visited visit m r s o)).value m ∧
      ((Within (fun x => r.Holds x ∨ p x) (scanRegion visit r.base r.len fuel
          (o + stride (r.base + o) (r.len - o)) (visited visit m r s o)) m) →
        Within (fun x => r.Holds x ∨ p x) (scanRegion visit r.base r.len (fuel + 1) o s) m) := by
  have goesOn : add32 o 0x30 ≤ r.len := by unfold add32; omega
  have candidate : add32 r.base o = r.base + o := by unfold add32; omega
  have remaining : sub32 r.len o = r.len - o := by unfold sub32; omega
  have goes : ((visit (r.base + o) (r.len - o) s).value m).1 = stride (r.base + o) (r.len - o) :=
    visits.goes (by omega)
  have next : add32 o (stride (r.base + o) (r.len - o)) = o + stride (r.base + o) (r.len - o) := by
    unfold add32; omega
  rw [scanRegion, if_pos goesOn, candidate, remaining]
  constructor
  · rw [value_bind, goes, next, visited]
  · intro rest
    refine Within.bind ((visits.within (by omega)).mono ?_) ?_
    · rintro x (⟨low, high⟩ | other)
      · exact .inl ⟨by omega, by omega⟩
      · exact .inr other
    · rw [goes, next]
      exact rest

theorem scanRegion_stop {fuel o : Nat} {s : σ} (behind : ¬ o + 0x30 ≤ r.len) (noWrap : o + 0x30 < 2 ^ 32) :
    scanRegion visit r.base r.len (fuel + 1) o s = pure (some s) := by
  have stops : ¬ add32 o 0x30 ≤ r.len := by unfold add32; omega
  rw [scanRegion, if_neg stops]

/-- The scan takes the candidates one after the other, and then ends. -/
theorem scanRegion_value (visits : Visits m visit stride p) (room : r.base + r.len ≤ 2 ^ 32) (based : r.base ≠ 0)
    {n fuel o : Nat} {s : σ} (enough : r.len < n + o) (fueled : n < fuel) (start : o + 0x30 < 2 ^ 32)
    (noWrap : ∀ x ∈ offsets stride r n o, x + stride (r.base + x) (r.len - x) + 0x30 < 2 ^ 32) :
    (scanRegion visit r.base r.len fuel o s).value m = some ((offsets stride r n o).foldl (visited visit m r) s) := by
  induction n generalizing fuel o s with
  | zero =>
    obtain ⟨fuel, rfl⟩ : ∃ k, fuel = k + 1 := ⟨fuel - 1, by omega⟩
    rw [scanRegion_stop (by omega) start]
    rfl
  | succ n ih =>
    obtain ⟨fuel, rfl⟩ : ∃ k, fuel = k + 1 := ⟨fuel - 1, by omega⟩
    rw [offsets] at noWrap ⊢
    split at noWrap
    · next fits =>
      have here := noWrap o List.mem_cons_self
      have := visits.on (r.base + o) (r.len - o)
      rw [if_pos fits, List.foldl_cons, (scanRegion_step visits room based fits here).1]
      exact ih (by omega) (by omega) here (fun x later => noWrap x (List.mem_cons_of_mem o later))
    · next behind =>
      rw [if_neg behind, scanRegion_stop behind start]
      rfl

theorem scanRegion_within (visits : Visits m visit stride p) (room : r.base + r.len ≤ 2 ^ 32) (based : r.base ≠ 0)
    {n fuel o : Nat} {s : σ} (enough : r.len < n + o) (start : o + 0x30 < 2 ^ 32)
    (noWrap : ∀ x ∈ offsets stride r n o, x + stride (r.base + x) (r.len - x) + 0x30 < 2 ^ 32) :
    Within (fun x => r.Holds x ∨ p x) (scanRegion visit r.base r.len fuel o s) m := by
  induction n generalizing fuel o s with
  | zero =>
    cases fuel with
    | zero => exact within_pure none
    | succ fuel =>
      rw [scanRegion_stop (by omega) start]
      exact within_pure _
  | succ n ih =>
    cases fuel with
    | zero => exact within_pure none
    | succ fuel =>
      rw [offsets] at noWrap
      split at noWrap
      · next fits =>
        have here := noWrap o List.mem_cons_self
        have := visits.on (r.base + o) (r.len - o)
        refine (scanRegion_step visits room based fits here).2 ?_
        exact ih (by omega) here (fun x later => noWrap x (List.mem_cons_of_mem o later))
      · next behind =>
        rw [scanRegion_stop behind start]
        exact within_pure _

/-- The regions that a scan does not pass over. -/
def scanned (skip : Nat → Bool) (turns : Nat) (rs : List Region) : List Region :=
  (rs.take turns).filter (fun r => !skip r.base)

variable {rs : List Region} {skip : Nat → Bool} {turns fuel a : Nat} {s : σ}

theorem scanned_skip (passed : skip r.base = true) : scanned skip (turns + 1) (r :: rs) = scanned skip turns rs := by
  rw [scanned, List.take_succ_cons, List.filter_cons_of_neg (by simp [passed])]
  rfl

theorem scanned_cons (taken : ¬ skip r.base = true) :
    scanned skip (turns + 1) (r :: rs) = r :: scanned skip turns rs := by
  rw [scanned, List.take_succ_cons, List.filter_cons_of_pos (by simp [taken])]
  rfl

theorem scanList_value (visits : Visits m visit stride p) (listed : Listed m a rs)
    (room : ∀ r ∈ rs, r.base + r.len ≤ 2 ^ 32) (fueled : ∀ r ∈ rs, r.len + 1 < fuel)
    (noWrap : ∀ r ∈ scanned skip turns rs, NoWrap stride r) :
    (scanList visit skip fuel turns a s).value m = some ((scanned skip turns rs).foldl
      (fun s r => (offsets stride r (r.len + 1) 0).foldl (visited visit m r) s) s) := by
  induction rs generalizing a turns s with
  | nil =>
    have ended : m.getU32 a = 0 := listed
    cases turns with
    | zero => rfl
    | succ turns =>
      rw [scanList, value_bind, value_bind, value_getU32, if_pos ended]
      rfl
  | cons r rs ih =>
    obtain ⟨based, base, len, rest⟩ := listed
    have room' : ∀ r' ∈ rs, r'.base + r'.len ≤ 2 ^ 32 := fun r' later => room r' (List.mem_cons_of_mem r later)
    have fueled' : ∀ r' ∈ rs, r'.len + 1 < fuel := fun r' later => fueled r' (List.mem_cons_of_mem r later)
    cases turns with
    | zero => rfl
    | succ turns =>
      rw [scanList, value_bind, value_bind, value_getU32, value_getU32, base, len, if_neg based]
      by_cases passed : skip r.base = true
      · rw [scanned_skip passed] at noWrap ⊢
        rw [if_pos passed]
        exact ih rest room' fueled' noWrap
      · rw [scanned_cons passed] at noWrap ⊢
        have fits := room r List.mem_cons_self
        have short := fueled r List.mem_cons_self
        have value : (scanRegion visit r.base r.len fuel 0 s).value m =
            some ((offsets stride r (r.len + 1) 0).foldl (visited visit m r) s) :=
          scanRegion_value visits fits based (by omega) short (by omega) (noWrap r List.mem_cons_self)
        rw [if_neg passed, value_bind, value, List.foldl_cons]
        exact ih rest room' fueled' (fun r' later => noWrap r' (List.mem_cons_of_mem r later))

theorem scanList_within (visits : Visits m visit stride p) (listed : Listed m a rs)
    (room : ∀ r ∈ rs, r.base + r.len ≤ 2 ^ 32) (noWrap : ∀ r ∈ scanned skip turns rs, NoWrap stride r) :
    Within (fun x => (∃ r ∈ rs, r.Holds x) ∨ Listing a rs x ∨ p x) (scanList visit skip fuel turns a s) m := by
  induction rs generalizing a turns s with
  | nil =>
    have ended : m.getU32 a = 0 := listed
    cases turns with
    | zero => exact within_pure (some s)
    | succ turns =>
      have words : ∀ x, a ≤ x → x < a + 8 → (∃ r ∈ ([] : List Region), r.Holds x) ∨ Listing a [] x ∨ p x := by
        intro x low high
        exact .inr (.inl ⟨low, by simpa using high⟩)
      refine (within_getU32 (fun x low high => words x low (by omega))).bind ?_
      refine (within_getU32 (fun x low high => words x (by omega) (by omega))).bind ?_
      rw [value_getU32, if_pos ended]
      exact within_pure (some s)
  | cons r rs ih =>
    obtain ⟨based, base, len, rest⟩ := listed
    have room' : ∀ r' ∈ rs, r'.base + r'.len ≤ 2 ^ 32 := fun r' later => room r' (List.mem_cons_of_mem r later)
    have later : ∀ x, ((∃ r' ∈ rs, r'.Holds x) ∨ Listing (a + 8) rs x ∨ p x) →
        (∃ r' ∈ r :: rs, r'.Holds x) ∨ Listing a (r :: rs) x ∨ p x := by
      rintro x (⟨r', member, holds⟩ | ⟨low, high⟩ | other)
      · exact .inl ⟨r', List.mem_cons_of_mem r member, holds⟩
      · exact .inr (.inl ⟨by omega, by rw [List.length_cons]; omega⟩)
      · exact .inr (.inr other)
    have words : ∀ x, a ≤ x → x < a + 8 → (∃ r' ∈ r :: rs, r'.Holds x) ∨ Listing a (r :: rs) x ∨ p x := by
      intro x low high
      exact .inr (.inl ⟨low, by rw [List.length_cons]; omega⟩)
    cases turns with
    | zero => exact within_pure (some s)
    | succ turns =>
      refine (within_getU32 (fun x low high => words x low (by omega))).bind ?_
      refine (within_getU32 (fun x low high => words x (by omega) (by omega))).bind ?_
      rw [value_getU32, value_getU32, base, len, if_neg based]
      by_cases passed : skip r.base = true
      · rw [scanned_skip passed] at noWrap
        rw [if_pos passed]
        exact (ih rest room' noWrap).mono later
      · rw [scanned_cons passed] at noWrap
        have fits := room r List.mem_cons_self
        have here := noWrap r List.mem_cons_self
        rw [if_neg passed]
        refine Within.bind ((scanRegion_within visits fits based (n := r.len + 1) (by omega) (by omega) here).mono ?_) ?_
        · rintro x (holds | other)
          · exact .inl ⟨r, List.mem_cons_self, holds⟩
          · exact .inr (.inr other)
        · cases (scanRegion visit r.base r.len fuel 0 s).value m with
          | none => exact within_pure none
          | some s => exact (ih rest room' (fun r' member => noWrap r' (List.mem_cons_of_mem r member))).mono later

end Loops

/-! ### Candidates -/

/-- A module header that the scans go on behind. -/
def isModule (m : Mem) (candidate : Nat) : Bool :=
  Q9OS.validModuleHeader m candidate 0x30 && m.getU32 (candidate + Mh.size) != 0

def bootStride (m : Mem) (candidate _remaining : Nat) : Nat :=
  if isModule m candidate then m.getU32 (candidate + Mh.size) else scanStep

/-- F$FModul's search passes over a module whose name lies behind the region. -/
def findStride (m : Mem) (candidate remaining : Nat) : Nat :=
  if isModule m candidate ∧ m.getU32 (candidate + Mh.name) < remaining then m.getU32 (candidate + Mh.size)
  else scanStep

theorem bootStride_pos (c n : Nat) : 0 < bootStride m c n := by
  unfold bootStride isModule scanStep
  split
  · next module =>
    have size := (Bool.and_eq_true_iff.mp module).2
    simpa [Nat.pos_iff_ne_zero] using size
  · exact Nat.two_pos

theorem findStride_pos (c n : Nat) : 0 < findStride m c n := by
  unfold findStride isModule scanStep
  split
  · next module =>
    have size := (Bool.and_eq_true_iff.mp module.1).2
    simpa [Nat.pos_iff_ne_zero] using size
  · exact Nat.two_pos

/-- How much is available does not matter to a header that fits. -/
theorem validModuleHeader_fits {c n : Nat} (fits : 0x30 ≤ n) :
    Q9OS.validModuleHeader m c n = Q9OS.validModuleHeader m c 0x30 := by
  have enough : decide (n ≥ 0x30) = true := decide_eq_true fits
  have short : decide (n ≥ 2) = true := decide_eq_true (by omega)
  simp [Q9OS.validModuleHeader, Q9OS.checkSyncWord, enough, short]

theorem validModuleHeader_sync {c n : Nat} (valid : Q9OS.validModuleHeader m c n = true) :
    Q9OS.checkSyncWord m c n = true := by
  unfold Q9OS.validModuleHeader at valid
  exact (Bool.and_eq_true_iff.mp (Bool.and_eq_true_iff.mp valid).1).2

theorem isModule_iff {c n : Nat} (fits : 0x30 ≤ n) :
    isModule m c = true ↔ Q9OS.validModuleHeader m c n = true ∧ m.getU32 (c + Mh.size) ≠ 0 := by
  rw [isModule, Bool.and_eq_true, validModuleHeader_fits fits, bne_iff_ne]

/-- The search with the name at `target` looks at the rest of the region, and at the name. -/
theorem findVisit_visits {target : Nat} {name : List UInt8} (text : Text m target name) :
    Visits m (findVisit target) (findStride m) (fun x => target ≤ x ∧ x ≤ target + name.length) where
  goes := by
    intro c n best fits
    have module := isModule_iff (m := m) (c := c) fits
    unfold findVisit findStride
    rw [value_bind, value_checkSyncWord]
    by_cases sync : Q9OS.checkSyncWord m c n = true
    · rw [sync, Bool.not_true, if_neg Bool.false_ne_true, value_bind, value_validModuleHeader]
      by_cases valid : Q9OS.validModuleHeader m c n = true
      · rw [valid, Bool.not_true, if_neg Bool.false_ne_true, value_bind, value_bind, value_getU32, value_getU32]
        by_cases far : m.getU32 (c + Mh.size) = 0 ∨ m.getU32 (c + Mh.name) ≥ n
        · rw [if_pos far, if_neg (by rw [module]; omega)]
          rfl
        · rw [if_neg far, if_pos (by rw [module]; exact ⟨⟨valid, by omega⟩, by omega⟩), value_bind]
          split
          · rw [value_bind]
            split <;> rfl
          · rfl
      · have odd : Q9OS.validModuleHeader m c n = false := Bool.eq_false_iff.mpr valid
        rw [odd, Bool.not_false, if_pos rfl, if_neg (by rw [module]; exact fun h => valid h.1.1)]
        rfl
    · have odd : Q9OS.checkSyncWord m c n = false := Bool.eq_false_iff.mpr sync
      rw [odd, Bool.not_false, if_pos rfl,
        if_neg (by rw [module]; exact fun h => sync (validModuleHeader_sync h.1.1))]
      rfl
  on := findStride_pos
  within := by
    intro c n best fits
    have inRegion : ∀ x, c ≤ x → x < c + n → (c ≤ x ∧ x < c + n) ∨ (target ≤ x ∧ x ≤ target + name.length) :=
      fun x low high => .inl ⟨low, high⟩
    have inHeader : ∀ k l, k + l ≤ 0x30 → ∀ x, c + k ≤ x → x < c + k + l →
        (c ≤ x ∧ x < c + n) ∨ (target ≤ x ∧ x ≤ target + name.length) :=
      fun k l bound x low high => .inl ⟨by omega, by omega⟩
    refine (within_checkSyncWord inRegion).bind ?_
    split
    · exact within_pure _
    · refine (within_validModuleHeader inRegion).bind ?_
      split
      · exact within_pure _
      · refine (within_getU32 (inHeader Mh.size 4 (by decide))).bind ?_
        refine (within_getU32 (inHeader Mh.name 4 (by decide))).bind ?_
        rw [value_getU32, value_getU32]
        split
        · exact within_pure _
        · next near =>
          refine (within_namesMatch text ?_ (fun x low high => .inr ⟨low, high⟩)).bind ?_
          · intro x low high
            exact inRegion x (by omega) (by omega)
          · split
            · refine (within_getU8 (inHeader Mh.revision 1 (by decide) _ (le_refl _) (by omega))).bind ?_
              split
              · exact within_pure _
              · exact within_pure _
            · exact within_pure _

/-- A candidate of the boot list is entered when it is a module. -/
theorem bootVisit_value {c n : Nat} {s : Nat × ModDir} (fits : 0x30 ≤ n) :
    (bootVisit c n s).value m = (bootStride m c n, if isModule m c then enterBoot m s c else s) := by
  have module := isModule_iff (m := m) (c := c) fits
  unfold bootVisit bootStride
  rw [value_bind, value_checkSyncWord]
  by_cases sync : Q9OS.checkSyncWord m c n = true
  · rw [sync, Bool.not_true, if_neg Bool.false_ne_true, value_bind, value_validModuleHeader]
    by_cases valid : Q9OS.validModuleHeader m c n = true
    · rw [valid, Bool.not_true, if_neg Bool.false_ne_true, value_bind, value_getU32]
      by_cases empty : m.getU32 (c + Mh.size) = 0
      · have none : ¬ isModule m c = true := by rw [module]; exact fun h => h.2 empty
        rw [if_pos empty, if_neg none, if_neg none]
        rfl
      · have some : isModule m c = true := by rw [module]; exact ⟨valid, empty⟩
        rw [if_neg empty, if_pos some, if_pos some]
        rfl
    · have odd : Q9OS.validModuleHeader m c n = false := Bool.eq_false_iff.mpr valid
      have none : ¬ isModule m c = true := by rw [module]; exact fun h => valid h.1
      rw [odd, Bool.not_false, if_pos rfl, if_neg none, if_neg none]
      rfl
  · have odd : Q9OS.checkSyncWord m c n = false := Bool.eq_false_iff.mpr sync
    have none : ¬ isModule m c = true := by rw [module]; exact fun h => sync (validModuleHeader_sync h.1)
    rw [odd, Bool.not_false, if_pos rfl, if_neg none, if_neg none]
    rfl

theorem within_enter {c : Nat} {s : Nat × ModDir} (inside : ∀ x, c ≤ x → x < c + 0x30 → p x) :
    Within p (enter s c) m := by
  intro x member
  have place : x ∈ (if s.2.free = 0 then [] else [c + 0x12, c + 0x13, c + 0x14, c + 0x15]) := member
  split at place
  · exact absurd place List.not_mem_nil
  · simp only [List.mem_cons, List.not_mem_nil, or_false] at place
    exact inside x (by omega) (by omega)

theorem bootVisit_visits : Visits m bootVisit (bootStride m) (fun _ => False) where
  goes := by
    intro c n s fits
    rw [bootVisit_value fits]
  on := bootStride_pos
  within := by
    intro c n s fits
    have inRegion : ∀ x, c ≤ x → x < c + n → (c ≤ x ∧ x < c + n) ∨ False :=
      fun x low high => .inl ⟨low, high⟩
    refine (within_checkSyncWord inRegion).bind ?_
    split
    · exact within_pure _
    · refine (within_validModuleHeader inRegion).bind ?_
      split
      · exact within_pure _
      · have size : Mh.size = 4 := rfl
        refine (within_getU32 (fun x low high => inRegion x (by omega) (by omega))).bind ?_
        split
        · exact within_pure _
        · exact (within_enter (fun x low high => inRegion x low (by omega))).bind (within_pure _)

/-! ### Whole lists -/

/-- The modules of a region, in the order of the scan. -/
def modules (m : Mem) (r : Region) : List Nat :=
  ((offsets (bootStride m) r (r.len + 1) 0).map (r.base + ·)).filter (isModule m)

/-- The regions that are not RAM, with the size of the RAM at hand. -/
def passed (m : Mem) (regionBase : Nat) : Bool := m.getU32 totRam ≠ 0 && regionBase ≥ m.getU32 totRam

theorem modules_nodup (m : Mem) (r : Region) : (modules m r).Nodup := by
  refine List.Nodup.filter _ (List.Nodup.map (fun x y same => Nat.add_left_cancel same) ?_)
  exact (offsets_sorted bootStride_pos _ _).imp Nat.ne_of_lt

/-- The scan of a region enters its modules. -/
theorem modules_foldl {r : Region} {n : Nat} (s : Nat × ModDir) :
    (offsets (bootStride m) r n 0).foldl (visited bootVisit m r) s =
      (((offsets (bootStride m) r n 0).map (r.base + ·)).filter (isModule m)).foldl (enterBoot m) s := by
  rw [List.foldl_filter, List.foldl_map]
  refine List.foldl_ext _ _ s (fun s o member => ?_)
  have fits := (offsets_ge bootStride_pos member).2
  rw [visited, bootVisit_value (by omega)]

section Lists
variable {list : Nat} {rs : List Region}

theorem Listed.based {a : Nat} {r : Region} (listed : Listed m a rs) (member : r ∈ rs) : r.base ≠ 0 := by
  induction rs generalizing a with
  | nil => exact absurd member List.not_mem_nil
  | cons r' rs ih =>
    obtain ⟨based, -, -, rest⟩ := listed
    obtain rfl | later := List.mem_cons.mp member
    · exact based
    · exact ih rest later

/-- A loop of as many turns as there are addresses is long enough for every region. -/
theorem Listed.fueled {fuel : Nat} (listed : Listed m list rs) (room : ∀ r ∈ rs, r.base + r.len ≤ 2 ^ 32)
    (enough : 2 ^ 32 < fuel) : ∀ r ∈ rs, r.len + 1 < fuel := by
  intro r member
  have based := listed.based member
  have bound := room r member
  omega

theorem findModuleByName_ends (listed : Listed m list rs) (room : ∀ r ∈ rs, r.base + r.len ≤ 2 ^ 32)
    {target : Nat} {name : List UInt8} (text : Text m target name)
    (noWrap : ∀ r ∈ scanned (fun _ => false) maxRegions rs, NoWrap (findStride m) r) :
    (∀ fuel, Within (fun x => (∃ r ∈ rs, r.Holds x) ∨ Listing list rs x ∨
      (target ≤ x ∧ x ≤ target + name.length)) (findModuleByName fuel list target) m) ∧
    ∃ found, ∀ fuel, 2 ^ 32 < fuel → (findModuleByName fuel list target).value m = some found := by
  have visits := findVisit_visits text
  unfold findModuleByName
  by_cases null : list = 0 ∨ target = 0
  · simp only [if_pos null]
    exact ⟨fun _ => within_pure _, _, fun _ _ => rfl⟩
  · simp only [if_neg null]
    obtain ⟨best, ends⟩ : ∃ best, ∀ fuel, 2 ^ 32 < fuel → (scanList (findVisit target) (fun _ => false) fuel
        maxRegions list ⟨0, 0, 0⟩).value m = some best :=
      ⟨_, fun fuel enough => scanList_value visits listed room (listed.fueled room enough) noWrap⟩
    refine ⟨fun fuel => (scanList_within visits listed room noWrap).bind (within_pure _),
      (best.hdr, some best.availableLen), fun fuel enough => ?_⟩
    rw [value_bind, ends fuel enough]
    rfl

theorem modDirPopulateFromBootList_within (listed : Listed m list rs) (room : ∀ r ∈ rs, r.base + r.len ≤ 2 ^ 32)
    (noWrap : ∀ r ∈ scanned (passed m) maxRegions rs, NoWrap (bootStride m) r) (fuel : Nat) (d : ModDir) :
    Within (fun x => (∃ r ∈ rs, r.Holds x) ∨ Listing list rs x ∨ (totRam ≤ x ∧ x < totRam + 4))
      (modDirPopulateFromBootList fuel list d) m := by
  unfold modDirPopulateFromBootList
  split
  · exact within_pure _
  · refine (within_getU32 (fun x low high => .inr (.inr ⟨low, high⟩))).bind ?_
    rw [value_getU32]
    refine (scanList_within bootVisit_visits listed room noWrap).mono ?_
    rintro x (region | listing | none)
    · exact .inl region
    · exact .inr (.inl listing)
    · exact none.elim

theorem modDirPopulateFromBootList_value (listed : Listed m list rs) (room : ∀ r ∈ rs, r.base + r.len ≤ 2 ^ 32)
    (noWrap : ∀ r ∈ scanned (passed m) maxRegions rs, NoWrap (bootStride m) r) {fuel : Nat} (d : ModDir)
    (some_list : list ≠ 0) (enough : 2 ^ 32 < fuel) :
    (modDirPopulateFromBootList fuel list d).value m =
      some (((scanned (passed m) maxRegions rs).flatMap (modules m)).foldl (enterBoot m) (0, d)) := by
  rw [modDirPopulateFromBootList, if_neg some_list, value_bind, value_getU32]
  refine (scanList_value bootVisit_visits listed room (listed.fueled room enough) noWrap).trans ?_
  rw [List.foldl_flatMap]
  exact congrArg some (List.foldl_ext _ _ _ (fun s r _ => modules_foldl s))

/-- No scan's sum wraps around: the search of F$FModul ends and looks at the regions, at their list and at
the name only. The boot scan ends and enters no module twice, unless two regions share one. -/
theorem scans_end (listed : Listed m list rs) (room : ∀ r ∈ rs, r.base + r.len ≤ 2 ^ 32) :
    (∀ target name, Text m target name → (∀ r ∈ scanned (fun _ => false) maxRegions rs, NoWrap (findStride m) r) →
      (∀ fuel, Within (fun x => (∃ r ∈ rs, r.Holds x) ∨ Listing list rs x ∨
        (target ≤ x ∧ x ≤ target + name.length)) (findModuleByName fuel list target) m) ∧
      ∃ found, ∀ fuel, 2 ^ 32 < fuel → (findModuleByName fuel list target).value m = some found) ∧
    (∀ d, (∀ r ∈ scanned (passed m) maxRegions rs, NoWrap (bootStride m) r) →
      (∀ fuel, Within (fun x => (∃ r ∈ rs, r.Holds x) ∨ Listing list rs x ∨ (totRam ≤ x ∧ x < totRam + 4))
        (modDirPopulateFromBootList fuel list d) m) ∧
      ∃ hs : List Nat, (∀ fuel, 2 ^ 32 < fuel →
          (modDirPopulateFromBootList fuel list d).value m = some (hs.foldl (enterBoot m) (0, d))) ∧
        (hs.Nodup ↔ list = 0 ∨ (scanned (passed m) maxRegions rs).Pairwise
          (fun r r' => ∀ h ∈ modules m r, h ∉ modules m r'))) := by
  refine ⟨fun target name text noWrap => findModuleByName_ends listed room text noWrap, fun d noWrap => ?_⟩
  refine ⟨fun fuel => modDirPopulateFromBootList_within listed room noWrap fuel d, ?_⟩
  by_cases null : list = 0
  · refine ⟨[], fun fuel _ => ?_, iff_of_true List.nodup_nil (.inl null)⟩
    rw [modDirPopulateFromBootList, if_pos null]
    rfl
  · refine ⟨(scanned (passed m) maxRegions rs).flatMap (modules m), fun fuel enough =>
      modDirPopulateFromBootList_value listed room noWrap d null enough, ?_⟩
    rw [List.nodup_flatMap, or_iff_right null]
    exact and_iff_right (fun r _ => modules_nodup m r)

/-- Two regions with one module each. -/
def twoModules : Mem :=
  let m := Mem.setU32 (fun _ => 0) 0x100 0x1000
  let m := m.setU32 0x104 0x30
  let m := m.setU32 0x108 0x2000
  let m := m.setU32 0x10C 0x30
  let m := m.setU16 0x1000 0x4AFC
  let m := m.setU32 0x1004 0x30
  let m := m.setU16 0x102E 0xB533
  let m := m.setU16 0x2000 0x4AFC
  let m := m.setU32 0x2004 0x30
  m.setU16 0x202E 0xB533

theorem scans_end_two : (∀ fuel, 2 ^ 32 < fuel → ∃ found, (findModuleByName fuel 0x100 0x3000).value twoModules = some found) ∧
    ∀ d, ∃ hs : List Nat, hs.Nodup ∧ ∀ fuel, 2 ^ 32 < fuel →
      (modDirPopulateFromBootList fuel 0x100 d).value twoModules = some (hs.foldl (enterBoot twoModules) (0, d)) := by
  have listed : Listed twoModules 0x100 [⟨0x1000, 0x30⟩, ⟨0x2000, 0x30⟩] := by
    refine ⟨by decide, ?_, ?_, by decide, ?_, ?_, show twoModules.getU32 0x110 = 0 from ?_⟩
    all_goals decide
  have room : ∀ r ∈ [(⟨0x1000, 0x30⟩ : Region), ⟨0x2000, 0x30⟩], r.base + r.len ≤ 2 ^ 32 := by decide
  have text : Text twoModules 0x3000 [] := show twoModules 0x3000 = 0 by decide
  have find := (scans_end listed room).1 0x3000 [] text (by decide)
  refine ⟨fun fuel enough => ?_, fun d => ?_⟩
  · obtain ⟨found, ends⟩ := find.2
    exact ⟨found, ends fuel enough⟩
  · obtain ⟨hs, ends, nodup⟩ := ((scans_end listed room).2 d (by decide)).2
    exact ⟨hs, nodup.mpr (.inr (by decide)), ends⟩

end Lists

/-- The region list names 0x40 bytes at 0x1000, with a module at 0x1002 whose size is 2 ^ 32 - 2. -/
def endless : Mem :=
  let m := Mem.setU32 (fun _ => 0) 0x100 0x1000
  let m := m.setU32 0x104 0x40
  let m := m.setU16 0x1002 0x4AFC
  let m := m.setU32 0x1006 0xFFFFFFFE
  m.setU16 0x1030 0xB502

theorem scanRegion_endless {σ : Type} {visit : Nat → Nat → σ → Reading (Nat × σ)} {stride : Nat → Nat → Nat}
    (visits : Visits m visit stride p) (first : stride 0x1000 0x40 = 2) (second : stride 0x1002 0x3E = 0xFFFFFFFE)
    (fuel : Nat) (s : σ) : (scanRegion visit 0x1000 0x40 fuel 0 s).value m = none ∧
      (scanRegion visit 0x1000 0x40 fuel 2 s).value m = none := by
  induction fuel generalizing s with
  | zero => exact ⟨rfl, rfl⟩
  | succ fuel ih =>
    constructor
    · have goes := (visits.goes (c := 0x1000) (n := 0x40) (s := s) (by decide)).trans first
      rw [scanRegion, if_pos (by decide), value_bind, show add32 0x1000 0 = 0x1000 from rfl,
        show sub32 0x40 0 = 0x40 from rfl, goes]
      exact (ih _).2
    · have goes := (visits.goes (c := 0x1002) (n := 0x3E) (s := s) (by decide)).trans second
      rw [scanRegion, if_pos (by decide), value_bind, show add32 0x1000 2 = 0x1002 from rfl,
        show sub32 0x40 2 = 0x3E from rfl, goes]
      exact (ih _).1

/-- The size wraps the offset around to where the scan began: both scans go around for ever. -/
theorem scans_endless : ∃ rs : List Region, Listed endless 0x100 rs ∧ (∀ r ∈ rs, r.base + r.len ≤ 2 ^ 32) ∧
    Text endless 0x2000 [] ∧ (∀ fuel, (findModuleByName fuel 0x100 0x2000).value endless = none) ∧
    ∀ fuel d, (modDirPopulateFromBootList fuel 0x100 d).value endless = none := by
  have text : Text endless 0x2000 [] := show endless 0x2000 = 0 by decide
  have base : endless.getU32 0x100 = 0x1000 := by decide
  have len : endless.getU32 (0x100 + 4) = 0x40 := by decide
  have ram : endless.getU32 totRam = 0 := by decide
  have ended : endless.getU32 0x108 = 0 := by decide
  refine ⟨[⟨0x1000, 0x40⟩], ⟨by decide, base, len, ended⟩, by decide, text, fun fuel => ?_, fun fuel d => ?_⟩
  · have turns := scanRegion_endless (findVisit_visits text) (by decide) (by decide) fuel ⟨0, 0, 0⟩
    rw [findModuleByName, if_neg (by decide), maxRegions, value_bind, scanList, value_bind, value_bind, value_getU32,
      value_getU32, base, len, if_neg (by decide), if_neg (by decide), value_bind, turns.1]
    rfl
  · have turns := scanRegion_endless (m := endless) bootVisit_visits (by decide) (by decide) fuel (0, d)
    rw [modDirPopulateFromBootList, if_neg (by decide), maxRegions, value_bind, value_getU32, ram, scanList, value_bind,
      value_bind, value_getU32, value_getU32, base, len, if_neg (by decide), if_neg (by decide), value_bind, turns.1]
    rfl

end Scan

end Q9OS

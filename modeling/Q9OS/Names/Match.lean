import Mathlib.Tactic
import Q9OS.Names.Parse

/-!
# Module names and parsed names

`Q9K_ModDirNamesMatch` of `q9kernel_moddir.c` against the name that F$PrsNam
reads of the same text.
-/

namespace Q9OS

namespace ModDir

open PrsNam

/-- A character without its mark, in lower case. -/
def plainLower (c : UInt8) : Nat := lower (c.toNat % 128)

/-- Equal but for case and marks. -/
def SameName (name name' : List UInt8) : Prop := name.map plainLower = name'.map plainLower

instance (name name' : List UInt8) : Decidable (SameName name name') :=
  inferInstanceAs (Decidable (name.map plainLower = name'.map plainLower))

/-- A name of a module at `a`, with its end within `maxLen` bytes: a mark on the last character, or a NUL. -/
inductive ModuleName (m : Mem) : Nat → Nat → List UInt8 → Prop
  | ended {n a : Nat} (zero : m a = 0) : ModuleName m (n + 1) a []
  | marked {n a : Nat} (char : (m a).toNat % 128 ≠ 0) (mark : Marked (m a)) : ModuleName m (n + 1) a [m a]
  | more {n a : Nat} {name : List UInt8} (char : (m a).toNat % 128 ≠ 0) (plain : ¬ Marked (m a))
      (rest : ModuleName m n (a + 1) name) : ModuleName m (n + 1) a (m a :: name)

/-! ### How a target goes on -/

/-- The text starts with the characters of the name. -/
def Starts (name s : List UInt8) : Prop := SameName name (s.take name.length)

/-- What follows them in the text is taken for the end of the name: no character of a name or, behind a NUL that ends the
name of the module, one with a mark. -/
def Ends (name s : List UInt8) : Prop :=
  ∀ d ∈ (s.drop name.length).head?, ¬ Named d ∨ Marked d ∧ ∀ c ∈ name.getLast?, ¬ Marked c

/-- The text behind the slashes at its start. -/
def unrooted (s : List UInt8) : List UInt8 := s.dropWhile (· == slash)

/-- The first of as many characters as the name has, but for the last one. -/
def front (name s : List UInt8) : List UInt8 := (s.take name.length).dropLast

/-- A name of a module and a text that are told apart, or not, for the same reason by the comparison and by F$PrsNam. -/
structure Clear (name s : List UInt8) : Prop where
  /-- No slash in front of the name. -/
  root : s.head? = some slash → name ≠ [] → ¬ SameName name (firstName (unrooted s))
  /-- What is found is a name, and no mark in the text ends it before its last character. -/
  whole : Starts name s → Ends name s → (name ≠ [] ∧ ∀ c ∈ name, Named c) ∧ ∀ c ∈ front name s, ¬ Marked c
  /-- A mark on its last character is followed by what ends a name anyway. -/
  last : Starts name s → (∀ c ∈ name, Named c) → (∀ c ∈ front name s, ¬ Marked c) →
    (∃ c ∈ (s.take name.length).getLast?, Marked c) → Ends name s
  /-- Behind a name without marks no marked character goes on with it. -/
  next : Starts name s → (∀ c ∈ name.getLast?, ¬ Marked c) → (∀ c ∈ (s.take name.length).getLast?, ¬ Marked c) →
    ∀ d ∈ (s.drop name.length).head?, Marked d → ¬ Named d

variable {m : Mem} {maxLen a t : Nat} {name s : List UInt8} {c d : UInt8}

/-! ### Characters -/

theorem isNameChar_lower {x : Nat} (small : x < 128) : PrsNam.isNameChar (lower x) = PrsNam.isNameChar x := by
  decide +revert

theorem named_congr (same : plainLower c = plainLower d) (named : Named c) : Named d := by
  have small : ∀ c : UInt8, c.toNat % 128 < 128 := fun c => Nat.mod_lt _ (by decide)
  unfold Named at *
  rw [← isNameChar_lower (small d)]
  rw [← isNameChar_lower (small c)] at named
  unfold plainLower at same
  rw [← same]
  exact named

theorem plainLower_pos (char : c.toNat % 128 ≠ 0) : plainLower c ≠ 0 := by
  unfold plainLower lower
  split <;> omega

theorem isNameChar_small {x : Nat} (named : isNameChar x = true) : x < 128 := by
  unfold isNameChar at named
  grind

/-- A byte without its mark is none of a name, or the byte is one with a mark. -/
theorem isNameChar_unmasked (d : UInt8) : isNameChar d.toNat = false ↔ ¬ Named d ∨ Marked d := by
  unfold Named Marked
  by_cases small : d.toNat < 128
  · rw [Nat.mod_eq_of_lt small, isNameChar_eq, Bool.not_eq_true]
    exact (or_iff_left (by omega)).symm
  · refine iff_of_true ?_ (.inr (by omega))
    by_contra named
    exact small (isNameChar_small (Bool.of_not_eq_false named))

theorem sameName_cons (same : plainLower c = plainLower d) {name' : List UInt8} :
    SameName (c :: name) (d :: name') ↔ SameName name name' := by
  simp [SameName, same]

theorem sameName_nil {name' : List UInt8} : SameName [] name' ↔ name' = [] := by
  simp [SameName, eq_comm]

theorem not_sameName_nil : ¬ SameName (c :: name) [] := by simp [SameName]

theorem sameName_head {name' : List UInt8} (same : SameName (c :: name) (d :: name')) : plainLower c = plainLower d :=
  (List.cons.inj same).1

theorem starts_cons (same : plainLower c = plainLower d) : Starts (c :: name) (d :: s) ↔ Starts name s := by
  unfold Starts
  rw [List.length_cons, List.take_succ_cons]
  exact sameName_cons same

theorem starts_head (starts : Starts (c :: name) (d :: s)) : plainLower c = plainLower d := by
  unfold Starts at starts
  rw [List.length_cons, List.take_succ_cons] at starts
  exact sameName_head starts

/-! ### The comparison -/

theorem namesMatch_zero {n : Nat} (zero : m a = 0) : namesMatch m (n + 1) a t = !isNameChar (m.getU8 t) := by
  rw [namesMatch]
  exact if_pos (congrArg UInt8.toNat zero)

/-- The comparison of one character of a name. -/
theorem namesMatch_succ {n : Nat} (live : m.getU8 a ≠ 0) :
    namesMatch m (n + 1) a t = if plainLower (m a) ≠ plainLower (m t) then false
      else if Marked (m a) then !isNameChar (m.getU8 (t + 1) % 128) else namesMatch m n (a + 1) (t + 1) := by
  have closing : ∀ x, (x == 0 || !isNameChar (x % 128)) = !isNameChar (x % 128) := by
    intro x
    by_cases zero : x = 0
    · subst zero
      rfl
    · simp [zero]
  rw [namesMatch]
  dsimp only
  rw [if_neg live, closing]
  rfl

theorem live_of_char (char : (m a).toNat % 128 ≠ 0) : m.getU8 a ≠ 0 := by
  unfold Mem.getU8
  omega

theorem head_named (text : Text m t s) : isNameChar (m.getU8 t % 128) = false ↔ ∀ d ∈ s.head?, ¬ Named d := by
  cases s with
  | nil =>
    have zero : m t = 0 := text
    simp [Mem.getU8, zero, isNameChar]
  | cons d s =>
    obtain ⟨rfl, -, -⟩ := text
    simp [Named, Mem.getU8, ← isNameChar_eq]

theorem head_unmasked (text : Text m t s) : isNameChar (m.getU8 t) = false ↔ ∀ d ∈ s.head?, ¬ Named d ∨ Marked d := by
  cases s with
  | nil =>
    have zero : m t = 0 := text
    simp [Mem.getU8, zero, isNameChar]
  | cons d s =>
    obtain ⟨rfl, -, -⟩ := text
    rw [Mem.getU8, isNameChar_unmasked]
    simp

/-- A text whose first character is one of the name has a first character. -/
theorem Text.char_cons (text : Text m t s) (char : (m a).toNat % 128 ≠ 0) (same : plainLower (m a) = plainLower (m t)) :
    ∃ rest, s = m t :: rest ∧ Text m (t + 1) rest := by
  cases s with
  | nil =>
    have zero : m t = 0 := text
    rw [zero] at same
    exact absurd same (plainLower_pos char)
  | cons d s =>
    obtain ⟨rfl, -, rest⟩ := text
    exact ⟨s, rfl, rest⟩

theorem starts_text (text : Text m t s) (starts : Starts (c :: name) s) : plainLower c = plainLower (m t) := by
  cases s with
  | nil => exact absurd starts not_sameName_nil
  | cons d s =>
    obtain ⟨rfl, -, -⟩ := text
    exact starts_head starts

/-- The comparison finds the characters of the name, and what it takes for its end behind them. -/
theorem namesMatch_iff (stands : ModuleName m maxLen a name) (text : Text m t s) :
    namesMatch m maxLen a t = true ↔ Starts name s ∧ Ends name s := by
  induction stands generalizing t s with
  | @ended n a zero =>
    have starts : Starts [] s := rfl
    rw [namesMatch_zero zero, Bool.not_eq_true', head_unmasked text, and_iff_right starts]
    simp [Ends]
  | @marked n a char mark =>
    rw [namesMatch_succ (live_of_char char)]
    by_cases same : plainLower (m a) = plainLower (m t)
    · obtain ⟨rest, rfl, onward⟩ := Text.char_cons text char same
      rw [if_neg (not_not_intro same), if_pos mark, Bool.not_eq_true', head_named onward, starts_cons same]
      have starts : Starts [] rest := rfl
      rw [and_iff_right starts]
      simp [Ends, mark]
    · rw [if_pos same]
      exact iff_of_false Bool.false_ne_true (fun both => same (starts_text text both.1))
  | @more n a name char plain rest ih =>
    rw [namesMatch_succ (live_of_char char)]
    by_cases same : plainLower (m a) = plainLower (m t)
    · obtain ⟨tail, rfl, onward⟩ := Text.char_cons text char same
      rw [if_neg (not_not_intro same), if_neg plain, ih onward, starts_cons same]
      refine and_congr_right fun _ => ?_
      unfold Ends
      rw [List.length_cons, List.drop_succ_cons]
      cases name with
      | nil => simp [plain]
      | cons e name => rw [List.getLast?_cons_cons]
    · rw [if_pos same]
      exact iff_of_false Bool.false_ne_true (fun both => same (starts_text text both.1))

/-! ### The first name -/

theorem firstName_nil_iff : firstName s = [] ↔ ∀ d ∈ s.head?, ¬ Named d := by
  cases s with
  | nil => simp [firstName]
  | cons d s =>
    rw [firstName]
    split
    · next named =>
      refine iff_of_false ?_ (fun none => none d rfl named)
      split <;> exact List.cons_ne_nil _ _
    · next other => simpa using other

/-- The first name of a text is `name`: its characters are those of a name, no mark comes before the last one, and there it
ends. -/
theorem sameName_firstName : SameName name (firstName s) ↔
    Starts name s ∧ (∀ c ∈ name, Named c) ∧ (∀ c ∈ front name s, ¬ Marked c) ∧
      ((∃ c ∈ (s.take name.length).getLast?, Marked c) ∨ ∀ d ∈ (s.drop name.length).head?, ¬ Named d) := by
  unfold front
  induction name generalizing s with
  | nil =>
    rw [sameName_nil, firstName_nil_iff]
    simp [Starts, SameName]
  | cons c name ih =>
    cases s with
    | nil => exact iff_of_false not_sameName_nil (fun all => not_sameName_nil all.1)
    | cons d s =>
      by_cases same : plainLower c = plainLower d
      swap
      · refine iff_of_false (fun equal => same ?_) (fun all => same (starts_head all.1))
        rw [firstName] at equal
        split_ifs at equal
        · exact sameName_head equal
        · exact sameName_head equal
        · exact absurd equal not_sameName_nil
      rw [starts_cons same, firstName, List.length_cons, List.take_succ_cons, List.drop_succ_cons, List.forall_mem_cons]
      by_cases named : Named d
      swap
      · rw [if_neg named]
        exact iff_of_false not_sameName_nil (fun all => named (named_congr same all.2.1.1))
      rw [if_pos named, and_iff_right (named_congr same.symm named)]
      by_cases mark : Marked d
      · rw [if_pos mark, sameName_cons same]
        cases name with
        | nil => simp [SameName, Starts, mark]
        | cons e name =>
          -- the mark ends the name before its last character
          refine iff_of_false not_sameName_nil (fun all => ?_)
          obtain ⟨starts, -, plain, -⟩ := all
          cases s with
          | nil => exact not_sameName_nil starts
          | cons f s => exact plain d (by simp) mark
      · rw [if_neg mark, sameName_cons same, ih]
        cases name with
        | nil => simp [mark]
        | cons e name =>
          refine and_congr_right fun starts => ?_
          cases s with
          | nil => exact absurd starts not_sameName_nil
          | cons f s =>
            rw [List.length_cons, List.take_succ_cons, List.dropLast_cons_cons, List.getLast?_cons_cons]
            simp [mark]

/-! ### Both -/

/-- The module name at `a` is found at `t` exactly when it is the name that F$PrsNam reads there. -/
def Agrees (m : Mem) (maxLen a t : Nat) (name s : List UInt8) : Prop :=
  ∃ r, (∀ more, procPrsNam m (s.length + 1 + more) t = some r) ∧
    (namesMatch m maxLen a t = true ↔ r.ok = true ∧ SameName name (m.bytes r.pastName (r.nameStart - r.pastName)))

/-- What F$PrsNam reads of a text. -/
theorem procPrsNam_unrooted (text : Text m t s) (live : t ≠ 0) :
    ∃ r, (∀ more, procPrsNam m (s.length + 1 + more) t = some r) ∧ (r.ok = true ↔ firstName (unrooted s) ≠ []) ∧
      (r.ok = true → m.bytes r.pastName (r.nameStart - r.pastName) = firstName (unrooted s)) := by
  have whole : s.takeWhile (· == slash) ++ unrooted s = s := List.takeWhile_append_dropWhile
  have slashes : ∀ c ∈ s.takeWhile (· == slash), c = slash := fun c member =>
    eq_of_beq (List.all_eq_true.mp List.all_takeWhile c member)
  have head : (unrooted s).head? ≠ some slash := by
    intro first
    have other := List.head?_dropWhile_not (· == slash) s
    unfold unrooted at first
    rw [first] at other
    simp at other
  generalize s.takeWhile (· == slash) = skipped at whole slashes
  generalize unrooted s = rest at whole head
  subst whole
  have read (more : Nat) := @procPrsNam_text m t ((skipped ++ rest).length + 1 + more) skipped rest text live slashes head (by omega)
  by_cases empty : firstName rest = []
  · refine ⟨failed t, fun more => (read more).trans (by rw [if_pos empty]), ?_, fun ok => absurd ok Bool.false_ne_true⟩
    exact iff_of_false Bool.false_ne_true (fun some => some empty)
  · refine ⟨_, fun more => (read more).trans (by rw [if_neg empty]), iff_of_true rfl empty, fun _ => ?_⟩
    obtain ⟨behind, first⟩ := firstName_prefix rest
    have name : Text m (t + skipped.length) (firstName rest ++ behind) := first.symm ▸ text.drop
    have length : t + (skipped.length + (firstName rest).length) - (t + skipped.length) = (firstName rest).length := by omega
    show m.bytes (t + skipped.length) (t + (skipped.length + (firstName rest).length) - (t + skipped.length)) = _
    rw [length, name.bytes]

theorem firstName_unrooted (plain : s.head? ≠ some slash) : unrooted s = s := by
  cases s with
  | nil => rfl
  | cons c s =>
    have other : c ≠ slash := by simpa using plain
    simp [unrooted, other]

/-- A text that starts with a slash starts with no name. -/
theorem not_starts_root (root : s.head? = some slash) (some : name ≠ []) (named : ∀ c ∈ name, Named c) : ¬ Starts name s := by
  intro starts
  cases name with
  | nil => exact some rfl
  | cons c name =>
    cases s with
    | nil => cases root
    | cons d s =>
      cases root
      exact not_named_slash (named_congr (starts_head starts) (named c List.mem_cons_self))

/-- Where the text does not start with a slash in front of a name, it is clear exactly when the characters of the name with
what the comparison takes for its end are there together with what F$PrsNam takes for it. -/
theorem clear_iff (root : s.head? = some slash → name ≠ [] → ¬ SameName name (firstName (unrooted s))) :
    (Starts name s ∧ Ends name s ↔ Starts name s ∧ name ≠ [] ∧ (∀ c ∈ name, Named c) ∧ (∀ c ∈ front name s, ¬ Marked c) ∧
      ((∃ c ∈ (s.take name.length).getLast?, Marked c) ∨ ∀ d ∈ (s.drop name.length).head?, ¬ Named d)) ↔ Clear name s := by
  constructor
  · intro both
    refine ⟨root, fun starts ends => ?_, fun starts named plain mark => ?_, fun starts nul unmarked d next mark => ?_⟩
    · obtain ⟨-, some, named, plain, -⟩ := both.mp ⟨starts, ends⟩
      exact ⟨⟨some, named⟩, plain⟩
    · have some : name ≠ [] := by
        rintro rfl
        simp at mark
      exact (both.mpr ⟨starts, some, named, plain, .inl mark⟩).2
    · have ends : Ends name s := fun d' next' => .inr ⟨Option.some.inj (next.symm.trans next') ▸ mark, nul⟩
      obtain ⟨-, -, -, -, closed⟩ := both.mp ⟨starts, ends⟩
      exact closed.resolve_left (fun ⟨c, member, marked⟩ => unmarked c member marked) d next
  · rintro ⟨-, whole, last, next⟩
    constructor
    · rintro ⟨starts, ends⟩
      obtain ⟨⟨some, named⟩, plain⟩ := whole starts ends
      refine ⟨starts, some, named, plain, or_iff_not_imp_left.mpr fun unmarked d behind => ?_⟩
      rcases ends d behind with other | ⟨mark, nul⟩
      · exact other
      · exact next starts nul (fun c member marked => unmarked ⟨c, member, marked⟩) d behind mark
    · rintro ⟨starts, -, named, plain, mark | closed⟩
      · exact ⟨starts, last starts named plain mark⟩
      · exact ⟨starts, fun d behind => .inl (closed d behind)⟩

/-- For every module name and every text, the comparison agrees with F$PrsNam exactly where the text is clear. -/
theorem namesMatch_agrees_iff (m : Mem) (maxLen a t : Nat) (name s : List UInt8) (stands : ModuleName m maxLen a name)
    (text : Text m t s) (live : t ≠ 0) : Agrees m maxLen a t name s ↔ Clear name s := by
  obtain ⟨r, read, ok, bytes⟩ := procPrsNam_unrooted text live
  have parsed : (r.ok = true ∧ SameName name (m.bytes r.pastName (r.nameStart - r.pastName))) ↔
      name ≠ [] ∧ SameName name (firstName (unrooted s)) := by
    constructor
    · rintro ⟨fine, same⟩
      rw [bytes fine] at same
      refine ⟨?_, same⟩
      rintro rfl
      exact ok.mp fine (sameName_nil.mp same)
    · rintro ⟨some, same⟩
      have fine := ok.mpr (fun none => some (by simpa [SameName, none] using same))
      exact ⟨fine, by rw [bytes fine]; exact same⟩
  have agrees : Agrees m maxLen a t name s ↔
      (Starts name s ∧ Ends name s ↔ name ≠ [] ∧ SameName name (firstName (unrooted s))) := by
    rw [← namesMatch_iff stands text, ← parsed]
    constructor
    · rintro ⟨r', read', same⟩
      rw [Option.some.inj ((read 0).symm.trans (read' 0))]
      exact same
    · exact fun same => ⟨r, read, same⟩
  rw [agrees]
  by_cases astray : s.head? = some slash ∧ name ≠ [] ∧ SameName name (firstName (unrooted s))
  · obtain ⟨root, some, same⟩ := astray
    have none := not_starts_root root some (sameName_firstName.mp same).2.1
    exact iff_of_false (fun both => none (both.mpr ⟨some, same⟩).1) (fun clear => clear.root root some same)
  · have root : s.head? = some slash → name ≠ [] → ¬ SameName name (firstName (unrooted s)) :=
      fun root some same => astray ⟨root, some, same⟩
    rw [← clear_iff root]
    refine iff_congr Iff.rfl ?_
    by_cases slashed : s.head? = some slash
    · refine iff_of_false (fun both => root slashed both.1 both.2) ?_
      rintro ⟨starts, some, named, -, -⟩
      exact not_starts_root slashed some named starts
    · rw [firstName_unrooted slashed, sameName_firstName]
      exact and_left_comm

/-- `ab` at 16, `AB/c` at 32, `a` with a mark and `b` at 48. -/
def textsMem : Mem := fun x =>
  if x < 32 then [0x61, 0x62].getD (x - 16) 0
  else if x < 48 then [0x41, 0x42, 0x2F, 0x63].getD (x - 32) 0
  else [0xE1, 0x62].getD (x - 48) 0

theorem textsMem_name : ModuleName textsMem 8 16 [0x61, 0x62] :=
  .more (n := 7) (a := 16) (by decide) (by decide) (.more (n := 6) (a := 17) (by decide) (by decide) (.ended (by decide)))

theorem clear_ab : Clear [0x61, 0x62] [0x41, 0x42, 0x2F, 0x63] where
  root := by decide
  whole _ _ := by
    have a : Named 0x61 := by decide
    have b : Named 0x62 := by decide
    exact ⟨⟨by decide, by simp [a, b]⟩, by simp [front, Marked]⟩
  last _ _ _ mark := absurd mark (by simp [Marked])
  next _ _ _ := by simp [Marked]

/-- The module `ab` is found at the start of the path `AB/c`, where F$PrsNam reads `AB`. -/
theorem namesMatch_agrees_path :
    Agrees textsMem 8 16 32 [0x61, 0x62] [0x41, 0x42, 0x2F, 0x63] ∧ namesMatch textsMem 8 16 32 = true ∧
      procPrsNam textsMem 5 32 = some ⟨true, 34, 32, 2, 0x2F, 0⟩ :=
  ⟨(namesMatch_agrees_iff textsMem 8 16 32 [0x61, 0x62] [0x41, 0x42, 0x2F, 0x63] textsMem_name (by simp [textsMem])
    (by decide)).mpr clear_ab, by decide, by decide⟩

/-- The module `ab` is found in a text whose first name is `a`, ended by a mark. -/
theorem namesMatch_marked :
    ModuleName textsMem 8 16 [0x61, 0x62] ∧ Text textsMem 48 [0xE1, 0x62] ∧ namesMatch textsMem 8 16 48 = true ∧
      procPrsNam textsMem 3 48 = some ⟨true, 49, 48, 1, 0, 0⟩ ∧ ¬ Agrees textsMem 8 16 48 [0x61, 0x62] [0xE1, 0x62] := by
  refine ⟨textsMem_name, by simp [textsMem], by decide, by decide, ?_⟩
  rintro ⟨r, read, agrees⟩
  obtain rfl : ⟨true, 49, 48, 1, 0, 0⟩ = r := Option.some.inj (read 0)
  exact absurd (agrees.mp (by decide)).2 (by decide)

end ModDir

end Q9OS

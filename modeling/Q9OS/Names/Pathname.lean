import Mathlib.Tactic
import Q9OS.Names.Parse

/-!
# Path validation

`Q9K_NativeValidatePathname` of `q9kernel_iopath.c`, and what F$PrsNam reads of
the paths it accepts.
-/

namespace Q9OS

namespace Pathname

open PrsNam

def validateWalk (m : Mem) (p : Nat) : Nat → Nat → Nat → Nat → Except Nat Nat
  | 0, _, _, _ => .error eBpnam
  | fuel + 1, i, sawName, componentLen =>
    let c := m.getU8 (p + i)
    let i := i + 1
    if c = 0 then
      if componentLen = 0 ∨ sawName = 0 then .error eBpnam else .ok (p + i)
    else if c = 0x2F then
      if componentLen = 0 then
        -- the root of an absolute path
        if i = 1 ∧ sawName = 0 then validateWalk m p fuel i sawName componentLen
        else .error eBpnam
      else validateWalk m p fuel i sawName 0
    else if ¬ isNameChar (c % 128) then .error eBpnam
    else validateWalk m p fuel i 1 (componentLen + 1)

/-- The address behind the NUL of an accepted path. -/
def nativeValidatePathname (m : Mem) (pathnamePtr : Nat) : Except Nat Nat :=
  if pathnamePtr = 0 then .error eBpnam else validateWalk m pathnamePtr 256 0 0 0

/-- The names F$PrsNam returns from `ptr` on, each call at the delimiter behind the name before, and where they end. -/
def prsNames (m : Mem) (fuel : Nat) : Nat → Nat → Option (List (List UInt8) × Nat)
  | 0, _ => none
  | calls + 1, ptr =>
    if m.getU8 ptr = 0 then some ([], ptr)
    else
      (procPrsNam m fuel ptr).bind fun r =>
        if r.ok then (prsNames m fuel calls r.nameStart).map fun more => (m.bytes r.pastName r.len :: more.1, more.2)
        else none

/-- The names end at `last`. -/
def Parses (m : Mem) (ptr : Nat) (names : List (List UInt8)) (last : Nat) : Prop :=
  ∃ enough, ∀ more, prsNames m (enough + more) (enough + more) ptr = some (names, last)

/-- What stands between the slashes of a path. -/
def components (s : List UInt8) : List (List UInt8) :=
  if s.head? = some slash then s.tail.splitOn slash else s.splitOn slash

/-! ### Accepted paths -/

structure Component (c : List UInt8) : Prop where
  some : c ≠ []
  named : ∀ b ∈ c, Named b

/-- Components, each behind a slash. -/
def behind (cs : List (List UInt8)) : List UInt8 := cs.flatMap (fun c => slash :: c)

theorem behind_cons (c : List UInt8) (cs : List (List UInt8)) : behind (c :: cs) = slash :: (c ++ behind cs) := by
  simp [behind]

theorem length_le_behind (cs : List (List UInt8)) : cs.length ≤ (behind cs).length := by
  induction cs with
  | nil => exact le_refl _
  | cons c cs ih =>
    rw [behind_cons]
    simp only [List.length_cons, List.length_append]
    omega

theorem whole {c : List UInt8} (named : ∀ b ∈ c, Named b) : slash ∉ c :=
  fun member => not_named_slash (named slash member)

theorem splitOn_behind {c : List UInt8} {cs : List (List UInt8)} (named : ∀ b ∈ c, Named b)
    (comps : ∀ c ∈ cs, Component c) : (c ++ behind cs).splitOn slash = c :: cs := by
  induction cs generalizing c with
  | nil => rw [behind, List.flatMap_nil, List.append_nil, List.splitOn_eq_singleton (whole named)]
  | cons d cs ih =>
    obtain ⟨first, rest⟩ := List.forall_mem_cons.mp comps
    rw [behind_cons, List.splitOn_append_cons_self, List.splitOn_eq_singleton (whole named), ih first.named rest]
    rfl

variable {m : Mem} {p i fuel past : Nat} {s c : List UInt8} {cs : List (List UInt8)}

/-- Past the first character the walk accepts the rest of a component and more components. -/
theorem validateWalk_ok {sawName componentLen : Nat} (inside : 0 < i)
    (accepted : validateWalk m p fuel i sawName componentLen = .ok past) :
    ∃ c cs, Text m (p + i) (c ++ behind cs) ∧ (∀ b ∈ c, Named b) ∧ (componentLen = 0 → c ≠ []) ∧
      (∀ c ∈ cs, Component c) ∧ past = p + i + (c ++ behind cs).length + 1 ∧ (c ++ behind cs).length < fuel := by
  induction fuel generalizing i sawName componentLen with
  | zero => simp [validateWalk] at accepted
  | succ fuel ih =>
    rw [validateWalk] at accepted
    split_ifs at accepted with zero empty isSlash start root named
    · obtain rfl := Except.ok.inj accepted
      have ended : m (p + i) = 0 := UInt8.toNat_inj.mp zero
      exact ⟨[], [], ended, by simp, fun none => absurd (.inl none) empty, by simp, by simp [behind]; omega, by simp [behind]⟩
    · omega
    · obtain ⟨c, cs, text, named, first, comps, rfl, short⟩ := ih (by omega) accepted
      have here : m (p + i) = slash := UInt8.toNat_inj.mp isSlash
      refine ⟨[], c :: cs, ?_, by simp, fun none => absurd none start,
        List.forall_mem_cons.mpr ⟨⟨first rfl, named⟩, comps⟩, ?_, ?_⟩
      · rw [behind_cons]
        exact ⟨here, by decide, text⟩
      · rw [behind_cons]
        simp
        omega
      · rw [behind_cons]
        simpa using short
    · obtain ⟨c, cs, text, rest, first, comps, rfl, short⟩ := ih (by omega) accepted
      have live : m (p + i) ≠ 0 := fun none => zero (congrArg UInt8.toNat none)
      refine ⟨m (p + i) :: c, cs, ⟨rfl, live, text⟩, List.forall_mem_cons.mpr ⟨named, rest⟩,
        by simp, comps, by simp; omega, by simpa using short⟩

/-- An accepted path is a sequence of components, absolute or relative. -/
theorem validated (accepted : nativeValidatePathname m p = .ok past) :
    p ≠ 0 ∧ ∃ c cs, Component c ∧ (∀ c ∈ cs, Component c) ∧ ∃ root, (root = [] ∨ root = [slash]) ∧
      Text m p (root ++ (c ++ behind cs)) ∧ past = p + (root ++ (c ++ behind cs)).length + 1 ∧
      (root ++ (c ++ behind cs)).length < 256 := by
  unfold nativeValidatePathname at accepted
  split at accepted
  · simp at accepted
  · next live =>
    refine ⟨live, ?_⟩
    rw [validateWalk] at accepted
    by_cases zero : m p = 0
    · simp [zero, Mem.getU8] at accepted
    have byte : m.getU8 (p + 0) ≠ 0 := fun none => zero (UInt8.toNat_inj.mp none)
    rw [if_neg byte] at accepted
    by_cases isSlash : m.getU8 (p + 0) = 0x2F
    · rw [if_pos isSlash, if_pos rfl, if_pos ⟨rfl, rfl⟩] at accepted
      obtain ⟨c, cs, text, named, first, comps, rfl, short⟩ := validateWalk_ok (by decide) accepted
      have here : m p = slash := UInt8.toNat_inj.mp isSlash
      exact ⟨c, cs, ⟨first rfl, named⟩, comps, [slash], .inr rfl, ⟨here, by decide, text⟩, by simp; omega, by simp at *; omega⟩
    · rw [if_neg isSlash] at accepted
      split at accepted
      · exact absurd accepted (by simp)
      · next named =>
        obtain ⟨c, cs, text, rest, first, comps, rfl, short⟩ := validateWalk_ok (by decide) accepted
        have first : Named (m p) := not_not.mp named
        exact ⟨m p :: c, cs, ⟨by simp, List.forall_mem_cons.mpr ⟨first, rest⟩⟩, comps, [], .inl rfl, ⟨rfl, zero, text⟩,
          by simp; omega, by simp at *; omega⟩

theorem components_eq {root : List UInt8} (first : Component c) (comps : ∀ c ∈ cs, Component c)
    (slashes : root = [] ∨ root = [slash]) : components (root ++ (c ++ behind cs)) = c :: cs := by
  have split := splitOn_behind first.named comps
  obtain rfl | rfl := slashes
  · obtain ⟨b, c, rfl⟩ := List.exists_cons_of_ne_nil first.some
    have relative : ([] ++ (b :: c ++ behind cs)).head? ≠ some slash := by
      intro head
      have same : b = slash := by simpa using head
      exact not_named_slash (same ▸ first.named b List.mem_cons_self)
    rw [components, if_neg relative]
    exact split
  · rw [components, if_pos (by simp)]
    exact split

/-! ### Their names -/

/-- The mark ends a component, if it carries one. -/
def Plain (c : List UInt8) : Prop := ∀ b ∈ c.dropLast, ¬ Marked b

theorem behind_head (cs : List (List UInt8)) : ∀ d ∈ (behind cs).head?, ¬ Named d := by
  cases cs with
  | nil => simp [behind]
  | cons c cs =>
    rw [behind_cons]
    simpa using not_named_slash

/-- One call reads one component. -/
theorem prsNames_component {root : List UInt8} {calls : Nat} (slashes : root = [] ∨ root = [slash])
    (text : Text m p (root ++ (c ++ behind cs))) (live : p ≠ 0) (component : Component c) (plain : Plain c)
    (enough : (root ++ (c ++ behind cs)).length < fuel) (short : c.length < 65536) :
    prsNames m fuel (calls + 1) p =
      (prsNames m fuel calls (p + root.length + c.length)).map fun more => (c :: more.1, more.2) := by
  have name : firstName (c ++ behind cs) = c :=
    firstName_append component.named plain (behind_head cs) component.some
  obtain ⟨b, rest, whole⟩ := List.exists_cons_of_ne_nil component.some
  have head : (c ++ behind cs).head? ≠ some slash := by
    rw [whole]
    intro same
    have same : b = slash := by simpa using same
    exact not_named_slash (same ▸ component.named b (whole ▸ List.mem_cons_self))
  have skipped : ∀ c ∈ root, c = slash := by
    obtain rfl | rfl := slashes <;> simp
  have read := procPrsNam_text text live skipped head enough
  rw [name, if_neg component.some] at read
  have going : m.getU8 p ≠ 0 := by
    intro ended
    have empty := text.getU8_zero.mp ended
    rw [whole] at empty
    simp at empty
  have bytes : m.bytes (p + root.length) c.length = c := text.drop.bytes
  rw [prsNames, if_neg going, read]
  simp only [Option.bind_some, found, if_true, Nat.add_sub_cancel_left, Nat.mod_eq_of_lt short, bytes, Nat.add_assoc]

theorem prsNames_behind {calls : Nat} (text : Text m p (behind cs)) (live : p ≠ 0) (comps : ∀ c ∈ cs, Component c)
    (plain : ∀ c ∈ cs, Plain c) (enough : (behind cs).length < fuel) (short : (behind cs).length < 65536)
    (calls_left : cs.length < calls) : prsNames m fuel calls p = some (cs, p + (behind cs).length) := by
  induction cs generalizing p calls with
  | nil =>
    obtain ⟨calls, rfl⟩ := Nat.exists_eq_succ_of_ne_zero (Nat.ne_of_gt calls_left)
    rw [prsNames, if_pos (text.getU8_zero.mpr rfl)]
    rfl
  | cons c cs ih =>
    obtain ⟨calls, rfl⟩ := Nat.exists_eq_succ_of_ne_zero (Nat.ne_of_gt (Nat.zero_lt_of_lt calls_left))
    obtain ⟨first, rest⟩ := List.forall_mem_cons.mp comps
    obtain ⟨firstPlain, restPlain⟩ := List.forall_mem_cons.mp plain
    rw [behind_cons] at text enough short ⊢
    simp only [List.length_cons, List.length_append] at enough short calls_left
    have text : Text m p ([slash] ++ (c ++ behind cs)) := text
    have onward : Text m (p + 1 + c.length) (behind cs) := text.drop.drop
    rw [prsNames_component (.inr rfl) text live first firstPlain (by simp; omega) (by omega), List.length_singleton,
      ih onward (by omega) rest restPlain (by omega) (by omega) (by omega)]
    simp
    omega

theorem nameEnd_plain {e : Nat} (ends : nameEnd m p fuel i = some e) :
    i ≤ e ∧ ∀ k, i ≤ k → k + 1 < e → m.getU8 (p + k) < 128 := by
  induction fuel generalizing i with
  | zero => simp [nameEnd] at ends
  | succ fuel ih =>
    rw [nameEnd] at ends
    split_ifs at ends with named marked
    · obtain rfl := Option.some.inj ends
      exact ⟨by omega, by omega⟩
    · obtain ⟨inside, plain⟩ := ih ends
      refine ⟨by omega, ?_⟩
      intro k above below
      obtain rfl | later : k = i ∨ i + 1 ≤ k := by omega
      · omega
      · exact plain k later below
    · obtain rfl := Option.some.inj ends
      exact ⟨le_refl _, by omega⟩

/-- No name that F$PrsNam returns carries a mark before its last character. -/
theorem procPrsNam_plain {r : Result} (read : procPrsNam m fuel p = some r) (ok : r.ok = true) :
    Plain (m.bytes r.pastName r.len) := by
  unfold procPrsNam at read
  split at read
  · obtain rfl := Option.some.inj read
    exact absurd ok Bool.false_ne_true
  · obtain ⟨start, -, read⟩ := Option.bind_eq_some_iff.mp read
    obtain ⟨e, ends, read⟩ := Option.map_eq_some_iff.mp read
    obtain ⟨inside, plain⟩ := nameEnd_plain ends
    split at read
    · subst read
      exact absurd ok Bool.false_ne_true
    · subst read
      intro b member
      have short : (e - start) % 65536 ≤ e - start := Nat.mod_le _ _
      cases long : (e - start) % 65536 with
      | zero => simp [found, long, Mem.bytes] at member
      | succ n =>
        simp only [found, long, Mem.dropLast_bytes] at member
        obtain ⟨k, below, rfl⟩ := Mem.mem_bytes.mp member
        have small := plain (start + k) (by omega) (by omega)
        rw [← Nat.add_assoc] at small
        exact Nat.not_le_of_lt small

theorem prsNames_plain {calls last : Nat} {names : List (List UInt8)} (read : prsNames m fuel calls p = some (names, last)) :
    ∀ c ∈ names, Plain c := by
  induction calls generalizing p names with
  | zero => simp [prsNames] at read
  | succ calls ih =>
    rw [prsNames] at read
    split at read
    · obtain ⟨rfl, -⟩ := Prod.mk.inj (Option.some.inj read)
      simp
    · obtain ⟨r, first, read⟩ := Option.bind_eq_some_iff.mp read
      split at read
      · next ok =>
        obtain ⟨⟨more, last'⟩, rest, same⟩ := Option.map_eq_some_iff.mp read
        obtain ⟨rfl, rfl⟩ := Prod.mk.inj same
        exact List.forall_mem_cons.mpr ⟨procPrsNam_plain first ok, ih rest⟩
      · exact absurd read (by simp)

/-- F$PrsNam reads the components of an accepted path, and ends at the NUL where the validator stopped, exactly when no
component carries a mark before its last character. -/
theorem validated_parses_iff (m : Mem) (pathnamePtr past : Nat) (accepted : nativeValidatePathname m pathnamePtr = .ok past) :
    ∃ s, Text m pathnamePtr s ∧ past = pathnamePtr + s.length + 1 ∧
      (Parses m pathnamePtr (components s) (past - 1) ↔ ∀ c ∈ components s, ∀ b ∈ c.dropLast, ¬ Marked b) := by
  obtain ⟨live, c, cs, component, comps, root, slashes, text, rfl, short⟩ := validated accepted
  refine ⟨_, text, rfl, ?_⟩
  rw [components_eq component comps slashes]
  constructor
  · rintro ⟨enough, parsed⟩
    exact prsNames_plain (parsed 0)
  · intro plain
    obtain ⟨firstPlain, restPlain⟩ := List.forall_mem_cons.mp plain
    simp only [List.length_append] at short
    have some := List.length_pos_iff.mpr component.some
    have onward : Text m (pathnamePtr + root.length + c.length) (behind cs) := text.drop.drop
    have few := length_le_behind cs
    refine ⟨256 + 1, fun more => ?_⟩
    rw [show 256 + 1 + more = 256 + more + 1 by omega, prsNames_component slashes text live component firstPlain
      (by simp; omega) (by omega), prsNames_behind onward (by omega) comps restPlain (by omega) (by omega) (by omega)]
    simp
    omega

/-- `/x/ab` at 16, with marks on `x` and `b`. -/
def sample : Mem := fun x => [0x2F, 0xF8, 0x2F, 0x61, 0xE2].getD (x - 16) 0

theorem validated_parses_sample :
    nativeValidatePathname sample 16 = .ok 22 ∧ Parses sample 16 [[0xF8], [0x61, 0xE2]] 21 := by
  have accepted : nativeValidatePathname sample 16 = .ok 22 := by rfl
  obtain ⟨s, text, -, parses⟩ := validated_parses_iff sample 16 22 accepted
  obtain rfl : s = [0x2F, 0xF8, 0x2F, 0x61, 0xE2] := text.unique (by simp [sample])
  have split : components [0x2F, 0xF8, 0x2F, 0x61, 0xE2] = [[0xF8], [0x61, 0xE2]] := by decide
  rw [split] at parses
  exact ⟨accepted, parses.mpr (by simp [Marked])⟩

/-- `/ab` at 16, with a mark on `a`. -/
def markedMem : Mem := fun x => [0x2F, 0xE1, 0x62].getD (x - 16) 0

/-- The one component of `markedMem` is read as two names. -/
theorem validated_parses_fails :
    ¬ ∀ (m : Mem) (pathnamePtr past : Nat), nativeValidatePathname m pathnamePtr = .ok past →
      ∃ s, Text m pathnamePtr s ∧ past = pathnamePtr + s.length + 1 ∧ Parses m pathnamePtr (components s) (past - 1) := by
  intro always
  obtain ⟨s, text, -, enough, parsed⟩ := always markedMem 16 20 rfl
  have whole : Text markedMem 16 [0x2F, 0xE1, 0x62] := by simp [markedMem]
  obtain rfl := text.unique whole
  have plain := prsNames_plain (parsed 0) [0xE1, 0x62] (by decide) 0xE1 (by decide)
  exact plain (by decide)

end Pathname

end Q9OS

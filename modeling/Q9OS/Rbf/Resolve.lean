import Mathlib.Tactic
import Q9OS.Rbf.PathWalk

/-!
# Paths through a tree

A tree of directories, the routes through it, and what `Rbf_ParsePath` makes of
the text of a route. The driver never fails here.
-/

namespace Q9OS.Rbf

/-! ### Trees and routes -/

/-- A tree of well-formed directories: `node` holds of all its files. -/
structure Tree where
  disk : Disk
  node : Nat → Prop
  parent : Nat → Nat
  kept : ∀ d name d2, node d → lookup disk d name = some d2 → node d2
  self : ∀ d, node d → isDirectory (disk d) = true → lookup disk d [dot] = some d
  up : ∀ d, node d → isDirectory (disk d) = true → lookup disk d [dot, dot] = some (parent d)
  above : ∀ d, node d → isDirectory (disk d) = true → isDirectory (disk (parent d)) = true

/-- A name of 1 to 28 bytes that a path may hold. -/
structure Name where
  bytes : Chars
  some : bytes ≠ []
  short : bytes.length ≤ 28
  inner : ∀ c ∈ bytes, endsDots c = false
  low : ∀ c ∈ bytes, ¬ 0x80 ≤ c
  head : cur bytes ≠ dot

/-- A component of a path. The dots are counted in a word. -/
inductive Comp
  | here
  | up (k : Nat) (more : 2 ≤ k) (word : k < 65536)
  | name (n : Name)

def Comp.text : Comp → Chars
  | here => [dot]
  | up k _ _ => List.replicate k dot
  | name n => n.bytes

/-- Where a component leads from a descriptor. -/
def Tree.step (t : Tree) (d : Nat) : Comp → Option Nat
  | .here => if isDirectory (t.disk d) then some d else none
  | .up k _ _ => if isDirectory (t.disk d) then some (t.parent^[k - 1] d) else none
  | .name n => lookup t.disk d n.bytes

/-- Where some components lead, one after the other. -/
def Tree.follow (t : Tree) : Nat → List Comp → Option Nat
  | d, [] => some d
  | d, comp :: comps => (t.step d comp).bind fun d2 => t.follow d2 comps

def slashes (n : Nat) : Chars := List.replicate n slash

/-- Components with one or more slashes between them, then slashes, then the end: a NUL, or a carriage return. -/
structure Route where
  first : Comp
  rest : List (Nat × Comp)
  trailing : Nat
  stop : Chars
  ended : cur stop = 0 ∨ cur stop = carriageReturn

/-- The text behind a component; `n + 1` slashes stand in front of one that follows. -/
def tailText (trailing : Nat) (stop : Chars) : List (Nat × Comp) → Chars
  | [] => slashes trailing ++ stop
  | (n, comp) :: rest => slashes (n + 1) ++ comp.text ++ tailText trailing stop rest

namespace Route

def text (r : Route) : Chars := r.first.text ++ tailText r.trailing r.stop r.rest

def comps (r : Route) : List Comp := r.first :: r.rest.map Prod.snd

end Route

/-! ### Scanning the text -/

theorem skipSlashes_stay {s : Chars} (slash : cur s ≠ slash) (space : cur s ≠ space) : skipSlashes s = s := by
  cases s with
  | nil => rfl
  | cons c s => exact List.dropWhile_cons_of_neg (by simpa [cur] using And.intro slash space)

theorem skipSlashes_slashes (n : Nat) (s : Chars) : skipSlashes (slashes n ++ s) = skipSlashes s := by
  induction n with
  | zero => rfl
  | succ n ih => exact ih

theorem skipSlashes_end {s : Chars} (ended : cur s = 0 ∨ cur s = carriageReturn) : skipSlashes s = s := by
  apply skipSlashes_stay <;> rcases ended with h | h <;> rw [h] <;> decide

theorem cur_append {s : Chars} (some : s ≠ []) (s' : Chars) : cur (s ++ s') = cur s := by
  cases s with
  | nil => exact absurd rfl some
  | cons c s => rfl

theorem cur_member {s : Chars} (some : s ≠ []) : cur s ∈ s := by
  cases s with
  | nil => exact absurd rfl some
  | cons c s => exact List.mem_cons_self

theorem Comp.text_some (comp : Comp) : comp.text ≠ [] := by
  cases comp with
  | here => exact List.cons_ne_nil _ _
  | up k more word => exact List.ne_nil_of_length_pos (by rw [Comp.text, List.length_replicate]; omega)
  | name n => exact n.some

/-- The first byte of a component ends nothing. -/
theorem Comp.text_cur (comp : Comp) : endsDots (cur comp.text) = false := by
  cases comp with
  | here => rfl
  | up k more word =>
    obtain ⟨k, rfl⟩ := Nat.exists_eq_add_of_le' (Nat.le_of_succ_le more)
    rfl
  | name n => exact n.inner _ (cur_member n.some)

theorem endsDots_false {c : UInt8} (inner : endsDots c = false) :
    c ≠ 0 ∧ c ≠ slash ∧ c ≠ space ∧ c ≠ carriageReturn ∧ c ≠ atSign := by
  simpa [endsDots, endsName, and_assoc] using inner

theorem skipSlashes_text (comp : Comp) (s : Chars) : skipSlashes (comp.text ++ s) = comp.text ++ s := by
  obtain ⟨_, slash, space, _⟩ := endsDots_false comp.text_cur
  exact skipSlashes_stay (by rwa [cur_append comp.text_some]) (by rwa [cur_append comp.text_some])

theorem ends_not_dot {s : Chars} (ended : endsDots (cur s) = true) : cur s ≠ dot := by
  intro h
  rw [h] at ended
  exact absurd ended (by decide)

/-- A run of dots, with something else behind it. -/
theorem parseComponent_run {k : Nat} (some : 1 ≤ k) (word : k < 65536) {s : Chars} (ended : endsDots (cur s) = true) :
    parseComponent (List.replicate k dot ++ s) =
      if 3 ≤ k then .ok ⟨List.replicate k dot ++ s, List.replicate (k - 1) dot ++ s, slash, 2⟩
      else .ok ⟨List.replicate k dot ++ s, s, cur s, k⟩ := by
  have other := ends_not_dot ended
  have stop : s.takeWhile (· == dot) = [] := by
    cases s with
    | nil => rfl
    | cons c s => exact List.takeWhile_cons_of_neg (by simpa [cur] using other)
  have count : ((List.replicate k dot ++ s).takeWhile (· == dot)).length = k := by
    rw [List.takeWhile_append_of_pos (fun c member => by simp [List.eq_of_mem_replicate member]), stop, List.append_nil,
      List.length_replicate]
  have behind : (List.replicate k dot ++ s).drop k = s := List.drop_left' List.length_replicate
  obtain ⟨k, rfl⟩ := Nat.exists_eq_add_of_le' some
  have skip : (List.replicate (k + 1) dot ++ s).dropWhile (· == space) = List.replicate (k + 1) dot ++ s := rfl
  have first : cur (List.replicate (k + 1) dot ++ s) = dot := rfl
  have tail : (List.replicate (k + 1) dot ++ s).tail = List.replicate (k + 1 - 1) dot ++ s := rfl
  unfold parseComponent
  simp only [skip, if_pos first, count, behind, Nat.mod_eq_of_lt word, if_pos ended, tail]

theorem nameLoop_name {name : Chars} (inner : ∀ c ∈ name, endsDots c = false) (low : ∀ c ∈ name, ¬ 0x80 ≤ c) {s : Chars}
    (ended : endsDots (cur s) = true) : nameLoop (name ++ s) = (s, cur s) := by
  induction name with
  | nil =>
    cases s with
    | nil => rfl
    | cons c s => exact if_pos ended
  | cons c name ih =>
    rw [List.cons_append, nameLoop, inner c List.mem_cons_self, if_neg (by decide), if_neg (low c List.mem_cons_self)]
    exact ih (fun c member => inner c (List.mem_cons_of_mem _ member)) (fun c member => low c (List.mem_cons_of_mem _ member))

theorem parseComponent_name (n : Name) {s : Chars} (ended : endsDots (cur s) = true) :
    parseComponent (n.bytes ++ s) = .ok ⟨n.bytes ++ s, s, cur s, n.bytes.length⟩ := by
  have first := cur_append n.some s
  obtain ⟨_, _, blank, _⟩ := endsDots_false (n.inner _ (cur_member n.some))
  have skip : (n.bytes ++ s).dropWhile (· == space) = n.bytes ++ s := by
    rw [← first] at blank
    cases h : n.bytes ++ s with
    | nil => rfl
    | cons c s' =>
      rw [h] at blank
      exact List.dropWhile_cons_of_neg (by simpa [cur] using blank)
  have length : (n.bytes ++ s).length - s.length = n.bytes.length := by simp
  have positive : n.bytes.length ≠ 0 := fun h => n.some (List.length_eq_zero_iff.mp h)
  have short := n.short
  have word : n.bytes.length % 65536 = n.bytes.length := Nat.mod_eq_of_lt (by omega)
  unfold parseComponent
  rw [skip, if_neg (by rw [first]; exact n.head)]
  simp only [nameLoop_name n.inner n.low ended, length, if_neg positive, word, if_pos short]

/-! ### Walking -/

/-- A walk over a quiet drive ends at a descriptor, or finds a step that does not exist. -/
def Ends (disk : Disk) (x : EStateM.Result Failure Drive Found) : Option Nat → Prop
  | some d => ∃ f : Found, x = .ok f (Drive.quiet disk) ∧ f.d2 = d
  | none => x = .error (.error errPnnf) (Drive.quiet disk)

/-- A round over a component with a slash behind it. -/
theorem walk_slash {disk : Disk} {n d : Nat} {a2 name : Chars} {c : Component} {after : Nat → Option Nat}
    (parsed : parseComponent a2 = .ok c) (some : c.length ≠ 0) (delim : c.delim = slash) (taken : c.start.take c.length = name)
    (plain : Plain name)
    (goes : ∀ d2, lookup disk d name = Option.some d2 → Ends disk
      ((if cur (skipSlashes c.next) = 0 ∨ cur (skipSlashes c.next) = carriageReturn then pure ⟨true, d2, d2, name⟩
        else walkComponents (finalComp false) n d2 (skipSlashes c.next) : Drv Found) (Drive.quiet disk)) (after d2)) :
    Ends disk (walkComponents (finalComp false) (n + 1) d a2 (Drive.quiet disk)) ((lookup disk d name).bind after) := by
  have scan : scanDir d name (Drive.quiet disk) = _ := scanDir_quiet plain d
  unfold walkComponents
  simp only [parsed, if_neg some, if_pos delim, taken]
  cases found : lookup disk d name with
  | none =>
    rw [found] at scan
    exact bind_error scan
  | some d2 =>
    rw [found] at scan
    rw [bind_ok scan]
    exact goes d2 found

/-- The round over the last component. -/
theorem walk_last {disk : Disk} {n d : Nat} {a2 name : Chars} {c : Component} (parsed : parseComponent a2 = .ok c)
    (some : c.length ≠ 0) (delim : c.delim ≠ slash) (taken : c.start.take c.length = name) (plain : Plain name) :
    Ends disk (walkComponents (finalComp false) (n + 1) d a2 (Drive.quiet disk)) (lookup disk d name) := by
  have scan : scanDir d name (Drive.quiet disk) = _ := scanDir_quiet plain d
  unfold walkComponents
  simp only [parsed, if_neg some, if_neg delim, taken]
  unfold finalComp
  rw [scan]
  cases lookup disk d name with
  | none => rfl
  | some d2 => exact ⟨_, rfl, rfl⟩

theorem twoDots_plain : Plain [dot, dot] := ⟨by simp, by simp [endsName, dot, slash, space, carriageReturn]⟩

theorem Comp.plain (comp : Comp) (inner : ∀ k more word, comp = .up k more word → k = 2) : Plain comp.text := by
  cases comp with
  | here => exact ⟨by simp [text], by simp [text, endsName, dot, slash, space, carriageReturn]⟩
  | up k more word =>
    obtain rfl := inner k more word rfl
    exact ⟨by simp [text], by simp [text, endsName, dot, slash, space, carriageReturn]⟩
  | name n => exact ⟨n.short, fun c member => (Bool.or_eq_false_iff.mp (n.inner c member)).1⟩

theorem lookup_file {disk : Disk} {d : Nat} (file : ¬ isDirectory (disk d) = true) (name : Chars) : lookup disk d name = none :=
  if_neg file

namespace Tree
variable (t : Tree) {d : Nat} (node : t.node d)
include node

theorem step_here : t.step d .here = lookup t.disk d [dot] := by
  unfold step
  by_cases directory : isDirectory (t.disk d) = true
  · simp [directory, t.self d node directory]
  · simp [directory, lookup_file directory]

theorem step_two (more : 2 ≤ 2) (word : 2 < 65536) : t.step d (.up 2 more word) = lookup t.disk d [dot, dot] := by
  unfold step
  by_cases directory : isDirectory (t.disk d) = true
  · simp [directory, t.up d node directory]
  · simp [directory, lookup_file directory]

/-- More dots than two are one step up and the dots but one. -/
theorem step_climb {k : Nat} (more : 2 ≤ k) (word : k + 1 < 65536) (more' : 2 ≤ k + 1) :
    t.step d (.up (k + 1) more' word) =
      (lookup t.disk d [dot, dot]).bind fun d2 => t.step d2 (.up k more (Nat.lt_of_succ_lt word)) := by
  unfold step
  by_cases directory : isDirectory (t.disk d) = true
  · obtain ⟨k, rfl⟩ := Nat.exists_eq_add_of_le' (Nat.le_of_succ_le more)
    simp [directory, t.up d node directory, t.above d node directory]
  · simp [directory, lookup_file directory]

end Tree

section Walk
variable (t : Tree) {trailing : Nat} {stop : Chars} (ended : cur stop = 0 ∨ cur stop = carriageReturn)
include ended

theorem tailText_ends (rest : List (Nat × Comp)) : endsDots (cur (tailText trailing stop rest)) = true := by
  have stops : endsDots (cur stop) = true := by rcases ended with h | h <;> rw [h] <;> decide
  cases rest with
  | nil =>
    cases trailing with
    | zero => exact stops
    | succ m => rfl
  | cons entry rest => rfl

/-- A round over a component that is one name of a directory, when the rounds behind it do what they should. -/
theorem walk_word {rest : List (Nat × Comp)} {n d : Nat} {name : Chars} (some : name ≠ []) (plain : Plain name)
    (parsed : parseComponent (name ++ tailText trailing stop rest) =
      .ok ⟨name ++ tailText trailing stop rest, tailText trailing stop rest, cur (tailText trailing stop rest), name.length⟩)
    (goes : ∀ m comp rest' d2, rest = (m, comp) :: rest' → lookup t.disk d name = Option.some d2 →
      Ends t.disk (walkComponents (finalComp false) n d2 (comp.text ++ tailText trailing stop rest') (Drive.quiet t.disk))
        (t.follow d2 (comp :: rest'.map Prod.snd))) :
    Ends t.disk (walkComponents (finalComp false) (n + 1) d (name ++ tailText trailing stop rest) (Drive.quiet t.disk))
      ((lookup t.disk d name).bind fun d2 => t.follow d2 (rest.map Prod.snd)) := by
  have length : name.length ≠ 0 := fun h => some (List.length_eq_zero_iff.mp h)
  have taken (s : Chars) : (name ++ s).take name.length = name := List.take_left' rfl
  cases rest with
  | nil =>
    cases trailing with
    | zero =>
      have whole : ((lookup t.disk d name).bind fun d2 => t.follow d2 (List.map Prod.snd ([] : List (Nat × Comp)))) =
        lookup t.disk d name := Option.bind_fun_some _
      rw [whole]
      apply walk_last parsed length _ (taken _) plain
      show cur stop ≠ slash
      rcases ended with h | h <;> rw [h] <;> decide
    | succ m =>
      apply walk_slash parsed length rfl (taken _) plain
      intro d2 _
      have stops : skipSlashes (tailText (m + 1) stop []) = stop :=
        (skipSlashes_slashes (m + 1) stop).trans (skipSlashes_end ended)
      rw [stops, if_pos ended]
      exact ⟨_, rfl, rfl⟩
  | cons entry rest' =>
    obtain ⟨m, comp⟩ := entry
    apply walk_slash parsed length rfl (taken _) plain
    intro d2 found
    have next : skipSlashes (tailText trailing stop ((m, comp) :: rest')) = comp.text ++ tailText trailing stop rest' := by
      rw [tailText, List.append_assoc, skipSlashes_slashes, skipSlashes_text]
    obtain ⟨zero, _, _, cr, _⟩ := endsDots_false comp.text_cur
    rw [next, cur_append comp.text_some, if_neg (not_or.mpr ⟨zero, cr⟩)]
    exact goes m comp rest' d2 rfl found

/-- A component and all behind it, when the rounds behind it do what they should. -/
theorem walk_comp {rest : List (Nat × Comp)} {n d : Nat} {comp : Comp} (node : t.node d)
    (fuel : (comp.text ++ tailText trailing stop rest).length < n)
    (goes : ∀ m comp' rest' n' d2, rest = (m, comp') :: rest' → t.node d2 →
      (comp'.text ++ tailText trailing stop rest').length < n' →
      Ends t.disk (walkComponents (finalComp false) n' d2 (comp'.text ++ tailText trailing stop rest') (Drive.quiet t.disk))
        (t.follow d2 (comp' :: rest'.map Prod.snd))) :
    Ends t.disk (walkComponents (finalComp false) n d (comp.text ++ tailText trailing stop rest) (Drive.quiet t.disk))
      (t.follow d (comp :: rest.map Prod.snd)) := by
  have closes : endsDots (cur (tailText trailing stop rest)) = true := tailText_ends ended rest
  -- a name of the directory `d` with enough rounds behind it
  have word (name : Chars) (d n : Nat) (node : t.node d) (some : name ≠ []) (plain : Plain name)
      (fuel : (name ++ tailText trailing stop rest).length < n + 1)
      (parsed : parseComponent (name ++ tailText trailing stop rest) =
        .ok ⟨name ++ tailText trailing stop rest, tailText trailing stop rest, cur (tailText trailing stop rest), name.length⟩) :
      Ends t.disk (walkComponents (finalComp false) (n + 1) d (name ++ tailText trailing stop rest) (Drive.quiet t.disk))
        ((lookup t.disk d name).bind fun d2 => t.follow d2 (rest.map Prod.snd)) := by
    apply walk_word t ended some plain parsed
    intro m comp' rest' d2 same found
    apply goes m comp' rest' n d2 same (t.kept d name d2 node found)
    have positive : 0 < name.length := List.length_pos_of_ne_nil some
    rw [same] at fuel
    simp only [tailText, slashes, List.length_append, List.length_replicate] at fuel ⊢
    omega
  cases n with
  | zero => exact absurd fuel (Nat.not_lt_zero _)
  | succ n =>
  unfold Tree.follow
  cases comp with
  | here =>
    rw [t.step_here node]
    apply word [dot] d n node (by decide) (Comp.here.plain (by simp)) fuel
    exact (parseComponent_run (Nat.le_refl 1) (by omega) closes).trans (if_neg (by omega))
  | name name => exact word name.bytes d n node name.some ((Comp.name name).plain (by simp)) fuel (parseComponent_name name closes)
  | up k more small =>
    -- the steps up are taken one by one
    induction k, more using Nat.le_induction generalizing n d with
    | base =>
      rw [t.step_two node]
      apply word [dot, dot] d n node (by decide) twoDots_plain fuel
      exact (parseComponent_run (by omega) small closes).trans (if_neg (by omega))
    | succ k more ih =>
      have parsed := (parseComponent_run (k := k + 1) (by omega) small closes).trans (if_pos (by omega))
      rw [t.step_climb node more, Option.bind_assoc]
      have taken : (List.replicate (k + 1) dot ++ tailText trailing stop rest).take 2 = [dot, dot] := by
        obtain ⟨k, rfl⟩ := Nat.exists_eq_add_of_le' more
        rfl
      apply walk_slash parsed (by simp) rfl taken twoDots_plain
      intro d2 found
      have first : cur (List.replicate (k + 1 - 1) dot ++ tailText trailing stop rest) = dot := by
        obtain ⟨k, rfl⟩ := Nat.exists_eq_add_of_le' (Nat.le_of_succ_le more)
        rfl
      have same : skipSlashes (List.replicate (k + 1 - 1) dot ++ tailText trailing stop rest) =
          (Comp.up k more (by omega)).text ++ tailText trailing stop rest :=
        skipSlashes_stay (by rw [first]; decide) (by rw [first]; decide)
      have first' : cur ((Comp.up k more (by omega)).text ++ tailText trailing stop rest) = dot := first
      simp only [same, first', if_neg (show ¬ (dot = 0 ∨ dot = carriageReturn) by decide)]
      cases n with
      | zero =>
        simp only [Comp.text, List.length_append, List.length_replicate] at fuel
        omega
      | succ n =>
        apply ih (t.kept d _ d2 node found) n (by omega)
        simp only [Comp.text, List.length_append, List.length_replicate] at fuel ⊢
        omega

/-- The rounds from the first name on, or from the first dots. -/
theorem walk_route (rest : List (Nat × Comp)) {n d : Nat} {comp : Comp} (node : t.node d)
    (fuel : (comp.text ++ tailText trailing stop rest).length < n) :
    Ends t.disk (walkComponents (finalComp false) n d (comp.text ++ tailText trailing stop rest) (Drive.quiet t.disk))
      (t.follow d (comp :: rest.map Prod.snd)) := by
  induction rest generalizing n d comp with
  | nil => exact walk_comp t ended node fuel (fun _ _ _ _ _ same => nomatch same)
  | cons entry rest ih =>
    apply walk_comp t ended node fuel
    intro m comp' rest' n' d2 same node fuel
    obtain ⟨_, rfl⟩ := List.cons.inj same
    exact ih node fuel

theorem special_end {m : Nat} {s : Chars} (some : 0 < m) (stops : skipSlashes s = stop) : checkSpecial m s = .dirSelf stop := by
  obtain ⟨m, rfl⟩ := Nat.exists_eq_add_of_le' some
  have last : cur stop = 0 ∨ cur stop = carriageReturn ∨ cur stop = atSign := ended.imp_right Or.inl
  unfold checkSpecial
  simp only [stops, if_pos last]

omit ended in
theorem special_walk {m : Nat} {s tail : Chars} {comp : Comp} (other : comp ≠ .here) (text : skipSlashes s = comp.text ++ tail) :
    checkSpecial (m + 1) s = .walk (comp.text ++ tail) := by
  obtain ⟨zero, _, _, cr, at_sign⟩ := endsDots_false comp.text_cur
  have first := cur_append comp.text_some tail
  unfold checkSpecial
  simp only [text, first, if_neg (not_or.mpr ⟨zero, not_or.mpr ⟨cr, at_sign⟩⟩)]
  cases comp with
  | here => exact absurd rfl other
  | name n => exact if_pos n.head
  | up k more word =>
    obtain ⟨k, rfl⟩ := Nat.exists_eq_add_of_le' more
    rfl

omit ended in
theorem special_dot {m : Nat} {s tail : Chars} (text : skipSlashes s = Comp.here.text ++ tail) :
    checkSpecial (m + 1) s =
      if cur tail = 0 ∨ cur tail = carriageReturn ∨ cur tail = space then .dirSelf (Comp.here.text ++ tail)
      else if cur tail ≠ slash then .walk (Comp.here.text ++ tail) else checkSpecial m tail := by
  have first : cur (Comp.here.text ++ tail) = dot := rfl
  have behind : (Comp.here.text ++ tail).tail = tail := rfl
  rw [checkSpecial]
  simp only [text, first, behind, if_neg (show ¬ (dot = 0 ∨ dot = carriageReturn ∨ dot = atSign) by decide),
    if_neg (not_not.mpr rfl : ¬ dot ≠ dot)]

omit ended in
theorem special_slash {m : Nat} {s tail : Chars} (text : skipSlashes s = Comp.here.text ++ tail) (closes : cur tail = slash) :
    checkSpecial (m + 1) s = checkSpecial m tail := by
  rw [special_dot text, closes, if_neg (by decide), if_neg (by decide)]

omit ended in
theorem skipSlashes_tail (m : Nat) (comp : Comp) (rest : List (Nat × Comp)) :
    skipSlashes (tailText trailing stop ((m, comp) :: rest)) = comp.text ++ tailText trailing stop rest := by
  rw [tailText, List.append_assoc, skipSlashes_slashes, skipSlashes_text]

/-- Dots at the start are passed: the walk starts at what stands behind them. -/
theorem special_route (rest : List (Nat × Comp)) {m d : Nat} {comp : Comp} {s : Chars} (directory : isDirectory (t.disk d) = true)
    (text : skipSlashes s = comp.text ++ tailText trailing stop rest) (fuel : s.length < m) :
    (∃ a2, checkSpecial m s = .dirSelf a2 ∧ t.follow d (comp :: rest.map Prod.snd) = some d) ∨
    ∃ comp' rest', checkSpecial m s = .walk (comp'.text ++ tailText trailing stop rest') ∧
      (comp'.text ++ tailText trailing stop rest').length ≤ s.length ∧
      t.follow d (comp :: rest.map Prod.snd) = t.follow d (comp' :: rest'.map Prod.snd) := by
  have shorter : (comp.text ++ tailText trailing stop rest).length ≤ s.length := by
    rw [← text]
    exact (List.dropWhile_sublist _).length_le
  induction rest generalizing m s comp with
  | nil =>
    obtain ⟨m, rfl⟩ := Nat.exists_eq_add_of_le' (Nat.zero_lt_of_lt fuel)
    by_cases other : comp ≠ .here
    · exact Or.inr ⟨comp, [], special_walk other text, shorter, rfl⟩
    obtain rfl := not_not.mp other
    left
    have stays : t.follow d [Comp.here] = some d := by simp [Tree.follow, Tree.step, directory]
    cases trailing with
    | zero => exact ⟨_, (special_dot text).trans (if_pos (ended.imp_right Or.inl)), stays⟩
    | succ k =>
      rw [Comp.text, List.length_append, List.length_singleton] at shorter
      have stops : skipSlashes (tailText (k + 1) stop []) = stop := (skipSlashes_slashes (k + 1) stop).trans (skipSlashes_end ended)
      have some : 0 < m := by
        simp only [tailText, slashes, List.length_append, List.length_replicate] at shorter
        omega
      exact ⟨stop, (special_slash text rfl).trans (special_end ended some stops), stays⟩
  | cons entry rest ih =>
    obtain ⟨m, rfl⟩ := Nat.exists_eq_add_of_le' (Nat.zero_lt_of_lt fuel)
    by_cases other : comp ≠ .here
    · exact Or.inr ⟨comp, entry :: rest, special_walk other text, shorter, rfl⟩
    obtain rfl := not_not.mp other
    obtain ⟨k, next⟩ := entry
    have stays : t.follow d (.here :: List.map Prod.snd ((k, next) :: rest)) = t.follow d (next :: rest.map Prod.snd) := by
      simp [Tree.follow, Tree.step, directory]
    have left : (tailText trailing stop ((k, next) :: rest)).length + 1 ≤ s.length := by
      rw [Comp.text, List.length_append, List.length_singleton] at shorter
      omega
    have small : (next.text ++ tailText trailing stop rest).length ≤ (tailText trailing stop ((k, next) :: rest)).length := by
      rw [← skipSlashes_tail]
      exact (List.dropWhile_sublist _).length_le
    rw [special_slash text rfl, stays]
    rcases ih (m := m) (skipSlashes_tail k next rest) (by omega) small with last | ⟨comp', rest', walk, le, same⟩
    · exact Or.inl last
    · exact Or.inr ⟨comp', rest', walk, by omega, same⟩

/-- The rounds from the start directory on. -/
theorem resolveFrom_route (rest : List (Nat × Comp)) {n d : Nat} {comp : Comp} {s : Chars} (node : t.node d)
    (directory : isDirectory (t.disk d) = true) (text : skipSlashes s = comp.text ++ tailText trailing stop rest)
    (fuel : s.length < n) :
    Ends t.disk (resolveFrom (finalComp false) n d s (Drive.quiet t.disk)) (t.follow d (comp :: rest.map Prod.snd)) := by
  unfold resolveFrom
  rcases special_route t ended rest directory text fuel with ⟨a2, special, stays⟩ | ⟨comp', rest', special, le, same⟩
  · rw [special, stays]
    exact ⟨_, rfl, rfl⟩
  · rw [special, same]
    exact walk_route t ended rest' node (Nat.lt_of_le_of_lt le fuel)

end Walk

/-! ### The start -/

/-- The directory a path starts in, by the number of the slashes at its head. -/
def Caller.start (c : Caller) (root lead : Nat) : Nat := if lead = 0 then c.relative root else root

theorem Route.text_cur (r : Route) : endsDots (cur r.text) = false := by
  rw [Route.text, cur_append r.first.text_some]
  exact r.first.text_cur

/-- A path that does not begin with the name of the device. -/
theorem origin_start (r : Route) (c : Caller) (root : Nat) {lead : Nat} (path : c.path = slashes lead ++ r.text)
    (unnamed : c.tryMatchDev (slashes (lead - 1) ++ r.text) = none) :
    c.origin root = (c.start root lead, slashes (lead - 1) ++ r.text) := by
  obtain ⟨_, other, blank, _⟩ := endsDots_false r.text_cur
  unfold Caller.origin Caller.start
  cases lead with
  | zero =>
    have text : c.path.dropWhile (· == space) = r.text := by
      rw [path]
      cases h : r.text with
      | nil => rfl
      | cons first rest =>
        rw [h] at blank
        exact List.dropWhile_cons_of_neg (by simpa [cur] using blank)
    have whole : slashes (0 - 1) ++ r.text = r.text := rfl
    rw [whole] at unnamed ⊢
    rw [text, if_neg other, unnamed, if_pos rfl]
  | succ lead =>
    have text : c.path.dropWhile (· == space) = slash :: (slashes lead ++ r.text) := by
      rw [path]
      rfl
    have whole : slashes (lead + 1 - 1) ++ r.text = slashes lead ++ r.text := rfl
    have first : cur (slash :: (slashes lead ++ r.text)) = slash := rfl
    rw [whole] at unnamed ⊢
    rw [text, if_pos first, List.tail_cons, unnamed, if_neg (Nat.succ_ne_zero _)]
    rfl

/-- `Rbf_ParsePath` over a tree: it ends at the descriptor that the components lead to one by one, or fails where one of
them does not exist or is taken from a file. -/
theorem parsePath_route (t : Tree) (r : Route) (c : Caller) (lead : Nat) {l : Lsn0} (volume : parseLSN0 (t.disk 0) = some l)
    (node : t.node (c.start l.dir lead)) (directory : isDirectory (t.disk (c.start l.dir lead)) = true)
    (path : c.path = slashes lead ++ r.text) (unnamed : c.tryMatchDev (slashes (lead - 1) ++ r.text) = none) :
    Ends t.disk (parsePath c (Drive.quiet t.disk)) (t.follow (c.start l.dir lead) r.comps) := by
  have text : skipSlashes (slashes (lead - 1) ++ r.text) = r.first.text ++ tailText r.trailing r.stop r.rest := by
    rw [skipSlashes_slashes]
    exact skipSlashes_text _ _
  have fuel : (slashes (lead - 1) ++ r.text).length < c.path.length + 1 := by
    simp only [path, slashes, List.length_append, List.length_replicate]
    omega
  have ran := resolveFrom_route t r.ended r.rest node directory text fuel
  unfold parsePath parsePathCommon parsePathWith
  rw [bind_ok (Drive.readSector_quiet t.disk 0), volume]
  show Ends t.disk (resolveFrom (finalComp false) (c.path.length + 1) (c.origin l.dir).1 (c.origin l.dir).2 (Drive.quiet t.disk)) _
  rw [origin_start r c l.dir path unnamed]
  exact ran

/-! ### A small tree -/

/-- The entry `name` for the descriptor `fd`, the last byte of the name with bit 7. -/
def entryBytes (name : List UInt8) (fd k : Nat) : UInt8 :=
  if k + 1 = name.length then name.getD k 0 ||| 0x80 else if k < name.length then name.getD k 0 else if k = 31 then fd.toUInt8 else 0

/-- A root directory with the file "dd" in it, whose descriptor is sector 4. -/
def smallTree : Disk
  | 0 => fun k => if k = 2 then 9 else if k = 10 then 2 else 0
  | 2 => fun k => if k = 0 then 0xBF else if k = 18 then 3 else if k = 20 then 1 else 0
  | 3 => fun k =>
    if k < 32 then entryBytes [dot, dot] 2 k
    else if k < 64 then entryBytes [dot] 2 (k - 32)
    else if k < 96 then entryBytes [0x64, 0x64] 4 (k - 64)
    else 0
  | _ => fun _ => 0

theorem smallTree_entries : entries smallTree 2 = [([dot, dot], 2), ([dot], 2), ([0x64, 0x64], 4)] := by decide

theorem smallTree_file : isDirectory (smallTree 4) = false := by decide

theorem smallTree_kept (d : Nat) (name : List UInt8) (d2 : Nat) (node : d = 2 ∨ d = 4) (found : lookup smallTree d name = some d2) :
    d2 = 2 ∨ d2 = 4 := by
  rcases node with rfl | rfl
  · unfold lookup at found
    rw [if_pos (by decide), smallTree_entries] at found
    obtain ⟨entry, first, rfl⟩ := Option.map_eq_some_iff.mp found
    have member := List.mem_of_find?_eq_some first
    simp only [List.mem_cons, List.not_mem_nil, or_false] at member
    rcases member with rfl | rfl | rfl <;> decide
  · rw [lookup_file (by simp [smallTree_file])] at found
    cases found

def smallRoot : Tree where
  disk := smallTree
  node d := d = 2 ∨ d = 4
  parent _ := 2
  kept := smallTree_kept
  self := by
    rintro d (rfl | rfl) directory
    · decide
    · exact absurd directory (by simp [smallTree_file])
  up := by
    rintro d (rfl | rfl) directory
    · decide
    · exact absurd directory (by simp [smallTree_file])
  above := by
    intro d _ _
    decide

/-- "Dd" at the end of a route, with another case. -/
def fileName : Name := ⟨[0x44, 0x64], by decide, by decide, by decide +kernel, by decide +kernel, by decide⟩

/-- ".../Dd". -/
def upRoute : Route := ⟨.up 3 (by decide) (by decide), [(0, .name fileName)], 0, [], .inl rfl⟩

/-- "Dd". -/
def fileRoute : Route := ⟨.name fileName, [], 0, [], .inl rfl⟩

/-- A process in the root directory, with a path to a device of the name "dd". -/
def smallCaller (path : Chars) : Caller := ⟨path, some [0x64, 0xE4], false, none⟩

theorem parsePath_route_up : Ends smallTree (parsePath (smallCaller upRoute.text) (Drive.quiet smallTree)) (some 4) := by
  have volume : parseLSN0 (smallRoot.disk 0) = some ⟨9, 512, 2, 1, 0⟩ := by decide +kernel
  have ran := parsePath_route smallRoot upRoute (smallCaller upRoute.text) 0 volume (Or.inl rfl) (by decide) rfl
    (by decide)
  have leads : smallRoot.follow 2 upRoute.comps = some 4 := by decide
  exact leads ▸ ran

/-- A relative path whose first name is the name of the device leads to the root, not to the file. -/
theorem device_name_taken :
    parseLSN0 (smallRoot.disk 0) = some ⟨9, 512, 2, 1, 0⟩ ∧ smallRoot.node 2 ∧ isDirectory (smallRoot.disk 2) = true ∧
      (smallCaller fileRoute.text).relative 2 = 2 ∧ smallRoot.follow 2 fileRoute.comps = some 4 ∧
      ¬ Ends smallTree (parsePath (smallCaller fileRoute.text) (Drive.quiet smallTree)) (some 4) := by
  refine ⟨by decide +kernel, Or.inl rfl, by decide +kernel, rfl, by decide +kernel, ?_⟩
  rintro ⟨f, ran, leads⟩
  have target : (match parsePath (smallCaller fileRoute.text) (Drive.quiet smallTree) with
      | .ok f _ => f.d2
      | .error _ _ => 0) = 2 := by
    decide
  rw [ran] at target
  exact absurd (leads.symm.trans target) (by decide)

end Q9OS.Rbf

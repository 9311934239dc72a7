import Mathlib.Tactic
import Q9OS.Lib.Run
import Q9OS.Ioman.Manager

/-!
# Routing to backends

The backend of a path is the one registered under the longest prefix that ends
at a component of the path, whatever slots the registrations have come to sit in.
-/

namespace Q9OS

namespace Ioman

/-! ### The registry as it is meant -/

/-- What is registered under each prefix: a backend with its context. -/
abbrev Registry := List Nat → Option (Option Backend × Nat)

/-- The path is the prefix, or goes on below it. -/
def Qualifies (text path : List Nat) : Prop := text = path ∨ text ++ [0x2F] <+: path

/-- The longest registered prefix that qualifies. -/
structure Chosen (registry : Registry) (path text : List Nat) : Prop where
  registered : registry text ≠ none
  qualifies : Qualifies text path
  longest : ∀ other, registry other ≠ none → Qualifies other path → other.length ≤ text.length

theorem Qualifies.isPrefix {text path : List Nat} (qualifies : Qualifies text path) : text <+: path := by
  rcases qualifies with rfl | below
  · exact List.prefix_refl _
  · exact (List.prefix_append _ _).trans below

/-- No two prefixes of one length fit a path. -/
theorem Chosen.unique {registry : Registry} {path text text' : List Nat} (chosen : Chosen registry path text)
    (chosen' : Chosen registry path text') : text = text' := by
  have le := chosen'.longest text chosen.registered chosen.qualifies
  have ge := chosen.longest text' chosen'.registered chosen'.qualifies
  have same : text.length = text'.length := Nat.le_antisymm le ge
  exact (List.prefix_of_prefix_length_le chosen.qualifies.isPrefix chosen'.qualifies.isPrefix le).eq_of_length same

/-- What a request to the registry that was answered with `ok` does to it. -/
def Request.registers (registry : Registry) : Request → Registry
  | .registerBackend (some text) backend context => Function.update registry text (some (backend, context))
  | .unregisterBackend (some text) => Function.update registry text none
  | _ => registry

/-- The manager, and the registry as its answers tell it. -/
structure Routes where
  manager : Manager
  registry : Registry

/-- Calls of any kind, and returns of callbacks, in any order. -/
inductive Happening where
  | call (request : Request)
  | back (status backendPath : Nat) (frame : Frame)

def Routes.step (s : Routes) : Happening → Option Routes
  | .call request =>
    (s.manager.start request).map fun done =>
      ⟨done.2, if done.1 = .answered ok 0 then request.registers s.registry else s.registry⟩
  | .back status backendPath frame => some ⟨(s.manager.resume status backendPath frame).2.2, s.registry⟩

/-- Prefixes that the 16-bit lengths can count are registered only. -/
def Countable (_ : Routes) (happening : Happening) : Prop :=
  ∀ text backend context, happening = .call (.registerBackend (some text) backend context) → text.length < 65535

/-! ### The table -/

/-- The table of the manager holds the registry: a slot for each prefix, no prefix empty or too long to compare. -/
structure Holds (m : Manager) (registry : Registry) : Prop where
  slot : ∀ text entry, registry text = some entry ↔
    ∃ i < backendCapacity, m.backends i = ⟨some text, entry.1, entry.2, true⟩
  proper : ∀ text, registry text ≠ none → text ≠ [] ∧ text.length < 65535
  used : ∀ i < backendCapacity, (m.backends i).used = true → (m.backends i).routePrefix ≠ none
  once : ∀ i < backendCapacity, ∀ j < backendCapacity, (m.backends i).used = true → (m.backends j).used = true →
    (m.backends i).routePrefix = (m.backends j).routePrefix → i = j

/-- A slot in use and what is registered in it. -/
theorem Holds.entry {m : Manager} {registry : Registry} (holds : Holds m registry) {i : Nat} (inside : i < backendCapacity)
    (used : (m.backends i).used = true) :
    ∃ text backend context, m.backends i = ⟨some text, backend, context, true⟩ ∧ registry text = some (backend, context) := by
  have named := holds.used i inside used
  cases is : m.backends i with
  | mk routePrefix backend context inUse =>
    rw [is] at used named
    obtain rfl : inUse = true := used
    obtain ⟨text, rfl⟩ := Option.ne_none_iff_exists'.mp named
    exact ⟨text, backend, context, rfl, (holds.slot text (backend, context)).mpr ⟨i, inside, is⟩⟩

theorem prefixLength_of_lt {text : List Nat} (short : text.length < 65535) : Manager.prefixLength (some text) = text.length :=
  Nat.min_eq_left (Nat.le_of_lt short)

/-- Two prefixes that can be compared are the same for the registry only if they are the same. -/
theorem samePrefix_iff {text : List Nat} (short : text.length < 65535) (other : List Nat) :
    Manager.samePrefix (some text) (some other) = true ↔ text = other := by
  simp only [Manager.samePrefix, prefixLength_of_lt short, Bool.and_eq_true, decide_eq_true_eq, Option.getD_some,
    List.take_length]
  constructor
  · rintro ⟨length, equal⟩
    have whole : Manager.prefixLength (some other) = other.length := by
      unfold Manager.prefixLength at length ⊢
      dsimp only at length ⊢
      omega
    rwa [whole, List.take_length] at equal
  · rintro rfl
    rw [prefixLength_of_lt short, List.take_length]
    exact ⟨rfl, rfl⟩

theorem getD_behind (text rest : List Nat) : (text ++ rest).getD text.length 0 = rest.getD 0 0 := by
  unfold List.getD
  rw [List.getElem?_append_right (Nat.le_refl _), Nat.sub_self]

/-- A prefix routes a path just when it qualifies. -/
theorem routes_iff {entry : BackendRegistration} {text path : List Nat} (is : entry.routePrefix = some text)
    (short : text.length < 65535) (path_short : path.length < 65535) (ended : 0 ∉ path) :
    Manager.routes entry path = true ↔ entry.used = true ∧ Qualifies text path := by
  have read : Manager.routes entry path = true ↔ entry.used = true ∧ text.length ≤ path.length ∧
      text = path.take text.length ∧ (path.getD text.length 0 = 0 ∨ path.getD text.length 0 = 0x2F) := by
    simp [Manager.routes, is, prefixLength_of_lt short, prefixLength_of_lt path_short, and_assoc]
  rw [read]
  refine and_congr_right fun _ => ?_
  constructor
  · rintro ⟨-, taken, next⟩
    obtain ⟨rest, rfl⟩ : text <+: path := List.prefix_iff_eq_take.mpr taken
    cases rest with
    | nil => exact .inl (List.append_nil text).symm
    | cons c rest =>
      rw [getD_behind, List.getD_cons_zero] at next
      rcases next with rfl | rfl
      · exact absurd (by simp) ended
      · exact .inr ⟨rest, by simp⟩
  · rintro qualifies
    refine ⟨qualifies.isPrefix.length_le, List.prefix_iff_eq_take.mp qualifies.isPrefix, ?_⟩
    rcases qualifies with rfl | ⟨rest, rfl⟩
    · exact .inl (by simp [List.getD])
    · refine .inr ?_
      rw [List.append_assoc, getD_behind]
      rfl

/-! ### The search -/

/-- The search keeps its first selection unless a longer prefix routes the path, and then ends with a longest one. -/
theorem findBackendFrom_cases (m : Manager) (path : List Nat) (slots : List Nat) (selected : Option Nat) (length : Nat) :
    (m.findBackendFrom path slots selected length = selected ∧
      ∀ i ∈ slots, Manager.routes (m.backends i) path = true →
        Manager.prefixLength (m.backends i).routePrefix ≤ length) ∨
    ∃ i ∈ slots, m.findBackendFrom path slots selected length = some i ∧
      Manager.routes (m.backends i) path = true ∧ length < Manager.prefixLength (m.backends i).routePrefix ∧
      ∀ j ∈ slots, Manager.routes (m.backends j) path = true →
        Manager.prefixLength (m.backends j).routePrefix ≤ Manager.prefixLength (m.backends i).routePrefix := by
  induction slots generalizing selected length with
  | nil => exact .inl ⟨rfl, fun i member => absurd member List.not_mem_nil⟩
  | cons first rest ih =>
    unfold Manager.findBackendFrom
    by_cases better : (Manager.routes (m.backends first) path &&
        decide (Manager.prefixLength (m.backends first).routePrefix > length)) = true
    · dsimp only
      rw [if_pos better]
      obtain ⟨routed, longer⟩ := Bool.and_eq_true_iff.mp better
      have longer : length < Manager.prefixLength (m.backends first).routePrefix := of_decide_eq_true longer
      rcases ih (some first) (Manager.prefixLength (m.backends first).routePrefix) with ⟨is, none_longer⟩ | ⟨i, member, is, routes, above, longest⟩
      · refine .inr ⟨first, List.mem_cons_self, is, routed, longer, ?_⟩
        exact List.forall_mem_cons.mpr ⟨fun _ => Nat.le_refl _, none_longer⟩
      · refine .inr ⟨i, List.mem_cons_of_mem _ member, is, routes, longer.trans above, ?_⟩
        exact List.forall_mem_cons.mpr ⟨fun _ => Nat.le_of_lt above, longest⟩
    · dsimp only
      rw [if_neg better]
      have first_short (routed : Manager.routes (m.backends first) path = true) :
          Manager.prefixLength (m.backends first).routePrefix ≤ length := by
        by_contra longer
        exact better (Bool.and_eq_true_iff.mpr ⟨routed, decide_eq_true (Nat.lt_of_not_le longer)⟩)
      rcases ih selected length with ⟨is, none_longer⟩ | ⟨i, member, is, routes, above, longest⟩
      · exact .inl ⟨is, List.forall_mem_cons.mpr ⟨first_short, none_longer⟩⟩
      · refine .inr ⟨i, List.mem_cons_of_mem _ member, is, routes, above, ?_⟩
        exact List.forall_mem_cons.mpr ⟨fun routed => (first_short routed).trans (Nat.le_of_lt above), longest⟩

/-- What the search answers: the slot of the chosen prefix, or nothing where none qualifies. -/
def Answers (m : Manager) (registry : Registry) (path : List Nat) : Prop :=
  match m.findBackend (some path) with
  | some i => ∃ text backend context, i < backendCapacity ∧ m.backends i = ⟨some text, backend, context, true⟩ ∧
      registry text = some (backend, context) ∧ Chosen registry path text
  | none => ∀ text, registry text ≠ none → ¬ Qualifies text path

theorem Holds.routed {m : Manager} {registry : Registry} (holds : Holds m registry) {path : List Nat}
    (path_short : path.length < 65535) (ended : 0 ∉ path) : Answers m registry path := by
  -- A registered prefix that qualifies sits in a slot that routes the path.
  have slot_of {text : List Nat} (registered : registry text ≠ none) (qualifies : Qualifies text path) :
      ∃ i ∈ List.range backendCapacity, Manager.routes (m.backends i) path = true ∧
        Manager.prefixLength (m.backends i).routePrefix = text.length := by
    obtain ⟨entry, is⟩ := Option.ne_none_iff_exists'.mp registered
    obtain ⟨i, inside, here⟩ := (holds.slot text entry).mp is
    have short := (holds.proper text registered).2
    refine ⟨i, List.mem_range.mpr inside, ?_, ?_⟩
    · exact (routes_iff (by rw [here]) short path_short ended).mpr ⟨by rw [here], qualifies⟩
    · rw [here]
      exact prefixLength_of_lt short
  unfold Answers Manager.findBackend
  rw [Option.bind_some]
  rcases findBackendFrom_cases m path (List.range backendCapacity) none 0 with ⟨is, none_routes⟩ | ⟨i, member, is, routes, -, longest⟩
  · rw [is]
    intro text registered qualifies
    obtain ⟨i, member, routes, length⟩ := slot_of registered qualifies
    have empty := none_routes i member routes
    rw [length] at empty
    exact (holds.proper text registered).1 (List.length_eq_zero_iff.mp (Nat.le_zero.mp empty))
  · rw [is]
    have inside := List.mem_range.mp member
    have used : (m.backends i).used = true := by
      simp only [Manager.routes, Bool.and_eq_true] at routes
      exact routes.1.1.1
    obtain ⟨text, backend, context, here, registered⟩ := holds.entry inside used
    have listed : registry text ≠ none := by rw [registered]; exact Option.some_ne_none _
    have short := (holds.proper text listed).2
    have qualifies := ((routes_iff (by rw [here]) short path_short ended).mp routes).2
    refine ⟨text, backend, context, inside, here, registered, listed, qualifies, fun other other_listed other_fits => ?_⟩
    obtain ⟨j, member_j, routes_j, length_j⟩ := slot_of other_listed other_fits
    have le := longest j member_j routes_j
    rw [length_j, here] at le
    exact le.trans (prefixLength_of_lt short).le

/-! ### Calls that leave the registry alone -/

theorem openBackend_backends (m : Manager) (backend : Option Backend) (context : Nat) (path routePrefix : Text) (mode : Nat)
    (create out : Bool) : (m.openBackend backend context path routePrefix mode create out).2.backends = m.backends := by
  unfold Manager.openBackend
  split_ifs <;> first | rfl | (split <;> rfl)

theorem openResolved_backends (m : Manager) (path : Text) (mode : Nat) (create out : Bool) :
    (m.openResolved path mode create out).2.backends = m.backends := by
  unfold Manager.openResolved
  split
  · rfl
  · split
    · rfl
    · dsimp only
      split
      · rfl
      · exact openBackend_backends ..

theorem nameOperation_backends (m : Manager) (path : Text) (operation : Nat) (result : Bool) :
    (m.nameOperation path operation result).2.backends = m.backends := by
  unfold Manager.nameOperation
  split_ifs <;> first | rfl | (split <;> [rfl; (split <;> rfl)])

theorem operate_backends (m : Manager) (localPath operation : Nat) (result : Bool) :
    (m.operate localPath operation result).2.backends = m.backends := by
  unfold Manager.operate
  split_ifs <;> first | rfl | (split <;> [rfl; (dsimp only; split_ifs <;> rfl)])

theorem close_backends (m : Manager) (localPath : Nat) : (m.close localPath).2.backends = m.backends := by
  unfold Manager.close
  split
  · rfl
  · dsimp only
    split_ifs <;> rfl

theorem resume_backends (m : Manager) (status backendPath : Nat) (frame : Frame) :
    (m.resume status backendPath frame).2.2.backends = m.backends := by
  cases frame with
  | opening i before =>
    show (m.opened i status backendPath).2.2.backends = m.backends
    unfold Manager.opened
    split <;> rfl
  | operating i => rfl
  | closing i before =>
    show (m.closed i status).backends = m.backends
    unfold Manager.closed
    split <;> rfl
  | naming => rfl

/-! ### Registering and giving up -/

theorem Holds.congr {m m' : Manager} {registry : Registry} (holds : Holds m registry) (same : m'.backends = m.backends) :
    Holds m' registry := by
  obtain ⟨slot, proper, used, once⟩ := holds
  rw [← same] at slot used once
  exact ⟨slot, proper, used, once⟩

theorem init_holds (capacity : Nat) : Holds (init capacity) (fun _ => none) where
  slot text entry := by
    refine iff_of_false (Option.some_ne_none _).symm ?_
    rintro ⟨i, -, is⟩
    cases is
  proper text listed := absurd rfl listed
  used i inside used := by cases used
  once i _ j _ used := by cases used

/-- A registration is refused or takes a slot that is free, for a prefix that has none. -/
theorem registerBackend_cases {m : Manager} {registry : Registry} (holds : Holds m registry) (routePrefix : Text)
    (short : ∀ text, routePrefix = some text → text.length < 65535) (backend : Option Backend) (context : Nat) :
    (∃ status, status ≠ ok ∧ m.registerBackend routePrefix backend context = (status, m)) ∨
    ∃ text i, routePrefix = some text ∧ text ≠ [] ∧ registry text = none ∧ i < backendCapacity ∧
      (m.backends i).used = false ∧
      m.registerBackend routePrefix backend context = (ok, m.setBackend i ⟨routePrefix, backend, context, true⟩) := by
  unfold Manager.registerBackend
  by_cases refused : Manager.prefixLength routePrefix = 0 ∨ ¬ (backend.any fun b => b.canOpen && b.canClose)
  · rw [if_pos refused]
    exact .inl ⟨_, by decide, rfl⟩
  rw [if_neg refused]
  by_cases double : (List.range backendCapacity).any fun i =>
      (m.backends i).used && Manager.samePrefix (m.backends i).routePrefix routePrefix
  · rw [if_pos double]
    exact .inl ⟨_, by decide, rfl⟩
  rw [if_neg double]
  cases found : (List.range backendCapacity).find? fun i => !(m.backends i).used with
  | none => exact .inl ⟨_, by decide, rfl⟩
  | some i =>
    have free : (m.backends i).used = false := by simpa using List.find?_some found
    cases routePrefix with
    | none => exact absurd (.inl rfl) refused
    | some text =>
      refine .inr ⟨text, i, rfl, ?_, ?_, List.mem_range.mp (List.mem_of_find?_eq_some found), free, rfl⟩
      · rintro rfl
        exact refused (.inl rfl)
      · by_contra listed
        obtain ⟨entry, is⟩ := Option.ne_none_iff_exists'.mp listed
        obtain ⟨j, inside, here⟩ := (holds.slot text entry).mp is
        refine double (List.any_eq_true.mpr ⟨j, List.mem_range.mpr inside, ?_⟩)
        rw [here]
        exact (samePrefix_iff (short text rfl) text).mpr rfl

theorem setBackend_here (m : Manager) (i : Nat) (entry : BackendRegistration) : (m.setBackend i entry).backends i = entry :=
  if_pos rfl

theorem setBackend_other (m : Manager) (entry : BackendRegistration) {i j : Nat} (other : j ≠ i) :
    (m.setBackend i entry).backends j = m.backends j := if_neg other

theorem Holds.register {m : Manager} {registry : Registry} (holds : Holds m registry) {text : List Nat} {i : Nat}
    (filled : text ≠ []) (short : text.length < 65535) (fresh : registry text = none) (inside : i < backendCapacity)
    (free : (m.backends i).used = false) (backend : Option Backend) (context : Nat) :
    Holds (m.setBackend i ⟨some text, backend, context, true⟩) (Function.update registry text (some (backend, context))) := by
  have used_other {j : Nat} (used : (m.backends j).used = true) : j ≠ i := by
    rintro rfl
    rw [free] at used
    cases used
  have unnamed {j : Nat} (in_table : j < backendCapacity) (used : (m.backends j).used = true) :
      (m.backends j).routePrefix ≠ some text := by
    obtain ⟨text', backend', context', here, registered⟩ := holds.entry in_table used
    rw [here]
    rintro same
    obtain rfl := Option.some.inj same
    rw [fresh] at registered
    cases registered
  refine ⟨fun text' entry => ?_, fun text' listed => ?_, fun j in_table used => ?_, fun j in_table l in_table' used used' same => ?_⟩
  · by_cases here : text' = text
    · subst here
      rw [Function.update_self]
      constructor
      · intro is
        obtain rfl := Option.some.inj is
        exact ⟨i, inside, setBackend_here m i _⟩
      · rintro ⟨j, in_table, is⟩
        by_cases same : j = i
        · subst same
          rw [setBackend_here] at is
          cases is
          rfl
        · rw [setBackend_other _ _ same] at is
          exact absurd (by rw [is]) (unnamed in_table (by rw [is]))
    · rw [Function.update_of_ne here, holds.slot]
      constructor
      · rintro ⟨j, in_table, is⟩
        exact ⟨j, in_table, (setBackend_other _ _ (used_other (by rw [is]))).trans is⟩
      · rintro ⟨j, in_table, is⟩
        by_cases same : j = i
        · subst same
          rw [setBackend_here] at is
          cases is
          exact absurd rfl here
        · rw [setBackend_other _ _ same] at is
          exact ⟨j, in_table, is⟩
  · by_cases here : text' = text
    · exact here.symm ▸ ⟨filled, short⟩
    · rw [Function.update_of_ne here] at listed
      exact holds.proper text' listed
  · by_cases same : j = i
    · subst same
      rw [setBackend_here]
      exact Option.some_ne_none _
    · rw [setBackend_other _ _ same] at used ⊢
      exact holds.used j in_table used
  · by_cases first : j = i
    · by_cases second : l = i
      · exact first.trans second.symm
      · subst first
        rw [setBackend_other _ _ second] at used' same
        rw [setBackend_here] at same
        exact absurd same.symm (unnamed in_table' used')
    · rw [setBackend_other _ _ first] at used same
      by_cases second : l = i
      · subst second
        rw [setBackend_here] at same
        exact absurd same (unnamed in_table used)
      · rw [setBackend_other _ _ second] at used' same
        exact holds.once j in_table l in_table' used used' same

/-- A prefix is given up only where it is registered. -/
theorem unregisterBackend_cases {m : Manager} {registry : Registry} (holds : Holds m registry) {routePrefix : Text}
    {status : Nat} {m' : Manager} (done : m.unregisterBackend routePrefix = some (status, m')) :
    (status ≠ ok ∧ m' = m) ∨
    ∃ text backend context i, routePrefix = some text ∧ i < backendCapacity ∧
      m.backends i = ⟨some text, backend, context, true⟩ ∧ status = ok ∧ m' = m.setBackend i .clear := by
  unfold Manager.unregisterBackend at done
  split at done
  · cases done
    exact .inl ⟨by decide, rfl⟩
  · rename_i filled
    cases found : (List.range backendCapacity).find? fun i =>
        (m.backends i).used && Manager.samePrefix (m.backends i).routePrefix routePrefix with
    | none =>
      rw [found] at done
      cases done
      exact .inl ⟨by decide, rfl⟩
    | some i =>
      rw [found] at done
      obtain ⟨inUse, -, is⟩ := Option.map_eq_some_iff.mp done
      cases inUse with
      | true =>
        cases is
        exact .inl ⟨by decide, rfl⟩
      | false =>
        cases is
        have both := List.find?_some found
        simp only [Bool.and_eq_true] at both
        obtain ⟨used, same⟩ := both
        have inside := List.mem_range.mp (List.mem_of_find?_eq_some found)
        obtain ⟨text, backend, context, here, registered⟩ := holds.entry inside used
        have short := (holds.proper text (by rw [registered]; exact Option.some_ne_none _)).2
        cases routePrefix with
        | none => exact absurd rfl filled
        | some other =>
          rw [here] at same
          obtain rfl := (samePrefix_iff short other).mp same
          exact .inr ⟨text, backend, context, i, rfl, inside, here, rfl, rfl⟩

theorem Holds.giveUp {m : Manager} {registry : Registry} (holds : Holds m registry) {text : List Nat} {i : Nat}
    {backend : Option Backend} {context : Nat} (inside : i < backendCapacity)
    (here : m.backends i = ⟨some text, backend, context, true⟩) :
    Holds (m.setBackend i .clear) (Function.update registry text none) := by
  have used_other {j : Nat} (used : ((m.setBackend i .clear).backends j).used = true) : j ≠ i := by
    rintro rfl
    rw [setBackend_here] at used
    cases used
  refine ⟨fun text' entry => ?_, fun text' listed => ?_, fun j in_table used => ?_, fun j in_table l in_table' used used' same => ?_⟩
  · by_cases same : text' = text
    · subst same
      rw [Function.update_self]
      refine iff_of_false (Option.some_ne_none _).symm ?_
      rintro ⟨j, in_table, is⟩
      have other := used_other (by rw [is])
      rw [setBackend_other _ _ other] at is
      exact other (holds.once j in_table i inside (by rw [is]) (by rw [here]) (by rw [is, here]))
    · rw [Function.update_of_ne same, holds.slot]
      constructor
      · rintro ⟨j, in_table, is⟩
        have other : j ≠ i := by
          rintro rfl
          rw [here] at is
          cases is
          exact same rfl
        exact ⟨j, in_table, (setBackend_other _ _ other).trans is⟩
      · rintro ⟨j, in_table, is⟩
        have other := used_other (by rw [is])
        rw [setBackend_other _ _ other] at is
        exact ⟨j, in_table, is⟩
  · by_cases same : text' = text
    · rw [same, Function.update_self] at listed
      exact absurd rfl listed
    · rw [Function.update_of_ne same] at listed
      exact holds.proper text' listed
  · have other := used_other used
    rw [setBackend_other _ _ other] at used ⊢
    exact holds.used j in_table used
  · have first := used_other used
    have second := used_other used'
    rw [setBackend_other _ _ first] at used same
    rw [setBackend_other _ _ second] at used' same
    exact holds.once j in_table l in_table' used used' same

/-! ### Runs -/

def Routes.Sound (s : Routes) : Prop := Holds s.manager s.registry

theorem step_sound {s s' : Routes} {happening : Happening} (holds : s.Sound) (countable : Countable s happening)
    (stepped : s.step happening = some s') : s'.Sound := by
  cases happening with
  | back status backendPath frame =>
    obtain rfl := Option.some.inj stepped
    exact holds.congr (resume_backends ..)
  | call request =>
    obtain ⟨⟨outcome, m⟩, started, rfl⟩ := Option.map_eq_some_iff.mp stepped
    -- Only two requests concern the registry.
    have idle (alone : m.backends = s.manager.backends) (kept : request.registers s.registry = s.registry) :
        Holds m (if outcome = .answered ok 0 then request.registers s.registry else s.registry) := by
      rw [kept, ite_self]
      exact holds.congr alone
    cases request with
    | openPath backend context path mode out =>
      obtain ⟨-, same⟩ := Prod.mk.inj (Option.some.inj started)
      exact idle (same ▸ openBackend_backends ..) rfl
    | openResolved path mode create out =>
      obtain ⟨-, same⟩ := Prod.mk.inj (Option.some.inj started)
      exact idle (same ▸ openResolved_backends ..) rfl
    | nameOperation path operation result =>
      obtain ⟨-, same⟩ := Prod.mk.inj (Option.some.inj started)
      exact idle (same ▸ nameOperation_backends ..) rfl
    | operate localPath operation arg0 arg1 arg2 result =>
      obtain ⟨-, same⟩ := Prod.mk.inj (Option.some.inj started)
      exact idle (same ▸ operate_backends ..) rfl
    | close localPath =>
      obtain ⟨-, same⟩ := Prod.mk.inj (Option.some.inj started)
      exact idle (same ▸ close_backends ..) rfl
    | registerBackend routePrefix backend context =>
      have short : ∀ text, routePrefix = some text → text.length < 65535 := by
        rintro text rfl
        exact countable text backend context rfl
      rcases registerBackend_cases holds routePrefix short backend context with
        ⟨status, failed, is⟩ | ⟨text, i, rfl, filled, fresh, inside, free, is⟩
      · rw [Manager.start, is] at started
        cases started
        have refused : Outcome.answered status 0 ≠ .answered ok 0 := fun same => failed (Outcome.answered.inj same).1
        rw [if_neg refused]
        exact holds
      · rw [Manager.start, is] at started
        cases started
        rw [if_pos rfl]
        exact holds.register filled (short text rfl) fresh inside free backend context
    | unregisterBackend routePrefix =>
      obtain ⟨⟨status, m'⟩, done, is⟩ := Option.map_eq_some_iff.mp started
      cases is
      rcases unregisterBackend_cases holds done with ⟨failed, rfl⟩ | ⟨text, backend, context, i, rfl, inside, here, rfl, rfl⟩
      · have refused : Outcome.answered status 0 ≠ .answered ok 0 := fun same => failed (Outcome.answered.inj same).1
        rw [if_neg refused]
        exact holds
      · rw [if_pos rfl]
        exact holds.giveUp inside here

/-- A state after some history. -/
def Reached (s : Routes) : Prop :=
  ∃ capacity happenings, run Routes.step ⟨init capacity, fun _ => none⟩ happenings = some s ∧
    RunMeets Routes.step Countable ⟨init capacity, fun _ => none⟩ happenings

theorem Reached.holds {s : Routes} (reached : Reached s) : s.Sound := by
  obtain ⟨capacity, happenings, ran, countable⟩ := reached
  have start : Routes.Sound ⟨init capacity, fun _ => none⟩ := init_holds capacity
  exact run_invariant (fun _ _ _ => step_sound) start countable ran

/-- The prefix a path is routed by. -/
def Manager.chosenPrefix (m : Manager) (path : List Nat) : Text :=
  (m.findBackend (some path)).bind fun i => (m.backends i).routePrefix

theorem Answers.chosen {m : Manager} {registry : Registry} {path text : List Nat} (routed : Answers m registry path)
    (chosen : Chosen registry path text) : m.chosenPrefix path = some text := by
  unfold Answers at routed
  unfold Manager.chosenPrefix
  cases found : m.findBackend (some path) with
  | none =>
    rw [found] at routed
    exact absurd chosen.qualifies (routed text chosen.registered)
  | some i =>
    rw [found] at routed
    obtain ⟨text', backend, context, -, here, -, chosen'⟩ := routed
    rw [Option.bind_some, here, chosen.unique chosen']

/-- After every history, a path goes to the backend that is registered under the longest prefix that qualifies,
and to none exactly where no prefix qualifies. Which prefix that is depends on the registered prefixes alone. -/
theorem find_longest {s : Routes} (reached : Reached s) (path : List Nat) (short : path.length < 65535) (ended : 0 ∉ path) :
    Answers s.manager s.registry path ∧
      ∀ s', Reached s' → (∀ text, s'.registry text = none ↔ s.registry text = none) →
        s'.manager.chosenPrefix path = s.manager.chosenPrefix path := by
  have routed := reached.holds.routed short ended
  refine ⟨routed, fun s' reached' same => ?_⟩
  have routed' := reached'.holds.routed short ended
  cases found : s.manager.findBackend (some path) with
  | some i =>
    have routed_here := routed
    unfold Answers at routed_here
    rw [found] at routed_here
    obtain ⟨text, backend, context, -, -, -, chosen⟩ := routed_here
    obtain ⟨registered, qualifies, longest⟩ := chosen
    have chosen' : Chosen s'.registry path text :=
      ⟨mt (same text).mp registered, qualifies, fun other listed => longest other (mt (same other).mpr listed)⟩
    rw [routed'.chosen chosen', routed.chosen ⟨registered, qualifies, longest⟩]
  | none =>
    have none_fits := routed
    unfold Answers at none_fits
    rw [found] at none_fits
    unfold Manager.chosenPrefix
    rw [found]
    cases found' : s'.manager.findBackend (some path) with
    | none => rfl
    | some i =>
      unfold Answers at routed'
      rw [found'] at routed'
      obtain ⟨text, backend, context, -, -, -, chosen⟩ := routed'
      exact absurd chosen.qualifies (none_fits text (mt (same text).mpr chosen.registered))

/-! ### A registry with a hole -/

def letters (text : String) : List Nat := text.toList.map Char.toNat

def anyBackend : Backend := ⟨1, true, true, true, true, true⟩

def register (text : String) (context : Nat) : Happening :=
  .call (.registerBackend (some (letters text)) (some anyBackend) context)

/-- The first slot is given up again and taken by the longest prefix. -/
def history : List Happening :=
  [register "/pipe" 1, register "/dd" 2, .call (.unregisterBackend (some (letters "/pipe"))), register "/dd/sub" 3]

def holed : Routes := (run Routes.step ⟨init 4, fun _ => none⟩ history).getD ⟨init 4, fun _ => none⟩

theorem holed_reached : Reached holed := by
  refine ⟨4, history, ?_, ?_⟩
  · unfold holed
    cases ran : run Routes.step ⟨init 4, fun _ => none⟩ history with
    | none => exact absurd (congrArg Option.isSome ran) (by decide)
    | some s => rfl
  · have short (text : String) (context : Nat) (s : Routes) (few : (letters text).length < 65535) :
        Countable s (register text context) := by
      rintro text' backend context' same
      cases same
      exact few
    have given (text : String) (s : Routes) : Countable s (.call (.unregisterBackend (some (letters text)))) := by
      rintro text' backend context' same
      cases same
    exact ⟨short _ _ _ (by decide), fun _ _ => ⟨short _ _ _ (by decide), fun _ _ => ⟨given _ _, fun _ _ =>
      ⟨short _ _ _ (by decide), fun _ _ => trivial⟩⟩⟩⟩

theorem find_longest_holed : holed.manager.findBackend (some (letters "/dd/sub/file")) = some 0 ∧
    Answers holed.manager holed.registry (letters "/dd/sub/file") :=
  ⟨by decide, (find_longest holed_reached (letters "/dd/sub/file") (by decide) (by decide)).1⟩

end Ioman

end Q9OS

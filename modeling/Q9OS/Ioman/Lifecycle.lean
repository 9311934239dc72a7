import Mathlib.Tactic
import Q9OS.Lib.Run
import Q9OS.Ioman.Manager

/-!
# Life of a path under re-entrancy

A run is any order of calls and returns of callbacks: a call made while a
callback runs is a call of that callback, so the pending calls form a stack.
The history records what was handed to the backends.
-/

namespace Q9OS

namespace Ioman

/-! ### History -/

/-- What a backend is called with. -/
structure Handle where
  backend : Option Backend
  context : Nat
  backendPath : Nat
  deriving DecidableEq

def Path.handle (path : Path) : Handle := ⟨path.backend, path.backendContext, path.backendPath⟩

inductive Event where
  | produced (slot : Nat) (handle : Handle)
  | operateStarted (slot : Nat) (handle : Handle)
  | operateEnded (slot : Nat)
  | closeStarted (slot : Nat) (handle : Handle)
  | released (slot : Nat)

/-- What the last successful open of a slot produced, until its successful close. -/
def holding (slot : Nat) : List Event → Option Handle
  | [] => none
  | .produced i handle :: rest => if i = slot then some handle else holding slot rest
  | .released i :: rest => if i = slot then none else holding slot rest
  | _ :: rest => holding slot rest

/-- Operate callbacks of a slot that have started and not returned. -/
def running (slot : Nat) : List Event → Nat
  | [] => 0
  | .operateStarted i _ :: rest => if i = slot then running slot rest + 1 else running slot rest
  | .operateEnded i :: rest => if i = slot then running slot rest - 1 else running slot rest
  | _ :: rest => running slot rest

/-- What may happen after `rest`: a handle reaches a callback only while its slot holds it, a
close only starts while no operate runs, and a slot that holds a handle gets no other. -/
def Allowed (rest : List Event) : Event → Prop
  | .produced i _ => holding i rest = none
  | .operateStarted i handle => holding i rest = some handle
  | .operateEnded i => 0 < running i rest
  | .closeStarted i handle => holding i rest = some handle ∧ running i rest = 0
  | .released i => holding i rest ≠ none

def Disciplined : List Event → Prop
  | [] => True
  | event :: rest => Allowed rest event ∧ Disciplined rest

/-! ### The manager, its pending calls and its history -/

structure System where
  manager : Manager
  stack : List Frame
  log : List Event
  answer : Option (Nat × Nat)

/-- A call from outside or from the running callback, or the return of that callback. -/
inductive Turn where
  | call (request : Request)
  | back (status backendPath : Nat)

/-- The callback a frame waits for is called with the handle of its slot. -/
def calledOut (m : Manager) : Frame → List Event
  | .operating i => [.operateStarted i (m.paths i).handle]
  | .closing i _ => [.closeStarted i (m.paths i).handle]
  | _ => []

/-- What the return of a callback means for its slot; `m` is the manager after it, and the backend path of an open is
the one its callback gave. -/
def cameBack (m : Manager) (status backendPath : Nat) : Frame → List Event
  | .opening i _ => if status = ok then [.produced i { (m.paths i).handle with backendPath := backendPath }] else []
  | .operating i => [.operateEnded i]
  | .closing i _ => if status = ok then [.released i] else []
  | .naming => []

def step (s : System) : Turn → Option System
  | .call request =>
    (s.manager.start request).map fun done =>
      match done.1 with
      | .answered status localPath => { s with manager := done.2, answer := some (status, localPath) }
      | .waiting frame =>
        { s with manager := done.2, stack := frame :: s.stack, log := calledOut done.2 frame ++ s.log }
  | .back status backendPath =>
    match s.stack with
    | [] => none
    | frame :: rest =>
      let (status', localPath, m) := s.manager.resume status backendPath frame
      some ⟨m, rest, cameBack m status backendPath frame ++ s.log, some (status', localPath)⟩

def System.init (capacity : Nat) : System := ⟨Ioman.init capacity, [], [], none⟩

/-! ### Slots -/

def opens (i : Nat) (stack : List Frame) : Nat :=
  stack.countP fun frame => match frame with | .opening j _ => j = i | _ => false

def operates (i : Nat) (stack : List Frame) : Nat :=
  stack.countP fun frame => match frame with | .operating j => j = i | _ => false

def closes (i : Nat) (stack : List Frame) : Nat :=
  stack.countP fun frame => match frame with | .closing j _ => j = i | _ => false

/-- A slot agrees with the calls that wait and with the history. -/
structure Sound (path : Path) (opens operates closes : Nat) (held : Option Handle) (run : Nat) : Prop where
  free : path.state = .free → path = .clear ∧ held = none
  opening : path.state = .opening → held = none ∧ path.activeOperations = 0
  opened : path.state = .opened → held = some path.handle
  closing : path.state = .closing → held = some path.handle ∧ path.activeOperations = 0
  opens : opens = if path.state = .opening then 1 else 0
  closes : closes = if path.state = .closing then 1 else 0
  operates : operates = path.activeOperations
  run : run = path.activeOperations
  few : path.activeOperations ≤ 65535

/-- Frames remember their slots as they were before the call. -/
def Remembers (m : Manager) : Frame → Prop
  | .opening i before => i < m.capacity ∧ before = .clear
  | .operating i => i < m.capacity
  | .closing i before => i < m.capacity ∧ before = { m.paths i with state := .opened }
  | .naming => True

/-- The prefix a path was opened through is registered with the backend of the path. -/
def Routed (m : Manager) (path : Path) : Prop :=
  path.state ≠ .free → path.routePrefix ≠ none → ∃ j, j < backendCapacity ∧
    (m.backends j).used = true ∧ (m.backends j).routePrefix = path.routePrefix ∧
    (m.backends j).backend = path.backend ∧ (m.backends j).context = path.backendContext

structure Orderly (s : System) : Prop where
  small : s.manager.capacity < 65536
  slots : ∀ i, i < s.manager.capacity → Sound (s.manager.paths i) (opens i s.stack) (operates i s.stack)
    (closes i s.stack) (holding i s.log) (running i s.log)
  frames : ∀ frame ∈ s.stack, Remembers s.manager frame
  routed : ∀ i, i < s.manager.capacity → Routed s.manager (s.manager.paths i)
  disciplined : Disciplined s.log

/-! ### What a call does before it calls out -/

/-- Everything the first part of a call can do. -/
inductive Started (m : Manager) : Outcome → Manager → Prop
  | nothing {status : Nat} : Started m (.answered status 0) m
  | named : Started m (.waiting .naming) m
  | reserved {i mode : Nat} {backend : Option Backend} {context : Nat} {routePrefix : Text} (low : i < m.capacity)
      (free : (m.paths i).state = .free)
      (route : routePrefix ≠ none → ∃ j, j < backendCapacity ∧ (m.backends j).used = true ∧
        (m.backends j).routePrefix = routePrefix ∧ (m.backends j).backend = backend ∧
        (m.backends j).context = context) :
      Started m (.waiting (.opening i (m.paths i))) (m.setPath i { m.paths i with
        state := .opening, backend := backend, backendContext := context, routePrefix := routePrefix,
        activeOperations := 0, accessMode := mode })
  | operating {i : Nat} (low : i < m.capacity) (opened : (m.paths i).state = .opened)
      (few : (m.paths i).activeOperations ≠ 65535) :
      Started m (.waiting (.operating i))
        (m.setPath i { m.paths i with activeOperations := (m.paths i).activeOperations + 1 })
  | closing {i : Nat} (low : i < m.capacity) (opened : (m.paths i).state = .opened)
      (idle : (m.paths i).activeOperations = 0) :
      Started m (.waiting (.closing i (m.paths i))) (m.setPath i { m.paths i with state := .closing })
  | registered {i : Nat} {entry : BackendRegistration} (unused : (m.backends i).used = false) :
      Started m (.answered ok 0) (m.setBackend i entry)
  | unregistered {i : Nat} (unused : ∀ j, j < m.capacity → (m.paths j).state ≠ .free →
      (m.paths j).routePrefix ≠ none → (m.paths j).routePrefix ≠ (m.backends i).routePrefix) :
      Started m (.answered ok 0) (m.setBackend i .clear)

section
variable {m : Manager}

theorem openBackend_started {backend : Option Backend} {context : Nat} {path routePrefix : Text} {mode : Nat}
    {create out : Bool}
    (route : routePrefix ≠ none → ∃ j, j < backendCapacity ∧ (m.backends j).used = true ∧
      (m.backends j).routePrefix = routePrefix ∧ (m.backends j).backend = backend ∧ (m.backends j).context = context) :
    Started m (m.openBackend backend context path routePrefix mode create out).1
      (m.openBackend backend context path routePrefix mode create out).2 := by
  unfold Manager.openBackend
  split
  · exact .nothing
  · split
    · exact .nothing
    · cases found : (List.range m.capacity).find? fun i => (m.paths i).state = .free with
      | none => exact .nothing
      | some i =>
        have free := List.find?_some found
        have low := List.mem_range.mp (List.mem_of_find?_eq_some found)
        exact .reserved low (of_decide_eq_true free) route

theorem findBackendFrom_used (path : List Nat) {l : List Nat} (low : ∀ i ∈ l, i < backendCapacity) {selected : Option Nat}
    {length : Nat} (before : ∀ i, selected = some i → i < backendCapacity ∧ (m.backends i).used = true) {i : Nat}
    (found : m.findBackendFrom path l selected length = some i) : i < backendCapacity ∧ (m.backends i).used = true := by
  induction l generalizing selected length with
  | nil => exact before i found
  | cons j rest ih =>
    have later := fun i member => low i (List.mem_cons_of_mem j member)
    rw [Manager.findBackendFrom] at found
    split at found
    · next better =>
      refine ih later (fun k is => ?_) found
      obtain rfl := Option.some.inj is
      rw [Bool.and_eq_true] at better
      have routed := better.1
      simp only [Manager.routes, Bool.and_eq_true] at routed
      exact ⟨low j List.mem_cons_self, routed.1.1.1⟩
    · exact ih later before found

theorem findBackend_used {path : Text} {i : Nat} (found : m.findBackend path = some i) :
    i < backendCapacity ∧ (m.backends i).used = true := by
  obtain ⟨text, -, found⟩ := Option.bind_eq_some_iff.mp found
  refine findBackendFrom_used text (fun i member => List.mem_range.mp member) (fun i is => ?_) found
  cases is

theorem openResolved_started (path : Text) (mode : Nat) (create out : Bool) :
    Started m (m.openResolved path mode create out).1 (m.openResolved path mode create out).2 := by
  unfold Manager.openResolved
  split
  · exact .nothing
  · cases found : m.findBackend path with
    | none => exact .nothing
    | some i =>
      dsimp only
      split
      · exact .nothing
      · obtain ⟨low, used⟩ := findBackend_used found
        exact openBackend_started (fun _ => ⟨i, low, used, rfl, rfl, rfl⟩)

theorem nameOperation_started (path : Text) (operation : Nat) (result : Bool) :
    Started m (m.nameOperation path operation result).1 (m.nameOperation path operation result).2 := by
  unfold Manager.nameOperation
  split
  · exact .nothing
  · split
    · exact .nothing
    · cases m.findBackend path with
      | none => exact .nothing
      | some i =>
        dsimp only
        split
        · exact .nothing
        · exact .named

theorem findPath_some {localPath i : Nat} (found : m.findPath localPath = some i) :
    i < m.capacity ∧ (m.paths i).state = .opened := by
  unfold Manager.findPath at found
  split_ifs at found with outside opened
  obtain rfl := Option.some.inj found
  exact ⟨by omega, opened⟩

theorem operate_started (localPath operation : Nat) (result : Bool) :
    Started m (m.operate localPath operation result).1 (m.operate localPath operation result).2 := by
  unfold Manager.operate
  split
  · exact .nothing
  · split
    · exact .nothing
    · cases found : m.findPath localPath with
      | none => exact .nothing
      | some i =>
        obtain ⟨low, opened⟩ := findPath_some found
        dsimp only
        split
        · exact .nothing
        · split
          · exact .nothing
          · split
            · exact .nothing
            · split
              · exact .nothing
              · next few => exact .operating low opened few

theorem close_started (localPath : Nat) : Started m (m.close localPath).1 (m.close localPath).2 := by
  unfold Manager.close
  cases found : m.findPath localPath with
  | none => exact .nothing
  | some i =>
    obtain ⟨low, opened⟩ := findPath_some found
    dsimp only
    split
    · exact .nothing
    · split
      · exact .nothing
      · next idle => exact .closing low opened (not_not.mp idle)

theorem registerBackend_started (routePrefix : Text) (backend : Option Backend) (context : Nat) :
    Started m (.answered (m.registerBackend routePrefix backend context).1 0)
      (m.registerBackend routePrefix backend context).2 := by
  unfold Manager.registerBackend
  split
  · exact .nothing
  · split
    · exact .nothing
    · cases found : (List.range backendCapacity).find? fun i => !(m.backends i).used with
      | none => exact .nothing
      | some i =>
        have unused := List.find?_some found
        rw [Bool.not_eq_true'] at unused
        exact .registered unused

theorem textEqual_true {text : Text} (real : text ≠ none) : Manager.textEqual text text ≠ some false := by
  cases text with
  | none => exact absurd rfl real
  | some left =>
    simp only [Manager.textEqual]
    split <;> simp

/-- Only a prefix no path in use goes through can be given up. -/
theorem prefixInUse_false {routePrefix : Text} {l : List Nat} (unused : m.prefixInUse routePrefix l = some false)
    {j : Nat} (member : j ∈ l) (used : (m.paths j).state ≠ .free) (real : (m.paths j).routePrefix ≠ none) :
    (m.paths j).routePrefix ≠ routePrefix := by
  induction l with
  | nil => cases member
  | cons i rest ih =>
    rw [Manager.prefixInUse] at unused
    rcases List.mem_cons.mp member with rfl | later
    · rw [if_neg used] at unused
      obtain ⟨same, equal, answer⟩ := Option.bind_eq_some_iff.mp unused
      rintro rfl
      cases same with
      | true => cases answer
      | false => exact textEqual_true real equal
    · split at unused
      · exact ih unused later
      · obtain ⟨same, -, answer⟩ := Option.bind_eq_some_iff.mp unused
        cases same with
        | true => cases answer
        | false => exact ih answer later

theorem unregisterBackend_started {routePrefix : Text} {done : Nat × Manager}
    (ended : m.unregisterBackend routePrefix = some done) : Started m (.answered done.1 0) done.2 := by
  unfold Manager.unregisterBackend at ended
  split at ended
  · obtain rfl := Option.some.inj ended
    exact .nothing
  · cases found : (List.range backendCapacity).find? fun i =>
        (m.backends i).used && Manager.samePrefix (m.backends i).routePrefix routePrefix with
    | none =>
      rw [found] at ended
      obtain rfl := Option.some.inj ended
      exact .nothing
    | some i =>
      rw [found] at ended
      obtain ⟨inUse, searched, rfl⟩ := Option.map_eq_some_iff.mp ended
      cases inUse with
      | true => exact .nothing
      | false =>
        refine .unregistered (fun j low used real => ?_)
        exact prefixInUse_false searched (List.mem_range.mpr low) used real

theorem start_started {request : Request} {done : Outcome × Manager} (started : m.start request = some done) :
    Started m done.1 done.2 := by
  cases request with
  | openPath backend context path mode out =>
    obtain rfl := Option.some.inj started
    exact openBackend_started (fun real => absurd rfl real)
  | openResolved path mode create out =>
    obtain rfl := Option.some.inj started
    exact openResolved_started path mode create out
  | nameOperation path operation result =>
    obtain rfl := Option.some.inj started
    exact nameOperation_started path operation result
  | operate localPath operation arg0 arg1 arg2 result =>
    obtain rfl := Option.some.inj started
    exact operate_started localPath operation result
  | close localPath =>
    obtain rfl := Option.some.inj started
    exact close_started localPath
  | registerBackend routePrefix backend context =>
    obtain rfl := Option.some.inj started
    exact registerBackend_started routePrefix backend context
  | unregisterBackend routePrefix =>
    obtain ⟨ended, answered, rfl⟩ := Option.map_eq_some_iff.mp started
    exact unregisterBackend_started answered

end

/-! ### One slot at a time -/

section
variable {s s' : System} {i : Nat}

theorem setPath_here (m : Manager) (i : Nat) (path : Path) : (m.setPath i path).paths i = path := if_pos rfl

theorem setPath_other (m : Manager) {i j : Nat} (path : Path) (other : j ≠ i) :
    (m.setPath i path).paths j = m.paths j :=
  if_neg other

/-- A step that changes one slot, at most by one frame and one event that name it. -/
theorem Orderly.changed (orderly : Orderly s) {path : Path}
    (manager : s'.manager = s.manager.setPath i path)
    (opens' : ∀ j, j ≠ i → opens j s'.stack = opens j s.stack)
    (operates' : ∀ j, j ≠ i → operates j s'.stack = operates j s.stack)
    (closes' : ∀ j, j ≠ i → closes j s'.stack = closes j s.stack)
    (holding' : ∀ j, j ≠ i → holding j s'.log = holding j s.log)
    (running' : ∀ j, j ≠ i → running j s'.log = running j s.log)
    (slot : Sound path (opens i s'.stack) (operates i s'.stack) (closes i s'.stack) (holding i s'.log)
      (running i s'.log))
    (frames : ∀ frame ∈ s'.stack, Remembers s'.manager frame) (routed : Routed s.manager path)
    (disciplined : Disciplined s'.log) : Orderly s' := by
  have paths (j : Nat) (other : j ≠ i) : s'.manager.paths j = s.manager.paths j := by
    rw [manager, setPath_other _ _ other]
  have here : s'.manager.paths i = path := by rw [manager, setPath_here]
  have capacity : s'.manager.capacity = s.manager.capacity := by rw [manager]; rfl
  have backends : s'.manager.backends = s.manager.backends := by rw [manager]; rfl
  have routes (p : Path) (old : Routed s.manager p) : Routed s'.manager p := by
    unfold Routed
    rw [backends]
    exact old
  refine ⟨capacity ▸ orderly.small, fun j low => ?_, frames, fun j low => ?_, disciplined⟩
  · by_cases same : j = i
    · rw [same, here]
      exact slot
    · rw [paths j same, opens' j same, operates' j same, closes' j same, holding' j same, running' j same]
      exact orderly.slots j (capacity ▸ low)
  · by_cases same : j = i
    · rw [same, here]
      exact routes path routed
    · rw [paths j same]
      exact routes _ (orderly.routed j (capacity ▸ low))

theorem Routed.congr {m : Manager} {path path' : Path} (routed : Routed m path)
    (free : path'.state ≠ .free → path.state ≠ .free) (routePrefix : path'.routePrefix = path.routePrefix)
    (backend : path'.backend = path.backend) (context : path'.backendContext = path.backendContext) :
    Routed m path' := by
  unfold Routed
  rw [routePrefix, backend, context]
  exact fun used => routed (free used)

/-- Frames of other slots remember them as before. -/
theorem Remembers.congr {m m' : Manager} {frame : Frame} (remembers : Remembers m frame)
    (capacity : m'.capacity = m.capacity)
    (paths : ∀ j before, frame = .closing j before → m'.paths j = m.paths j) : Remembers m' frame := by
  cases frame with
  | opening j before => exact ⟨capacity ▸ remembers.1, remembers.2⟩
  | operating j =>
    unfold Remembers
    rw [capacity]
    exact remembers
  | closing j before =>
    refine ⟨capacity ▸ remembers.1, ?_⟩
    rw [paths j before rfl]
    exact remembers.2
  | naming => trivial

theorem closes_pos {stack : List Frame} {before : Path} (member : Frame.closing i before ∈ stack) :
    0 < closes i stack :=
  List.countP_pos_iff.mpr ⟨_, member, by simp⟩

/-- While a slot is not closing no frame closes it. -/
theorem Orderly.not_closing (orderly : Orderly s) (low : i < s.manager.capacity)
    (state : (s.manager.paths i).state ≠ .closing) {before : Path} : Frame.closing i before ∉ s.stack := by
  intro member
  have count := (orderly.slots i low).closes
  rw [if_neg state] at count
  exact absurd (closes_pos member) (by omega)

theorem Orderly.frames_kept (orderly : Orderly s) (low : i < s.manager.capacity)
    (state : (s.manager.paths i).state ≠ .closing) (path : Path) :
    ∀ frame ∈ s.stack, Remembers (s.manager.setPath i path) frame := by
  intro frame member
  refine (orderly.frames frame member).congr rfl (fun j before is => ?_)
  have other : j ≠ i := by
    rintro rfl
    exact orderly.not_closing low state (is ▸ member)
  exact setPath_other _ _ other

end

/-! ### Slots by state -/

section
variable {path : Path} {opens operates closes run : Nat} {held : Option Handle}

theorem sound_clear : Sound .clear 0 0 0 none 0 := by
  constructor <;> simp [Path.clear]

theorem sound_opening (state : path.state = .opening) (idle : path.activeOperations = 0) : Sound path 1 0 0 none 0 := by
  constructor <;> simp [state, idle]

theorem sound_opened (state : path.state = .opened) (few : path.activeOperations ≤ 65535) :
    Sound path 0 path.activeOperations 0 (some path.handle) path.activeOperations := by
  constructor <;> simp [state, few]

theorem sound_idle (state : path.state = .opened) (idle : path.activeOperations = 0) :
    Sound path 0 0 0 (some path.handle) 0 := by
  constructor <;> simp [state, idle]

theorem sound_closing (state : path.state = .closing) (idle : path.activeOperations = 0) :
    Sound path 0 0 1 (some path.handle) 0 := by
  constructor <;> simp [state, idle]

theorem Sound.of_free (sound : Sound path opens operates closes held run) (state : path.state = .free) :
    path = .clear ∧ opens = 0 ∧ operates = 0 ∧ closes = 0 ∧ held = none ∧ run = 0 := by
  obtain ⟨rfl, none⟩ := sound.free state
  exact ⟨rfl, sound.opens, sound.operates, sound.closes, none, sound.run⟩

theorem Sound.of_opening (sound : Sound path opens operates closes held run) (state : path.state = .opening) :
    opens = 1 ∧ operates = 0 ∧ closes = 0 ∧ held = none ∧ run = 0 ∧ path.activeOperations = 0 := by
  obtain ⟨none, idle⟩ := sound.opening state
  have opens := sound.opens
  have closes := sound.closes
  rw [if_pos state] at opens
  rw [if_neg (by rw [state]; decide)] at closes
  exact ⟨opens, sound.operates.trans idle, closes, none, sound.run.trans idle, idle⟩

theorem Sound.of_opened (sound : Sound path opens operates closes held run) (state : path.state = .opened) :
    opens = 0 ∧ operates = path.activeOperations ∧ closes = 0 ∧ held = some path.handle ∧
      run = path.activeOperations := by
  have opens := sound.opens
  have closes := sound.closes
  rw [if_neg (by rw [state]; decide)] at opens closes
  exact ⟨opens, sound.operates, closes, sound.opened state, sound.run⟩

theorem Sound.of_closing (sound : Sound path opens operates closes held run) (state : path.state = .closing) :
    opens = 0 ∧ operates = 0 ∧ closes = 1 ∧ held = some path.handle ∧ run = 0 ∧ path.activeOperations = 0 := by
  obtain ⟨some, idle⟩ := sound.closing state
  have opens := sound.opens
  have closes := sound.closes
  rw [if_neg (by rw [state]; decide)] at opens
  rw [if_pos state] at closes
  exact ⟨opens, sound.operates.trans idle, closes, some, sound.run.trans idle, idle⟩

/-- A slot an open call waits for is opening. -/
theorem Sound.is_opening (sound : Sound path opens operates closes held run) (waits : 0 < opens) :
    path.state = .opening := by
  by_contra state
  have count := sound.opens
  rw [if_neg state] at count
  omega

theorem Sound.is_closing (sound : Sound path opens operates closes held run) (waits : 0 < closes) :
    path.state = .closing := by
  by_contra state
  have count := sound.closes
  rw [if_neg state] at count
  omega

/-- A slot an operate call waits for is open. -/
theorem Sound.is_opened (sound : Sound path opens operates closes held run) (waits : 0 < operates) :
    path.state = .opened := by
  have active := sound.operates
  cases state : path.state with
  | free => exact absurd (sound.of_free state).2.2.1 (by omega)
  | opened => rfl
  | opening => exact absurd (sound.of_opening state).2.1 (by omega)
  | closing => exact absurd (sound.of_closing state).2.1 (by omega)

end

/-! ### Calls -/

/-- The slot a frame waits for. -/
def Frame.Names (i : Nat) : Frame → Prop
  | .opening j _ => j = i
  | .operating j => j = i
  | .closing j _ => j = i
  | .naming => False

theorem counts_other {i j : Nat} {frame : Frame} (names : frame.Names i) (other : j ≠ i) (stack : List Frame) :
    opens j (frame :: stack) = opens j stack ∧ operates j (frame :: stack) = operates j stack ∧
      closes j (frame :: stack) = closes j stack := by
  cases frame <;> simp_all [Frame.Names, opens, operates, closes, Ne.symm other]

section
variable {s : System} {i : Nat}

/-- A new call for one slot waits for its callback. -/
theorem Orderly.push (orderly : Orderly s) {frame : Frame} (names : frame.Names i) {path : Path} {log : List Event}
    (holds : ∀ j, j ≠ i → holding j (log ++ s.log) = holding j s.log)
    (runs : ∀ j, j ≠ i → running j (log ++ s.log) = running j s.log)
    (slot : Sound path (opens i (frame :: s.stack)) (operates i (frame :: s.stack)) (closes i (frame :: s.stack))
      (holding i (log ++ s.log)) (running i (log ++ s.log)))
    (remembers : Remembers (s.manager.setPath i path) frame)
    (others : ∀ frame ∈ s.stack, Remembers (s.manager.setPath i path) frame) (routed : Routed s.manager path)
    (disciplined : Disciplined (log ++ s.log)) :
    Orderly ⟨s.manager.setPath i path, frame :: s.stack, log ++ s.log, s.answer⟩ := by
  have counts (j : Nat) (other : j ≠ i) := counts_other names other s.stack
  refine orderly.changed rfl (fun j other => (counts j other).1) (fun j other => (counts j other).2.1)
    (fun j other => (counts j other).2.2) holds runs slot (fun other member => ?_) routed disciplined
  rcases List.mem_cons.mp member with rfl | later
  · exact remembers
  · exact others other later

theorem Orderly.reserve (orderly : Orderly s) (low : i < s.manager.capacity) (free : (s.manager.paths i).state = .free)
    {path : Path} (state : path.state = .opening) (idle : path.activeOperations = 0) (routed : Routed s.manager path) :
    Orderly ⟨s.manager.setPath i path, .opening i (s.manager.paths i) :: s.stack, [] ++ s.log, s.answer⟩ := by
  obtain ⟨clear, opens', operates', closes', none, idle'⟩ := (orderly.slots i low).of_free free
  have names : (Frame.opening i (s.manager.paths i)).Names i := rfl
  refine orderly.push names (fun _ _ => rfl) (fun _ _ => rfl) ?_ ⟨low, clear⟩
    (orderly.frames_kept low (by rw [free]; decide) path) routed orderly.disciplined
  have count : opens i (.opening i (s.manager.paths i) :: s.stack) = opens i s.stack + 1 := by simp [opens]
  have count' : operates i (.opening i (s.manager.paths i) :: s.stack) = operates i s.stack := by simp [operates]
  have count'' : closes i (.opening i (s.manager.paths i) :: s.stack) = closes i s.stack := by simp [closes]
  rw [count, count', count'', List.nil_append, opens', operates', closes', none, idle']
  exact sound_opening state idle

theorem Orderly.operate (orderly : Orderly s) (low : i < s.manager.capacity)
    (opened : (s.manager.paths i).state = .opened) (few : (s.manager.paths i).activeOperations ≠ 65535) {path : Path}
    (is : path = { s.manager.paths i with activeOperations := (s.manager.paths i).activeOperations + 1 }) :
    Orderly ⟨s.manager.setPath i path, .operating i :: s.stack, [.operateStarted i path.handle] ++ s.log, s.answer⟩ := by
  have old := orderly.slots i low
  obtain ⟨opens', operates', closes', held, run⟩ := old.of_opened opened
  have state : path.state = .opened := by rw [is, ← opened]
  have handle : path.handle = (s.manager.paths i).handle := by rw [is]; rfl
  have active : path.activeOperations = (s.manager.paths i).activeOperations + 1 := by rw [is]
  have routed : Routed s.manager path := by
    refine (orderly.routed i low).congr (fun _ => ?_) (by rw [is]) (by rw [is]) (by rw [is])
    rw [opened]
    decide
  have names : (Frame.operating i).Names i := rfl
  refine orderly.push names (fun _ _ => rfl) (fun j other => if_neg (Ne.symm other)) ?_ low
    (orderly.frames_kept low (by rw [opened]; decide) path) routed ⟨?_, orderly.disciplined⟩
  · have count : opens i (.operating i :: s.stack) = opens i s.stack := by simp [opens]
    have count' : operates i (.operating i :: s.stack) = operates i s.stack + 1 := by simp [operates]
    have count'' : closes i (.operating i :: s.stack) = closes i s.stack := by simp [closes]
    have holds : holding i ([.operateStarted i path.handle] ++ s.log) = some path.handle := held.trans (by rw [handle])
    have runs : running i ([.operateStarted i path.handle] ++ s.log) = running i s.log + 1 := if_pos rfl
    rw [count, count', count'', holds, runs, opens', operates', closes', run, ← active]
    exact sound_opened state (by have := old.few; omega)
  · rw [handle]
    exact held

theorem Orderly.close (orderly : Orderly s) (low : i < s.manager.capacity)
    (opened : (s.manager.paths i).state = .opened) (idle : (s.manager.paths i).activeOperations = 0) {path : Path}
    (is : path = { s.manager.paths i with state := .closing }) :
    Orderly ⟨s.manager.setPath i path, .closing i (s.manager.paths i) :: s.stack,
      [.closeStarted i path.handle] ++ s.log, s.answer⟩ := by
  obtain ⟨opens', operates', closes', held, run⟩ := (orderly.slots i low).of_opened opened
  have handle : path.handle = (s.manager.paths i).handle := by rw [is]; rfl
  have routed : Routed s.manager path := by
    refine (orderly.routed i low).congr (fun _ => ?_) (by rw [is]) (by rw [is]) (by rw [is])
    rw [opened]
    decide
  have names : (Frame.closing i (s.manager.paths i)).Names i := rfl
  refine orderly.push names (fun _ _ => rfl) (fun _ _ => rfl) ?_ ⟨low, ?_⟩
    (orderly.frames_kept low (by rw [opened]; decide) path) routed ⟨⟨?_, run.trans idle⟩, orderly.disciplined⟩
  · have count : opens i (.closing i (s.manager.paths i) :: s.stack) = opens i s.stack := by simp [opens]
    have count' : operates i (.closing i (s.manager.paths i) :: s.stack) = operates i s.stack := by simp [operates]
    have count'' : closes i (.closing i (s.manager.paths i) :: s.stack) = closes i s.stack + 1 := by simp [closes]
    have holds : holding i ([.closeStarted i path.handle] ++ s.log) = some path.handle := held.trans (by rw [handle])
    have runs : running i ([.closeStarted i path.handle] ++ s.log) = 0 := run.trans idle
    rw [count, count', count'', holds, runs, opens', operates', closes', idle]
    exact sound_closing (by rw [is]) (by rw [is, ← idle])
  · rw [setPath_here, is, ← opened]
  · rw [handle]
    exact held

end

/-! ### Returns -/

section
variable {s : System} {i : Nat} {frame : Frame} {rest : List Frame}

/-- The callback of the last call returns. -/
theorem Orderly.pop (orderly : Orderly s) (top : s.stack = frame :: rest) (names : frame.Names i) {path : Path}
    {log : List Event} {answer : Option (Nat × Nat)}
    (holds : ∀ j, j ≠ i → holding j (log ++ s.log) = holding j s.log)
    (runs : ∀ j, j ≠ i → running j (log ++ s.log) = running j s.log)
    (slot : Sound path (opens i rest) (operates i rest) (closes i rest) (holding i (log ++ s.log))
      (running i (log ++ s.log)))
    (unclosed : closes i rest = 0) (routed : Routed s.manager path) (disciplined : Disciplined (log ++ s.log)) :
    Orderly ⟨s.manager.setPath i path, rest, log ++ s.log, answer⟩ := by
  have counts (j : Nat) (other : j ≠ i) := counts_other names other rest
  refine orderly.changed rfl (fun j other => ?_) (fun j other => ?_) (fun j other => ?_) holds runs slot
    (fun other member => ?_) routed disciplined
  · rw [top, (counts j other).1]
  · rw [top, (counts j other).2.1]
  · rw [top, (counts j other).2.2]
  · have earlier : other ∈ s.stack := by
      rw [top]
      exact List.mem_cons_of_mem _ member
    refine (orderly.frames other earlier).congr rfl (fun j before is => setPath_other _ _ ?_)
    rintro rfl
    have count : 0 < closes j rest := closes_pos (is ▸ member)
    omega

theorem Orderly.opened (orderly : Orderly s) {before : Path} (top : s.stack = .opening i before :: rest)
    (status backendPath : Nat) {answer : Option (Nat × Nat)} :
    Orderly ⟨(s.manager.opened i status backendPath).2.2, rest,
      cameBack (s.manager.opened i status backendPath).2.2 status backendPath (.opening i before) ++ s.log, answer⟩ := by
  obtain ⟨low, -⟩ : Remembers s.manager (.opening i before) := orderly.frames _ (top ▸ List.mem_cons_self)
  have old := orderly.slots i low
  rw [top] at old
  have count : opens i (.opening i before :: rest) = opens i rest + 1 := by simp [opens]
  have count' : operates i (.opening i before :: rest) = operates i rest := by simp [operates]
  have count'' : closes i (.opening i before :: rest) = closes i rest := by simp [closes]
  rw [count, count', count''] at old
  have state := old.is_opening (by omega)
  obtain ⟨opens', operates', closes', none, runs, idle⟩ := old.of_opening state
  have opens'' : opens i rest = 0 := by omega
  have names : (Frame.opening i before).Names i := rfl
  unfold Manager.opened
  by_cases failed : status = ok
  · rw [if_neg (not_not.mpr failed)]
    dsimp only [cameBack]
    rw [if_pos failed, setPath_here]
    have routed : Routed s.manager { s.manager.paths i with backendPath := backendPath, state := .opened } :=
      (orderly.routed i low).congr (fun _ => by rw [state]; decide) rfl rfl rfl
    refine orderly.pop top names (fun j other => if_neg (Ne.symm other)) (fun _ _ => rfl) ?_ closes' routed
      ⟨none, orderly.disciplined⟩
    have holds (handle : Handle) : holding i ([.produced i handle] ++ s.log) = some handle := if_pos rfl
    have runs' (handle : Handle) : running i ([.produced i handle] ++ s.log) = 0 := runs
    rw [opens'', operates', closes', holds, runs']
    exact sound_idle rfl idle
  · rw [if_pos failed]
    dsimp only [cameBack]
    rw [if_neg failed]
    have routed : Routed s.manager .clear := fun used => absurd rfl used
    refine orderly.pop top names (fun _ _ => rfl) (fun _ _ => rfl) ?_ closes' routed orderly.disciplined
    rw [opens'', operates', closes', List.nil_append, none, runs]
    exact sound_clear

theorem Orderly.operated (orderly : Orderly s) (top : s.stack = .operating i :: rest) {answer : Option (Nat × Nat)} :
    Orderly ⟨s.manager.operated i, rest, [.operateEnded i] ++ s.log, answer⟩ := by
  have low : i < s.manager.capacity := orderly.frames (.operating i) (top ▸ List.mem_cons_self)
  have old := orderly.slots i low
  rw [top] at old
  have count : opens i (.operating i :: rest) = opens i rest := by simp [opens]
  have count' : operates i (.operating i :: rest) = operates i rest + 1 := by simp [operates]
  have count'' : closes i (.operating i :: rest) = closes i rest := by simp [closes]
  rw [count, count', count''] at old
  have state := old.is_opened (by omega)
  obtain ⟨opens', operates', closes', held, runs⟩ := old.of_opened state
  have names : (Frame.operating i).Names i := rfl
  have routed : Routed s.manager
      { s.manager.paths i with activeOperations := (s.manager.paths i).activeOperations - 1 } :=
    (orderly.routed i low).congr (fun used => used) rfl rfl rfl
  refine orderly.pop top names (fun _ _ => rfl) (fun j other => if_neg (Ne.symm other)) ?_ closes' routed
    ⟨?_, orderly.disciplined⟩
  · have holds : holding i ([.operateEnded i] ++ s.log) = some (s.manager.paths i).handle := held
    have runs' : running i ([.operateEnded i] ++ s.log) = running i s.log - 1 := if_pos rfl
    have active : operates i rest = (s.manager.paths i).activeOperations - 1 := by omega
    have few : (s.manager.paths i).activeOperations - 1 ≤ 65535 := by
      have limit := old.few
      omega
    rw [opens', closes', holds, runs', runs, active]
    exact sound_opened state few
  · show 0 < running i s.log
    omega

theorem Orderly.closed (orderly : Orderly s) {before : Path} (top : s.stack = .closing i before :: rest)
    (status backendPath : Nat) {answer : Option (Nat × Nat)} :
    Orderly ⟨s.manager.closed i status, rest,
      cameBack (s.manager.closed i status) status backendPath (.closing i before) ++ s.log, answer⟩ := by
  obtain ⟨low, -⟩ : Remembers s.manager (.closing i before) := orderly.frames _ (top ▸ List.mem_cons_self)
  have old := orderly.slots i low
  rw [top] at old
  have count : opens i (.closing i before :: rest) = opens i rest := by simp [opens]
  have count' : operates i (.closing i before :: rest) = operates i rest := by simp [operates]
  have count'' : closes i (.closing i before :: rest) = closes i rest + 1 := by simp [closes]
  rw [count, count', count''] at old
  have state := old.is_closing (by omega)
  obtain ⟨opens', operates', closes', held, runs, idle⟩ := old.of_closing state
  have unclosed : closes i rest = 0 := by omega
  have names : (Frame.closing i before).Names i := rfl
  unfold Manager.closed
  dsimp only [cameBack]
  by_cases failed : status = ok
  · rw [if_neg (not_not.mpr failed), if_pos failed]
    have routed : Routed s.manager .clear := fun used => absurd rfl used
    refine orderly.pop top names (fun j other => if_neg (Ne.symm other)) (fun _ _ => rfl) ?_ unclosed routed
      ⟨?_, orderly.disciplined⟩
    · have holds : holding i ([.released i] ++ s.log) = none := if_pos rfl
      have runs' : running i ([.released i] ++ s.log) = 0 := runs
      rw [opens', operates', unclosed, holds, runs']
      exact sound_clear
    · show holding i s.log ≠ none
      rw [held]
      exact Option.some_ne_none _
  · rw [if_pos failed, if_neg failed]
    have routed : Routed s.manager { s.manager.paths i with state := .opened } :=
      (orderly.routed i low).congr (fun _ => by rw [state]; decide) rfl rfl rfl
    refine orderly.pop top names (fun _ _ => rfl) (fun _ _ => rfl) ?_ unclosed routed orderly.disciplined
    rw [opens', operates', unclosed, List.nil_append, held, runs]
    exact sound_idle rfl idle

end

/-! ### Runs -/

theorem Orderly.setBackend {s : System} (orderly : Orderly s) {i : Nat} {entry : BackendRegistration}
    {answer : Option (Nat × Nat)}
    (kept : ∀ j, j < s.manager.capacity → (s.manager.paths j).state ≠ .free → (s.manager.paths j).routePrefix ≠ none →
      (s.manager.backends i).used = true → (s.manager.paths j).routePrefix ≠ (s.manager.backends i).routePrefix) :
    Orderly ⟨s.manager.setBackend i entry, s.stack, s.log, answer⟩ := by
  refine ⟨orderly.small, orderly.slots, fun frame member => ?_, fun j low used real => ?_, orderly.disciplined⟩
  · exact (orderly.frames frame member).congr rfl (fun _ _ _ => rfl)
  · obtain ⟨l, inside, live, through⟩ := orderly.routed j low used real
    have other : l ≠ i := by
      rintro rfl
      exact kept j low used real live through.1.symm
    have same : (s.manager.setBackend i entry).backends l = s.manager.backends l := if_neg other
    refine ⟨l, inside, ?_⟩
    rw [same]
    exact ⟨live, through⟩

theorem calledOut_operating (m : Manager) (i : Nat) (path : Path) :
    calledOut (m.setPath i path) (.operating i) = [.operateStarted i path.handle] := by
  rw [calledOut, setPath_here]

theorem calledOut_closing (m : Manager) (i : Nat) (before path : Path) :
    calledOut (m.setPath i path) (.closing i before) = [.closeStarted i path.handle] := by
  rw [calledOut, setPath_here]

theorem call_orderly {s s' : System} {request : Request} (orderly : Orderly s)
    (stepped : step s (.call request) = some s') : Orderly s' := by
  obtain ⟨done, started, is⟩ := Option.map_eq_some_iff.mp stepped
  obtain ⟨outcome, m⟩ := done
  have effect := start_started started
  cases effect with
  | nothing =>
    subst is
    exact ⟨orderly.small, orderly.slots, orderly.frames, orderly.routed, orderly.disciplined⟩
  | named =>
    subst is
    refine ⟨orderly.small, fun i low => ?_, fun frame member => ?_, orderly.routed, orderly.disciplined⟩
    · have count : opens i (.naming :: s.stack) = opens i s.stack := by simp [opens]
      have count' : operates i (.naming :: s.stack) = operates i s.stack := by simp [operates]
      have count'' : closes i (.naming :: s.stack) = closes i s.stack := by simp [closes]
      dsimp only
      rw [count, count', count'']
      exact orderly.slots i low
    · rcases List.mem_cons.mp member with rfl | later
      · trivial
      · exact orderly.frames frame later
  | reserved low free route =>
    subst is
    exact orderly.reserve low free rfl rfl (fun _ => route)
  | @operating i low opened few =>
    subst is
    have kept := orderly.operate low opened few rfl
    rw [← calledOut_operating s.manager] at kept
    exact kept
  | @closing i low opened idle =>
    subst is
    have kept := orderly.close low opened idle rfl
    rw [← calledOut_closing s.manager i (s.manager.paths i)] at kept
    exact kept
  | registered unused =>
    subst is
    refine orderly.setBackend (fun _ _ _ _ live => ?_)
    rw [unused] at live
    cases live
  | unregistered unused =>
    subst is
    exact orderly.setBackend (fun j low used real _ => unused j low used real)

theorem back_orderly {s s' : System} {status backendPath : Nat} (orderly : Orderly s)
    (stepped : step s (.back status backendPath) = some s') : Orderly s' := by
  unfold step at stepped
  cases top : s.stack with
  | nil =>
    rw [top] at stepped
    cases stepped
  | cons frame rest =>
    rw [top] at stepped
    obtain rfl := Option.some.inj stepped
    cases frame with
    | opening i before => exact orderly.opened top status backendPath
    | operating i => exact orderly.operated top
    | closing i before => exact orderly.closed top status backendPath
    | naming =>
      refine ⟨orderly.small, fun i low => ?_, fun frame member => ?_, orderly.routed, orderly.disciplined⟩
      · have old := orderly.slots i low
        rw [top] at old
        have count : opens i (.naming :: rest) = opens i rest := by simp [opens]
        have count' : operates i (.naming :: rest) = operates i rest := by simp [operates]
        have count'' : closes i (.naming :: rest) = closes i rest := by simp [closes]
        rw [count, count', count''] at old
        exact old
      · refine orderly.frames frame ?_
        rw [top]
        exact List.mem_cons_of_mem _ member

theorem step_orderly {s s' : System} {turn : Turn} (orderly : Orderly s) (stepped : step s turn = some s') :
    Orderly s' := by
  cases turn with
  | call request => exact call_orderly orderly stepped
  | back status backendPath => exact back_orderly orderly stepped

theorem init_orderly {capacity : Nat} (small : capacity < 65536) : Orderly (System.init capacity) := by
  refine ⟨small, fun i low => ?_, fun frame member => ?_, fun i low used => absurd rfl used, trivial⟩
  · exact sound_clear
  · exact absurd member List.not_mem_nil

/-- A call that answers at once leaves every slot as it was. -/
theorem answered_paths {m m' : Manager} {request : Request} {status localPath : Nat}
    (started : m.start request = some (.answered status localPath, m')) : m'.paths = m.paths := by
  have effect : Started m (.answered status localPath) m' := start_started started
  cases effect with
  | nothing => rfl
  | registered unused => rfl
  | unregistered unused => rfl

/-- What holds of the paths at every point of a run, also inside callbacks. -/
structure PathsKept (s : System) : Prop where
  /-- Handles reach callbacks only between open and close, and no close starts while an operate runs. -/
  disciplined : Disciplined s.log
  active : ∀ i, i < s.manager.capacity →
    (s.manager.paths i).activeOperations = running i s.log ∧ (s.manager.paths i).activeOperations = operates i s.stack
  /-- A path number that is given out is that of no other open path. -/
  numbers : ∀ i before rest backendPath, s.stack = .opening i before :: rest →
    (s.manager.resume ok backendPath (.opening i before)).2.1 = i + 1 ∧
      ∀ j, j < s.manager.capacity → (s.manager.paths j).state = .opened → j + 1 ≠ i + 1
  failedOpen : ∀ i before rest status backendPath, s.stack = .opening i before :: rest → status ≠ ok →
    (s.manager.resume status backendPath (.opening i before)).2.2.paths i = before ∧ before.state = .free
  failedClose : ∀ i before rest status backendPath, s.stack = .closing i before :: rest → status ≠ ok →
    (s.manager.resume status backendPath (.closing i before)).2.2.paths i = before ∧ before.state = .opened
  refused : ∀ request status localPath m, s.manager.start request = some (.answered status localPath, m) →
    m.paths = s.manager.paths
  routed : ∀ i, i < s.manager.capacity → Routed s.manager (s.manager.paths i)

theorem Orderly.pathsKept {s : System} (orderly : Orderly s) : PathsKept s where
  disciplined := orderly.disciplined
  active i low := ⟨(orderly.slots i low).run.symm, (orderly.slots i low).operates.symm⟩
  numbers := by
    intro i before rest backendPath top
    obtain ⟨low, -⟩ : Remembers s.manager (.opening i before) := orderly.frames _ (top ▸ List.mem_cons_self)
    have small := orderly.small
    refine ⟨Nat.mod_eq_of_lt (by omega), fun j inside opened same => ?_⟩
    obtain rfl : j = i := by omega
    have waits : 0 < opens j s.stack := by
      rw [top]
      simp [opens]
    have state := (orderly.slots j low).is_opening waits
    rw [opened] at state
    cases state
  failedOpen := by
    intro i before rest status backendPath top failed
    obtain ⟨-, rfl⟩ : Remembers s.manager (.opening i before) := orderly.frames _ (top ▸ List.mem_cons_self)
    refine ⟨?_, rfl⟩
    rw [Manager.resume, Manager.opened, if_pos failed, setPath_here]
  failedClose := by
    intro i before rest status backendPath top failed
    obtain ⟨-, rfl⟩ : Remembers s.manager (.closing i before) := orderly.frames _ (top ▸ List.mem_cons_self)
    refine ⟨?_, rfl⟩
    rw [Manager.resume, Manager.closed, if_pos failed, setPath_here]
  refused _ _ _ _ := answered_paths
  routed := orderly.routed

/-- Paths keep their life cycle in every run, however deep callbacks call the manager again and
whatever they return. -/
theorem path_life_cycle {capacity : Nat} (small : capacity < 65536) {turns : List Turn} {s : System}
    (ran : run step (System.init capacity) turns = some s) : PathsKept s := by
  have orderly := run_invariant (fun _ _ _ orderly _ stepped => step_orderly orderly stepped) (init_orderly small)
    (runMeets_of_forall (fun _ _ => trivial) _ turns) ran
  exact orderly.pathsKept

/-- A backend that offers everything. -/
def fullBackend : Backend := ⟨1, true, true, true, true, true⟩

/-- An open, and a close from inside an operate on the same path. -/
def nestedTurns : List Turn :=
  [.call (.openPath (some fullBackend) 0 (some [0x61]) 0 true), .back ok 7, .call (.operate 1 opRead 0 0 0 true),
    .call (.close 1), .back ok 0, .call (.close 1), .back ok 0]

theorem nested_ends : (run step (System.init 2) nestedTurns).isSome = true := by decide

theorem path_life_cycle_nested : ∃ s, run step (System.init 2) nestedTurns = some s ∧ PathsKept s := by
  obtain ⟨s, ran⟩ := Option.isSome_iff_exists.mp nested_ends
  exact ⟨s, ran, path_life_cycle (by decide) ran⟩

end Ioman

end Q9OS

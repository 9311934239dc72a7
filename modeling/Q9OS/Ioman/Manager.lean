import Mathlib.Tactic

/-!
# The I/O manager

`qioman.c`: a table of path slots and a registry of backends by path prefix.
An operation that calls a backend is split where it calls out: the part before
the call pushes a frame, and the part behind it runs when the callback returns.
Between the two the callback may call the manager again.
-/

namespace Q9OS

namespace Ioman

/-! ### State -/

/-- A table of callbacks, with those it has. -/
structure Backend where
  id : Nat
  canOpen : Bool
  canOperate : Bool
  canClose : Bool
  canCreate : Bool
  canName : Bool
  deriving DecidableEq

/-- The callbacks a path needs to be opened. -/
def Backend.usable (b : Backend) (create : Bool) : Bool := (if create then b.canCreate else b.canOpen) && b.canClose

/-- A C string without its end, or none for a null pointer. -/
abbrev Text := Option (List Nat)

inductive PathState where
  | free
  | opened
  | opening
  | closing
  deriving DecidableEq

structure Path where
  state : PathState
  backendPath : Nat
  accessMode : Nat
  activeOperations : Nat
  backend : Option Backend
  backendContext : Nat
  routePrefix : Text
  deriving DecidableEq

def Path.clear : Path := ⟨.free, 0, 0, 0, none, 0, none⟩

structure BackendRegistration where
  routePrefix : Text
  backend : Option Backend
  context : Nat
  used : Bool
  deriving DecidableEq

def BackendRegistration.clear : BackendRegistration := ⟨none, none, 0, false⟩

structure Manager where
  capacity : Nat
  paths : Nat → Path
  backends : Nat → BackendRegistration

def backendCapacity : Nat := 8
def accessRead : Nat := 1
def accessWrite : Nat := 2

def ok : Nat := 0
def eInvalidArgument : Nat := 1
def eInvalidPath : Nat := 2
def eNoPathSlots : Nat := 3
def eUnsupportedOperation : Nat := 4
def eNotFound : Nat := 5
def eRegistryFull : Nat := 6
def eBusy : Nat := 7
def eWrongMode : Nat := 8

def opRead : Nat := 0
def opWrite : Nat := 1
def opReadLine : Nat := 2
def opWriteLine : Nat := 3
def opSetStatus : Nat := 6
def opMakeDir : Nat := 7
def opDelete : Nat := 8

/-- The manager after `q9ioman_init` with a table of `capacity` paths. -/
def init (capacity : Nat) : Manager := ⟨capacity, fun _ => .clear, fun _ => .clear⟩

namespace Manager

def setPath (m : Manager) (i : Nat) (path : Path) : Manager :=
  { m with paths := fun j => if j = i then path else m.paths j }

def setBackend (m : Manager) (i : Nat) (entry : BackendRegistration) : Manager :=
  { m with backends := fun j => if j = i then entry else m.backends j }

/-! ### Prefixes -/

def prefixLength : Text → Nat
  | none => 0
  | some text => min text.length 65535

/-- Two prefixes as the registry compares them. -/
def samePrefix (left right : Text) : Bool :=
  prefixLength left = prefixLength right &&
    (left.getD []).take (prefixLength left) = (right.getD []).take (prefixLength right)

/-- Whole strings; the 16-bit index never leaves two strings that agree on all it can reach. -/
def textEqual : Text → Text → Option Bool
  | some left, some right =>
    if 65536 ≤ left.length ∧ left.take 65536 = right.take 65536 then none else some (left = right)
  | _, _ => some false

/-- The prefix ends at a component of the path. -/
def routes (entry : BackendRegistration) (path : List Nat) : Bool :=
  let length := prefixLength entry.routePrefix
  let next := path.getD length 0
  entry.used && length ≤ prefixLength (some path) &&
    (entry.routePrefix.getD []).take length = path.take length && (next = 0 || next = 0x2F)

/-- The longest prefix among the entries looked at. -/
def findBackendFrom (m : Manager) (path : List Nat) : List Nat → Option Nat → Nat → Option Nat
  | [], selected, _ => selected
  | i :: rest, selected, selectedLength =>
    let length := prefixLength (m.backends i).routePrefix
    if routes (m.backends i) path && length > selectedLength then findBackendFrom m path rest (some i) length
    else findBackendFrom m path rest selected selectedLength

def findBackend (m : Manager) (path : Text) : Option Nat :=
  path.bind fun path => m.findBackendFrom path (List.range backendCapacity) none 0

/-! ### The registry -/

def registerBackend (m : Manager) (routePrefix : Text) (backend : Option Backend) (context : Nat) : Nat × Manager :=
  if prefixLength routePrefix = 0 ∨ ¬ (backend.any fun b => b.canOpen && b.canClose) then (eInvalidArgument, m)
  else if (List.range backendCapacity).any fun i =>
      (m.backends i).used && samePrefix (m.backends i).routePrefix routePrefix then (eInvalidArgument, m)
  else
    match (List.range backendCapacity).find? fun i => !(m.backends i).used with
    | none => (eRegistryFull, m)
    | some i => (ok, m.setBackend i ⟨routePrefix, backend, context, true⟩)

/-- Whether a path in use goes through the prefix; none when a comparison does not end. -/
def prefixInUse (m : Manager) (routePrefix : Text) : List Nat → Option Bool
  | [] => some false
  | i :: rest =>
    if (m.paths i).state = .free then prefixInUse m routePrefix rest
    else (textEqual (m.paths i).routePrefix routePrefix).bind fun same =>
      if same then some true else prefixInUse m routePrefix rest

def unregisterBackend (m : Manager) (routePrefix : Text) : Option (Nat × Manager) :=
  if prefixLength routePrefix = 0 then some (eInvalidArgument, m)
  else
    match (List.range backendCapacity).find? fun i =>
        (m.backends i).used && samePrefix (m.backends i).routePrefix routePrefix with
    | none => some (eNotFound, m)
    | some i => (m.prefixInUse (m.backends i).routePrefix (List.range m.capacity)).map fun inUse =>
        if inUse then (eBusy, m) else (ok, m.setBackend i .clear)

end Manager

/-! ### Calls that call out -/

/-- What a call waits for. The slot as it was before the call is kept for the record only. -/
inductive Frame where
  | opening (slot : Nat) (before : Path)
  | operating (slot : Nat)
  | closing (slot : Nat) (before : Path)
  | naming
  deriving DecidableEq

/-- A call answers at once, with a status and a path number, or waits for its callback. -/
inductive Outcome where
  | answered (status localPath : Nat)
  | waiting (frame : Frame)
  deriving DecidableEq

namespace Manager

def grantedMode (mode : Nat) : Nat := if mode = 0 then accessRead + accessWrite else mode % 4

/-- Reserves a slot and calls the open or create callback. -/
def openBackend (m : Manager) (backend : Option Backend) (context : Nat) (path routePrefix : Text) (mode : Nat)
    (create out : Bool) : Outcome × Manager :=
  if ¬ out then (.answered eInvalidArgument 0, m)
  else if path = none ∨ m.capacity = 0 ∨
      ¬ (backend.any fun b => b.usable create) then
    (.answered eInvalidArgument 0, m)
  else
    match (List.range m.capacity).find? fun i => (m.paths i).state = .free with
    | none => (.answered eNoPathSlots 0, m)
    | some i =>
      (.waiting (.opening i (m.paths i)), m.setPath i { m.paths i with
        state := .opening, backend := backend, backendContext := context, routePrefix := routePrefix,
        activeOperations := 0, accessMode := grantedMode mode })

/-- The open or create callback has returned. -/
def opened (m : Manager) (i status backendPath : Nat) : Nat × Nat × Manager :=
  if status ≠ ok then (status, 0, m.setPath i .clear)
  else (ok, (i + 1) % 65536, m.setPath i { m.paths i with backendPath := backendPath, state := .opened })

def openResolved (m : Manager) (path : Text) (mode : Nat) (create out : Bool) : Outcome × Manager :=
  if ¬ out ∨ path = none then (.answered eInvalidArgument 0, m)
  else
    match m.findBackend path with
    | none => (.answered eNotFound 0, m)
    | some i =>
      let selected := m.backends i
      if create ∧ ¬ (selected.backend.any fun b => b.canCreate) then (.answered eUnsupportedOperation 0, m)
      else m.openBackend selected.backend selected.context path selected.routePrefix mode create out

def nameOperation (m : Manager) (path : Text) (operation : Nat) (result : Bool) : Outcome × Manager :=
  if path = none ∨ ¬ result then (.answered eInvalidArgument 0, m)
  else if operation ≠ opMakeDir ∧ operation ≠ opDelete then (.answered eUnsupportedOperation 0, m)
  else
    match m.findBackend path with
    | none => (.answered eNotFound 0, m)
    | some i =>
      if ¬ ((m.backends i).backend.any fun b => b.canName) then (.answered eUnsupportedOperation 0, m)
      else (.waiting .naming, m)

/-- The slot of an open path. -/
def findPath (m : Manager) (localPath : Nat) : Option Nat :=
  if localPath = 0 ∨ localPath > m.capacity then none
  else if (m.paths (localPath - 1)).state = .opened then some (localPath - 1)
  else none

def operate (m : Manager) (localPath operation : Nat) (result : Bool) : Outcome × Manager :=
  if ¬ result then (.answered eInvalidArgument 0, m)
  else if operation > opSetStatus then (.answered eUnsupportedOperation 0, m)
  else
    match m.findPath localPath with
    | none => (.answered eInvalidPath 0, m)
    | some i =>
      let path := m.paths i
      if ¬ (path.backend.any fun b => b.canOperate) then (.answered eUnsupportedOperation 0, m)
      else if (operation = opRead ∨ operation = opReadLine) ∧ path.accessMode % 2 = 0 then (.answered eWrongMode 0, m)
      else if (operation = opWrite ∨ operation = opWriteLine) ∧ path.accessMode / 2 % 2 = 0 then
        (.answered eWrongMode 0, m)
      else if path.activeOperations = 65535 then (.answered eBusy 0, m)
      else (.waiting (.operating i), m.setPath i { path with activeOperations := path.activeOperations + 1 })

/-- The operate callback has returned. -/
def operated (m : Manager) (i : Nat) : Manager :=
  m.setPath i { m.paths i with activeOperations := (m.paths i).activeOperations - 1 }

def close (m : Manager) (localPath : Nat) : Outcome × Manager :=
  match m.findPath localPath with
  | none => (.answered eInvalidPath 0, m)
  | some i =>
    let path := m.paths i
    if ¬ (path.backend.any fun b => b.canClose) then (.answered eUnsupportedOperation 0, m)
    else if path.activeOperations ≠ 0 then (.answered eBusy 0, m)
    else (.waiting (.closing i path), m.setPath i { path with state := .closing })

/-- The close callback has returned. -/
def closed (m : Manager) (i status : Nat) : Manager :=
  if status ≠ ok then m.setPath i { m.paths i with state := .opened } else m.setPath i .clear

end Manager

/-! ### The manager and its callers -/

inductive Request where
  | openPath (backend : Option Backend) (context : Nat) (path : Text) (mode : Nat) (out : Bool)
  | openResolved (path : Text) (mode : Nat) (create out : Bool)
  | nameOperation (path : Text) (operation : Nat) (result : Bool)
  | operate (localPath operation arg0 arg1 arg2 : Nat) (result : Bool)
  | close (localPath : Nat)
  | registerBackend (routePrefix : Text) (backend : Option Backend) (context : Nat)
  | unregisterBackend (routePrefix : Text)

namespace Manager

/-- The part of a call up to its answer or its callback; none when it does not end. -/
def start (m : Manager) : Request → Option (Outcome × Manager)
  | .openPath backend context path mode out => some (m.openBackend backend context path none mode false out)
  | .openResolved path mode create out => some (m.openResolved path mode create out)
  | .nameOperation path operation result => some (m.nameOperation path operation result)
  | .operate localPath operation _ _ _ result => some (m.operate localPath operation result)
  | .close localPath => some (m.close localPath)
  | .registerBackend routePrefix backend context =>
    let done := m.registerBackend routePrefix backend context
    some (.answered done.1 0, done.2)
  | .unregisterBackend routePrefix =>
    (m.unregisterBackend routePrefix).map fun done => (.answered done.1 0, done.2)

/-- The part of a call behind its callback, which returned `status` and, from open, `backendPath`. -/
def resume (m : Manager) (status backendPath : Nat) : Frame → Nat × Nat × Manager
  | .opening i _ => m.opened i status backendPath
  | .operating i => (status, 0, m.operated i)
  | .closing i _ => (status, 0, m.closed i status)
  | .naming => (status, 0, m)

end Manager

end Ioman

end Q9OS

import Mathlib.Tactic
import Q9OS.Lib.Mem
import Q9OS.Ioman.Manager

/-!
# I/O calls of the kernel

`qioman_kernel.c`: a call code and the registers the trap has saved become a
call of the manager, and its answer goes back into the registers.
-/

namespace Q9OS

namespace Ioman

/-! ### The register frame -/

def rD0 : Nat := 0x00
def rD1 : Nat := 0x04
def rA0 : Nat := 0x20
def rSR : Nat := 0x40

def os9PthFul : Nat := 0xC8
def os9BpNum : Nat := 0xC9
def os9BMode : Nat := 0xCB
def os9UnkSvc : Nat := 0xD0
def os9Mnf : Nat := 0xDD
def os9Param : Nat := 0xE1

def statusToOs9Error (status : Nat) : Nat :=
  if status = ok then 0
  else if status = eInvalidArgument then os9Param
  else if status = eInvalidPath then os9BpNum
  else if status = eWrongMode then os9BMode
  else if status = eNoPathSlots ∨ status = eRegistryFull then os9PthFul
  else if status = eNotFound then os9Mnf
  else os9UnkSvc

def setCarry (frame : Mem) (set : Bool) : Mem :=
  let status := frame.getU16 rSR
  frame.setU16 rSR (if set then status ||| 1 else status &&& 0xFFFE)

inductive RequestType where
  | create
  | open
  | makDir
  | chgDir
  | delete
  | seek
  | read
  | write
  | readLine
  | writeLine
  | getStatus
  | setStatus
  | close
  deriving DecidableEq

structure KernelRequest where
  type : RequestType
  path : Nat
  mode : Nat
  selector : Nat
  statusCode : Nat
  buffer : Nat
  length : Nat
  position : Nat

def KernelRequest.none (type : RequestType) : KernelRequest := ⟨type, 0, 0, 0, 0, 0, 0, 0⟩

/-- A request for a name in a0. -/
def named (frame : Mem) (type : RequestType) : KernelRequest := { KernelRequest.none type with buffer := frame.getU32 rA0 }

/-- A request for a path in d0 with a buffer in a0, d1 bytes long. -/
def transfers (frame : Mem) (type : RequestType) : KernelRequest :=
  { KernelRequest.none type with path := frame.getU16 (rD0 + 2), length := frame.getU32 rD1, buffer := frame.getU32 rA0 }

def asks (frame : Mem) (type : RequestType) : KernelRequest :=
  { KernelRequest.none type with
    path := frame.getU16 (rD0 + 2), statusCode := frame.getU16 (rD1 + 2), buffer := frame.getU32 rA0 }

def decodeKernelRequest (callcode : Nat) (frame : Mem) : Option KernelRequest :=
  if callcode = 0x83 then some { named frame .create with mode := frame.getU32 rD0 % 256 }
  else if callcode = 0x84 then some { named frame .open with mode := frame.getU32 rD0 % 256 }
  else if callcode = 0x85 then some (named frame .makDir)
  else if callcode = 0x86 then some { named frame .chgDir with selector := frame.getU16 (rD0 + 2) }
  else if callcode = 0x87 then some (named frame .delete)
  else if callcode = 0x88 then
    some { KernelRequest.none .seek with path := frame.getU16 (rD0 + 2), position := frame.getU32 rD1 }
  else if callcode = 0x89 then some (transfers frame .read)
  else if callcode = 0x8A then some (transfers frame .write)
  else if callcode = 0x8B then some (transfers frame .readLine)
  else if callcode = 0x8C then some (transfers frame .writeLine)
  else if callcode = 0x8D then some (asks frame .getStatus)
  else if callcode = 0x8E then some (asks frame .setStatus)
  else if callcode = 0x8F then some { KernelRequest.none .close with path := frame.getU16 (rD0 + 2) }
  else none

/-! ### What the manager calls -/

def opSeek : Nat := 4
def opGetStatus : Nat := 5

/-- A call of a backend. -/
inductive CallOut where
  | enter (create : Bool) (backend : Option Backend) (context : Nat) (path : Text) (mode : Nat)
  | operate (backend : Option Backend) (context backendPath operation arg0 arg1 arg2 : Nat)
  | close (backend : Option Backend) (context backendPath : Nat)
  | name (operation : Nat) (path : Text)

/-- What a backend leaves: its status, the path it has opened, the count it has transferred, and the manager, which
it may have called itself. -/
structure Back where
  status : Nat
  backendPath : Nat
  transferred : UInt32
  manager : Manager

/-- The platform: the resolver of path names, if there is one, and the backends. The resolver gives a status, the
name and its bytes with the end. -/
structure Platform where
  resolve : Option (Nat → Nat × Text × UInt32)
  back : Manager → CallOut → Back

/-- How a call of the manager ends. -/
structure Ended where
  status : Nat
  localPath : Nat
  transferred : UInt32
  manager : Manager
  calls : List CallOut

/-- A started call goes on to its end, through the backend it waits for. -/
def Platform.complete (platform : Platform) (call : Manager → Frame → CallOut) : Outcome × Manager → Ended
  | (.answered status localPath, m) => ⟨status, localPath, 0, m, []⟩
  | (.waiting frame, m) =>
    let out := call m frame
    let back := platform.back m out
    let done := back.manager.resume back.status back.backendPath frame
    ⟨done.1, done.2.1, back.transferred, done.2.2, [out]⟩

def enterCall (create : Bool) (path : Text) (mode : Nat) (m : Manager) : Frame → CallOut
  | .opening slot _ => .enter create (m.paths slot).backend (m.paths slot).backendContext path mode
  | _ => .name 0 none

def operateCall (operation arg0 arg1 arg2 : Nat) (m : Manager) : Frame → CallOut
  | .operating slot =>
    .operate (m.paths slot).backend (m.paths slot).backendContext (m.paths slot).backendPath operation arg0 arg1 arg2
  | _ => .name 0 none

def closeCall (m : Manager) : Frame → CallOut
  | .closing slot _ => .close (m.paths slot).backend (m.paths slot).backendContext (m.paths slot).backendPath
  | _ => .name 0 none

/-! ### Dispatching -/

/-- A request that was carried out or not, with the outputs in the frame. -/
structure Served where
  status : Nat
  frame : Mem
  manager : Option Manager
  calls : List CallOut

/-- The name in a0 and its bytes; it ends before the address space does. -/
def Platform.resolveName (platform : Platform) (buffer : Nat) : Except Nat (List Nat × Nat) :=
  match platform.resolve with
  | none => .error eInvalidArgument
  | some resolve =>
    match resolve buffer with
    | (status, name, bytes) =>
      if status ≠ ok then .error status
      else
        match name with
        | none => .error eInvalidArgument
        | some name =>
          if bytes = 0 ∨ buffer > 0xFFFFFFFF - bytes.toNat then .error eInvalidArgument else .ok (name, bytes.toNat)

/-- Only a call of the manager that succeeded gives its outputs to the frame. -/
def Ended.served (ended : Ended) (frame : Mem) (outputs : Mem) : Served :=
  ⟨ended.status, if ended.status = ok then outputs else frame, some ended.manager, ended.calls⟩

def Platform.serveOpen (platform : Platform) (m : Manager) (frame : Mem) (request : KernelRequest) (create : Bool) : Served :=
  match platform.resolveName request.buffer with
  | .error status => ⟨status, frame, some m, []⟩
  | .ok (name, bytes) =>
    let ended := platform.complete (enterCall create (some name) request.mode)
      (m.openResolved (some name) request.mode create true)
    ended.served frame ((frame.setU32 rD0 ended.localPath).setU32 rA0 (request.buffer + bytes))

def Platform.serveName (platform : Platform) (m : Manager) (frame : Mem) (request : KernelRequest) (operation : Nat) : Served :=
  match platform.resolveName request.buffer with
  | .error status => ⟨status, frame, some m, []⟩
  | .ok (name, _) =>
    (platform.complete (fun _ _ => .name operation (some name)) (m.nameOperation (some name) operation true)).served frame frame

def Platform.serveTransfer (platform : Platform) (m : Manager) (frame : Mem) (request : KernelRequest) (operation : Nat) : Served :=
  if request.length ≠ 0 ∧ (request.buffer = 0 ∨ request.buffer > 0xFFFFFFFF - (request.length - 1)) then
    ⟨eInvalidArgument, frame, some m, []⟩
  else
    let ended := platform.complete (operateCall operation request.buffer 0 request.length) (m.operate request.path operation true)
    if ended.status = ok ∧ ended.transferred.toNat > request.length then
      ⟨eInvalidArgument, frame, some ended.manager, ended.calls⟩
    else ended.served frame (frame.setU32 rD1 ended.transferred.toNat)

def Platform.serveOperate (platform : Platform) (m : Manager) (frame : Mem) (path operation arg0 arg1 : Nat) : Served :=
  (platform.complete (operateCall operation arg0 arg1 0) (m.operate path operation true)).served frame frame

def Platform.serve (platform : Platform) (m : Manager) (frame : Mem) (request : KernelRequest) : Served :=
  match request.type with
  | .create => platform.serveOpen m frame request true
  | .open => platform.serveOpen m frame request false
  | .makDir => platform.serveName m frame request opMakeDir
  | .delete => platform.serveName m frame request opDelete
  | .read => platform.serveTransfer m frame request opRead
  | .write => platform.serveTransfer m frame request opWrite
  | .readLine => platform.serveTransfer m frame request opReadLine
  | .writeLine => platform.serveTransfer m frame request opWriteLine
  | .seek => platform.serveOperate m frame request.path opSeek request.position 0
  | .getStatus => platform.serveOperate m frame request.path opGetStatus request.statusCode request.buffer
  | .setStatus => platform.serveOperate m frame request.path opSetStatus request.statusCode request.buffer
  | .close => (platform.complete closeCall (m.close request.path)).served frame frame
  | .chgDir => ⟨eUnsupportedOperation, frame, some m, []⟩

/-- The carry bit and, behind a failure, the error in d1. -/
def Served.finish (served : Served) : Served :=
  if served.status = ok then { served with frame := setCarry served.frame false }
  else { served with frame := setCarry (served.frame.setU16 (rD1 + 2) (statusToOs9Error served.status)) true }

/-- `q9ioman_dispatch_kernel_request`. -/
def Platform.dispatchKernelRequest (platform : Platform) (callcode : Nat) (manager : Option Manager) (frame : Mem) : Served :=
  let served : Served :=
    match manager with
    | none => ⟨eInvalidArgument, frame, none, []⟩
    | some m =>
      match decodeKernelRequest callcode frame with
      | none => ⟨eUnsupportedOperation, frame, some m, []⟩
      | some request => platform.serve m frame request
  served.finish

/-! ### The contract of the frame -/

def InWord (off x : Nat) : Prop := off ≤ x ∧ x < off + 2

def InLong (off x : Nat) : Prop := off ≤ x ∧ x < off + 4

/-- Reads and writes get no buffer at address 0 and none that goes on past the end of the address space. -/
def CallOut.Sane : CallOut → Prop
  | .operate _ _ _ operation address _ length =>
    operation ∈ [opRead, opWrite, opReadLine, opWriteLine] → length ≠ 0 → address ≠ 0 ∧ address + length ≤ 4294967296
  | _ => True

/-- The call of the manager behind each call code, up to its answer or its callback, and what the callback gets. -/
inductive Asks (platform : Platform) (callcode : Nat) (m : Manager) (frame : Mem) :
    Outcome × Manager → (Manager → Frame → CallOut) → Prop where
  | enter {name : List Nat} {bytes : Nat} (call : callcode ∈ [0x83, 0x84])
      (resolved : platform.resolveName (frame.getU32 rA0) = .ok (name, bytes)) :
      Asks platform callcode m frame (m.openResolved (some name) (frame.getU32 rD0 % 256) (callcode = 0x83) true)
        (enterCall (callcode = 0x83) (some name) (frame.getU32 rD0 % 256))
  | name {name : List Nat} {bytes operation : Nat} (call : (callcode, operation) ∈ [(0x85, opMakeDir), (0x87, opDelete)])
      (resolved : platform.resolveName (frame.getU32 rA0) = .ok (name, bytes)) :
      Asks platform callcode m frame (m.nameOperation (some name) operation true) (fun _ _ => .name operation (some name))
  | transfer {operation : Nat}
      (call : (callcode, operation) ∈ [(0x89, opRead), (0x8A, opWrite), (0x8B, opReadLine), (0x8C, opWriteLine)]) :
      Asks platform callcode m frame (m.operate (frame.getU16 (rD0 + 2)) operation true)
        (operateCall operation (frame.getU32 rA0) 0 (frame.getU32 rD1))
  | seek (call : callcode = 0x88) :
      Asks platform callcode m frame (m.operate (frame.getU16 (rD0 + 2)) opSeek true)
        (operateCall opSeek (frame.getU32 rD1) 0 0)
  | status {operation : Nat} (call : (callcode, operation) ∈ [(0x8D, opGetStatus), (0x8E, opSetStatus)]) :
      Asks platform callcode m frame (m.operate (frame.getU16 (rD0 + 2)) operation true)
        (operateCall operation (frame.getU16 (rD1 + 2)) (frame.getU32 rA0) 0)
  | close (call : callcode = 0x8F) : Asks platform callcode m frame (m.close (frame.getU16 (rD0 + 2))) closeCall

/-- The request got to its callback, which came back with `back`. -/
def Called (platform : Platform) (callcode : Nat) (manager : Option Manager) (frame : Mem) (calls : List CallOut)
    (waits : Frame) (back : Back) : Prop :=
  ∃ m m' call, manager = some m ∧ Asks platform callcode m frame (.waiting waits, m') call ∧
    calls = [call m' waits] ∧ back = platform.back m' (call m' waits)

/-- Why a request fails: with its status, and the callbacks until then. -/
inductive Cause (platform : Platform) (callcode : Nat) (manager : Option Manager) (frame : Mem) :
    Nat → List CallOut → Prop where
  | managerless (none : manager = none) : Cause platform callcode manager frame eInvalidArgument []
  | unknown (call : callcode < 0x83 ∨ callcode = 0x86 ∨ 0x8F < callcode) :
      Cause platform callcode manager frame eUnsupportedOperation []
  | name {status : Nat} (call : callcode ∈ [0x83, 0x84, 0x85, 0x87])
      (bad : platform.resolveName (frame.getU32 rA0) = .error status) : Cause platform callcode manager frame status []
  | buffer (call : callcode ∈ [0x89, 0x8A, 0x8B, 0x8C]) (filled : frame.getU32 rD1 ≠ 0)
      (bad : frame.getU32 rA0 = 0 ∨ 4294967296 < frame.getU32 rA0 + frame.getU32 rD1) :
      Cause platform callcode manager frame eInvalidArgument []
  | answered {m m' : Manager} {call : Manager → Frame → CallOut} {status localPath : Nat} (is : manager = some m)
      (asks : Asks platform callcode m frame (.answered status localPath, m') call) :
      Cause platform callcode manager frame status []
  | returned {calls : List CallOut} {waits : Frame} {back : Back}
      (called : Called platform callcode manager frame calls waits back) :
      Cause platform callcode manager frame back.status calls
  | count {calls : List CallOut} {waits : Frame} {back : Back} (call : callcode ∈ [0x89, 0x8A, 0x8B, 0x8C])
      (called : Called platform callcode manager frame calls waits back) (good : back.status = ok)
      (more : frame.getU32 rD1 < back.transferred.toNat) : Cause platform callcode manager frame eInvalidArgument calls

/-- The slot of a new path: free in the manager the request came to, and open with what the callback has returned. -/
structure NewPath (manager : Option Manager) (slot : Nat) (back : Back) (after : Option Manager) : Prop where
  free : ∃ m, manager = some m ∧ slot < m.capacity ∧ (m.paths slot).state = .free
  opened : ∃ m, after = some m ∧
    m.paths slot = { back.manager.paths slot with backendPath := back.backendPath, state := .opened }

/-- What a request may do to the frame, by the way it ends. -/
inductive Contract (platform : Platform) (callcode : Nat) (manager : Option Manager) (frame : Mem) (done : Served) : Prop where
  | failed (status : done.status ≠ ok) (cause : Cause platform callcode manager frame done.status done.calls)
      (carry : done.frame.getU16 rSR = frame.getU16 rSR ||| 1)
      (error : done.frame.getU16 (rD1 + 2) = statusToOs9Error done.status) (nonzero : statusToOs9Error done.status ≠ 0)
      (rest : ∀ x, ¬ InWord rSR x → ¬ InWord (rD1 + 2) x → done.frame x = frame x)
  | opened (call : callcode ∈ [0x83, 0x84]) (status : done.status = ok)
      (carry : done.frame.getU16 rSR = frame.getU16 rSR &&& 0xFFFE)
      (slot : Nat) (before : Path) (back : Back)
      (called : Called platform callcode manager frame done.calls (.opening slot before) back) (good : back.status = ok)
      (path : NewPath manager slot back done.manager) (d0 : done.frame.getU32 rD0 = (slot + 1) % 65536)
      (resolve : Nat → Nat × Text × UInt32) (resolver : platform.resolve = some resolve)
      (resolved : (resolve (frame.getU32 rA0)).1 = ok)
      (within : frame.getU32 rA0 + (resolve (frame.getU32 rA0)).2.2.toNat < 4294967296)
      (a0 : done.frame.getU32 rA0 = frame.getU32 rA0 + (resolve (frame.getU32 rA0)).2.2.toNat)
      (rest : ∀ x, ¬ InWord rSR x → ¬ InLong rD0 x → ¬ InLong rA0 x → done.frame x = frame x)
  | transferred (call : callcode ∈ [0x89, 0x8A, 0x8B, 0x8C]) (status : done.status = ok)
      (carry : done.frame.getU16 rSR = frame.getU16 rSR &&& 0xFFFE) (waits : Frame) (back : Back)
      (called : Called platform callcode manager frame done.calls waits back) (good : back.status = ok)
      (count : done.frame.getU32 rD1 = back.transferred.toNat) (le : back.transferred.toNat ≤ frame.getU32 rD1)
      (rest : ∀ x, ¬ InWord rSR x → ¬ InLong rD1 x → done.frame x = frame x)
  | plain (call : callcode ∈ [0x85, 0x87, 0x88, 0x8D, 0x8E, 0x8F]) (status : done.status = ok)
      (carry : done.frame.getU16 rSR = frame.getU16 rSR &&& 0xFFFE) (waits : Frame) (back : Back)
      (called : Called platform callcode manager frame done.calls waits back) (good : back.status = ok)
      (rest : ∀ x, ¬ InWord rSR x → done.frame x = frame x)

/-! ### Requests before the carry bit is set -/

/-- The frame a request leaves, with the outputs but without the carry bit. -/
inductive Outputs (platform : Platform) (callcode : Nat) (manager : Option Manager) (frame : Mem) (served : Served) : Prop where
  | failed (status : served.status ≠ ok) (cause : Cause platform callcode manager frame served.status served.calls)
      (same : served.frame = frame)
  | opened (call : callcode ∈ [0x83, 0x84]) (status : served.status = ok) (slot : Nat) (before : Path) (back : Back)
      (called : Called platform callcode manager frame served.calls (.opening slot before) back) (good : back.status = ok)
      (path : NewPath manager slot back served.manager)
      (resolve : Nat → Nat × Text × UInt32) (resolver : platform.resolve = some resolve)
      (resolved : (resolve (frame.getU32 rA0)).1 = ok)
      (within : frame.getU32 rA0 + (resolve (frame.getU32 rA0)).2.2.toNat < 4294967296)
      (is : served.frame = (frame.setU32 rD0 ((slot + 1) % 65536)).setU32 rA0
        (frame.getU32 rA0 + (resolve (frame.getU32 rA0)).2.2.toNat))
  | transferred (call : callcode ∈ [0x89, 0x8A, 0x8B, 0x8C]) (status : served.status = ok) (waits : Frame) (back : Back)
      (called : Called platform callcode manager frame served.calls waits back) (good : back.status = ok)
      (le : back.transferred.toNat ≤ frame.getU32 rD1) (is : served.frame = frame.setU32 rD1 back.transferred.toNat)
  | plain (call : callcode ∈ [0x85, 0x87, 0x88, 0x8D, 0x8E, 0x8F]) (status : served.status = ok) (waits : Frame) (back : Back)
      (called : Called platform callcode manager frame served.calls waits back) (good : back.status = ok)
      (same : served.frame = frame)

/-! ### Answers of the manager -/

/-- An answer without a callback is a failure. -/
def Outcome.Fails : Outcome → Prop
  | .answered status _ => status ≠ ok
  | .waiting _ => True

/-- Opening takes a free slot, and answers at once only where it fails. -/
theorem openResolved_cases (m : Manager) (path : Text) (mode : Nat) (create : Bool) :
    (∃ status localPath m', status ≠ ok ∧ m.openResolved path mode create true = (.answered status localPath, m')) ∨
    ∃ slot m', slot < m.capacity ∧ (m.paths slot).state = .free ∧
      m.openResolved path mode create true = (.waiting (.opening slot (m.paths slot)), m') := by
  unfold Manager.openResolved
  split
  · exact .inl ⟨_, _, _, by decide, rfl⟩
  split
  · exact .inl ⟨_, _, _, by decide, rfl⟩
  dsimp only
  split
  · exact .inl ⟨_, _, _, by decide, rfl⟩
  unfold Manager.openBackend
  split
  · exact .inl ⟨_, _, _, by decide, rfl⟩
  split
  · exact .inl ⟨_, _, _, by decide, rfl⟩
  split
  · exact .inl ⟨_, _, _, by decide, rfl⟩
  · rename_i slot found
    have free := List.find?_some found
    exact .inr ⟨slot, _, List.mem_range.mp (List.mem_of_find?_eq_some found), of_decide_eq_true free, rfl⟩

theorem fails_ite {p : Prop} [Decidable p] {a b : Outcome × Manager} (yes : a.1.Fails) (no : b.1.Fails) :
    (if p then a else b).1.Fails := by
  split
  · exact yes
  · exact no

theorem fails_code (m : Manager) {status : Nat} (failed : status ≠ ok) : (Outcome.answered status 0, m).1.Fails := failed

theorem operate_fails (m : Manager) (localPath operation : Nat) (result : Bool) :
    (m.operate localPath operation result).1.Fails := by
  unfold Manager.operate
  refine fails_ite (fails_code m (by decide)) (fails_ite (fails_code m (by decide)) ?_)
  cases m.findPath localPath with
  | none => exact fails_code m (by decide)
  | some slot =>
    refine fails_ite (fails_code m (by decide)) (fails_ite (fails_code m (by decide)) ?_)
    exact fails_ite (fails_code m (by decide)) (fails_ite (fails_code m (by decide)) trivial)

theorem nameOperation_fails (m : Manager) (path : Text) (operation : Nat) (result : Bool) :
    (m.nameOperation path operation result).1.Fails := by
  unfold Manager.nameOperation
  refine fails_ite (fails_code m (by decide)) (fails_ite (fails_code m (by decide)) ?_)
  cases m.findBackend path with
  | none => exact fails_code m (by decide)
  | some entry => exact fails_ite (fails_code m (by decide)) trivial

theorem close_fails (m : Manager) (localPath : Nat) : (m.close localPath).1.Fails := by
  unfold Manager.close
  cases m.findPath localPath with
  | none => exact fails_code m (by decide)
  | some slot => exact fails_ite (fails_code m (by decide)) (fails_ite (fails_code m (by decide)) trivial)

theorem Ended.served_ok {ended : Ended} (good : ended.status = ok) (frame outputs : Mem) :
    (ended.served frame outputs).frame = outputs :=
  if_pos good

/-- The new path after a callback that succeeded. -/
theorem opened_ok (m : Manager) (slot backendPath : Nat) {status : Nat} (good : status = ok) :
    m.opened slot status backendPath =
      (ok, (slot + 1) % 65536, m.setPath slot { m.paths slot with backendPath := backendPath, state := .opened }) :=
  if_neg (not_not.mpr good)

theorem complete_opened {platform : Platform} {call : Manager → Frame → CallOut} {m : Manager} {slot : Nat} {before : Path}
    {back : Back} (is : platform.back m (call m (.opening slot before)) = back) (good : back.status = ok) :
    platform.complete call (.waiting (.opening slot before), m) =
      ⟨ok, (slot + 1) % 65536, back.transferred, back.manager.setPath slot
        { back.manager.paths slot with backendPath := back.backendPath, state := .opened },
        [call m (.opening slot before)]⟩ := by
  have resumed : back.manager.resume back.status back.backendPath (.opening slot before) = _ := opened_ok _ _ _ good
  unfold Platform.complete
  dsimp only
  rw [is, resumed]

/-- A call ends with the status its callback has returned. -/
theorem resume_status (m : Manager) (status backendPath : Nat) (frame : Frame) :
    (m.resume status backendPath frame).1 = status := by
  cases frame with
  | opening slot before =>
    show (m.opened slot status backendPath).1 = status
    unfold Manager.opened
    split
    · rfl
    · rename_i good
      exact (not_not.mp good).symm
  | operating slot => rfl
  | closing slot before => rfl
  | naming => rfl

section

variable {platform : Platform} {m : Manager} {frame : Mem} {callcode : Nat} {started : Outcome × Manager}
  {call : Manager → Frame → CallOut}

theorem Asks.fails (asks : Asks platform callcode m frame started call) : started.1.Fails := by
  cases asks with
  | @enter name bytes _ _ =>
    rcases openResolved_cases m (some name) (frame.getU32 rD0 % 256) (callcode = 0x83) with
      ⟨status, localPath, m', failed, is⟩ | ⟨slot, m', _, _, is⟩
    · rw [is]
      exact failed
    · rw [is]
      trivial
  | name => exact nameOperation_fails ..
  | transfer => exact operate_fails ..
  | seek => exact operate_fails ..
  | status => exact operate_fails ..
  | close => exact close_fails ..

/-- A request that the manager is asked for fails for a cause, or its callback has succeeded. -/
theorem Asks.ended (asks : Asks platform callcode m frame started call) :
    ((platform.complete call started).status ≠ ok ∧
      Cause platform callcode (some m) frame (platform.complete call started).status (platform.complete call started).calls) ∨
    ∃ waits m', started = (.waiting waits, m') ∧ (platform.complete call started).status = ok ∧
      Called platform callcode (some m) frame (platform.complete call started).calls waits (platform.back m' (call m' waits)) ∧
      (platform.back m' (call m' waits)).status = ok := by
  have fails := asks.fails
  obtain ⟨outcome, m'⟩ := started
  cases outcome with
  | answered status localPath => exact .inl ⟨fails, .answered rfl asks⟩
  | waiting waits =>
    have called : Called platform callcode (some m) frame [call m' waits] waits (platform.back m' (call m' waits)) :=
      ⟨m, m', call, rfl, asks, rfl, rfl⟩
    have status : (platform.complete call (.waiting waits, m')).status = (platform.back m' (call m' waits)).status :=
      resume_status _ _ _ _
    rw [status]
    by_cases good : (platform.back m' (call m' waits)).status = ok
    · exact .inr ⟨waits, m', rfl, good, called, good⟩
    · exact .inl ⟨good, .returned called⟩

/-- A request without outputs. -/
theorem Asks.served_plain (asks : Asks platform callcode m frame started call)
    (which : callcode ∈ [0x85, 0x87, 0x88, 0x8D, 0x8E, 0x8F]) :
    Outputs platform callcode (some m) frame ((platform.complete call started).served frame frame) := by
  rcases asks.ended with ⟨bad, cause⟩ | ⟨waits, m', -, status, called, good⟩
  · exact .failed bad cause (ite_self _)
  · exact .plain which status waits _ called good (ite_self _)

/-! ### Requests by their call codes -/

theorem resolveName_ok {buffer bytes : Nat} {name : List Nat} (resolved : platform.resolveName buffer = .ok (name, bytes)) :
    ∃ resolve, platform.resolve = some resolve ∧ (resolve buffer).1 = ok ∧ bytes = (resolve buffer).2.2.toNat ∧
      buffer + bytes < 4294967296 := by
  unfold Platform.resolveName at resolved
  cases resolver : platform.resolve with
  | none => rw [resolver] at resolved; cases resolved
  | some resolve =>
    rw [resolver] at resolved
    dsimp only at resolved
    cases answer : resolve buffer with
    | mk status rest =>
      obtain ⟨text, bytes'⟩ := rest
      rw [answer] at resolved
      dsimp only at resolved
      split at resolved
      · cases resolved
      · rename_i good
        cases text with
        | none => cases resolved
        | some text =>
          dsimp only at resolved
          split at resolved
          · cases resolved
          · rename_i fits
            cases resolved
            have below := bytes'.toNat_lt
            refine ⟨resolve, rfl, ?_, ?_, ?_⟩
            · rw [answer]; exact not_not.mp good
            · rw [answer]
            · rw [not_or] at fits
              have inside := fits.2
              omega

theorem resolveName_error {buffer status : Nat} (failed : platform.resolveName buffer = .error status) : status ≠ ok := by
  unfold Platform.resolveName at failed
  split at failed
  · cases failed
    decide
  · split at failed
    split at failed
    · rename_i bad
      cases failed
      exact bad
    · split at failed
      · cases failed
        decide
      · split at failed
        · cases failed
          decide
        · cases failed

theorem serveOpen_outputs {create : Bool} (which : callcode ∈ [0x83, 0x84]) (creates : create = decide (callcode = 0x83))
    {request : KernelRequest} (buffer : request.buffer = frame.getU32 rA0) (mode : request.mode = frame.getU32 rD0 % 256) :
    Outputs platform callcode (some m) frame (platform.serveOpen m frame request create) := by
  have named : callcode ∈ [0x83, 0x84, 0x85, 0x87] := by
    simp only [List.mem_cons, List.not_mem_nil, or_false] at which ⊢
    omega
  unfold Platform.serveOpen
  rw [buffer, mode, creates]
  cases resolved : platform.resolveName (frame.getU32 rA0) with
  | error status => exact .failed (resolveName_error resolved) (.name named resolved) rfl
  | ok found =>
    obtain ⟨name, bytes⟩ := found
    dsimp only
    have asks : Asks platform callcode m frame _ _ := .enter which resolved
    have cases := openResolved_cases m (some name) (frame.getU32 rD0 % 256) (callcode = 0x83)
    rcases asks.ended with ⟨bad, cause⟩ | ⟨waits, m', is, status, called, good⟩
    · exact .failed bad cause (if_neg bad)
    · rw [is] at cases
      obtain ⟨slot, m'', inside, free, same⟩ := cases.resolve_left (fun ⟨_, _, _, _, no⟩ => by cases no)
      cases same
      obtain ⟨resolve, resolver, fine, rfl, within⟩ := resolveName_ok resolved
      rw [is] at called ⊢
      rw [complete_opened rfl good] at called ⊢
      refine .opened which rfl slot _ _ called good ⟨⟨m, rfl, inside, free⟩, _, rfl, if_pos rfl⟩ resolve resolver fine within ?_
      exact Ended.served_ok rfl _ _

theorem serveName_outputs {request : KernelRequest} {operation : Nat}
    (which : (callcode, operation) ∈ [(0x85, opMakeDir), (0x87, opDelete)]) (buffer : request.buffer = frame.getU32 rA0) :
    Outputs platform callcode (some m) frame (platform.serveName m frame request operation) := by
  have codes : callcode = 0x85 ∨ callcode = 0x87 := by
    simp only [List.mem_cons, List.not_mem_nil, or_false, Prod.mk.injEq] at which
    omega
  unfold Platform.serveName
  rw [buffer]
  cases resolved : platform.resolveName (frame.getU32 rA0) with
  | error status =>
    refine .failed (resolveName_error resolved) (.name ?_ resolved) rfl
    rcases codes with rfl | rfl <;> simp
  | ok named =>
    have asks : Asks platform callcode m frame _ _ := .name which resolved
    refine asks.served_plain ?_
    rcases codes with rfl | rfl <;> simp

theorem serveTransfer_outputs {request : KernelRequest} {operation : Nat}
    (which : (callcode, operation) ∈ [(0x89, opRead), (0x8A, opWrite), (0x8B, opReadLine), (0x8C, opWriteLine)])
    (path : request.path = frame.getU16 (rD0 + 2)) (length : request.length = frame.getU32 rD1)
    (buffer : request.buffer = frame.getU32 rA0) :
    Outputs platform callcode (some m) frame (platform.serveTransfer m frame request operation) := by
  have invalid : eInvalidArgument ≠ ok := by decide
  have codes : callcode ∈ [0x89, 0x8A, 0x8B, 0x8C] := by
    simp only [List.mem_cons, List.not_mem_nil, or_false, Prod.mk.injEq] at which ⊢
    omega
  unfold Platform.serveTransfer
  rw [path, length, buffer]
  split
  · rename_i outside
    obtain ⟨filled, bad⟩ := outside
    exact .failed invalid (.buffer codes filled (by omega)) rfl
  · have asks : Asks platform callcode m frame _ _ := .transfer which
    dsimp only
    rcases asks.ended with ⟨bad, cause⟩ | ⟨waits, m', is, status, called, good⟩
    · rw [if_neg (fun both => bad both.1)]
      exact .failed bad cause (if_neg bad)
    · have count : (platform.complete (operateCall operation (frame.getU32 rA0) 0 (frame.getU32 rD1))
          (m.operate (frame.getU16 (rD0 + 2)) operation true)).transferred = (platform.back m'
            (operateCall operation (frame.getU32 rA0) 0 (frame.getU32 rD1) m' waits)).transferred := by
        rw [is]
        rfl
      split
      · rename_i more
        exact .failed invalid (.count codes called good (count ▸ more.2)) rfl
      · rename_i fits
        rw [count] at fits
        refine .transferred codes status waits _ called good (Nat.le_of_not_lt fun more => fits ⟨status, more⟩) ?_
        rw [← count]
        exact if_pos status

/-- Every request: nothing but its outputs is in the frame, and these only if it succeeded. -/
theorem serve_outputs {request : KernelRequest} (decoded : decodeKernelRequest callcode frame = some request) :
    Outputs platform callcode (some m) frame (platform.serve m frame request) := by
  have unsupported : eUnsupportedOperation ≠ ok := by decide
  unfold decodeKernelRequest at decoded
  by_cases create : callcode = 0x83
  · rw [if_pos create] at decoded
    cases decoded
    exact serveOpen_outputs (by simp [create]) (by simp [create]) rfl rfl
  rw [if_neg create] at decoded
  by_cases opens : callcode = 0x84
  · rw [if_pos opens] at decoded
    cases decoded
    exact serveOpen_outputs (by simp [opens]) (by simp [opens]) rfl rfl
  rw [if_neg opens] at decoded
  by_cases makDir : callcode = 0x85
  · rw [if_pos makDir] at decoded
    cases decoded
    exact serveName_outputs (by simp [makDir]) rfl
  rw [if_neg makDir] at decoded
  by_cases chgDir : callcode = 0x86
  · rw [if_pos chgDir] at decoded
    cases decoded
    exact .failed unsupported (.unknown (.inr (.inl chgDir))) rfl
  rw [if_neg chgDir] at decoded
  by_cases delete : callcode = 0x87
  · rw [if_pos delete] at decoded
    cases decoded
    exact serveName_outputs (by simp [delete]) rfl
  rw [if_neg delete] at decoded
  by_cases seek : callcode = 0x88
  · rw [if_pos seek] at decoded
    cases decoded
    exact (Asks.seek seek).served_plain (by simp [seek])
  rw [if_neg seek] at decoded
  by_cases read : callcode = 0x89
  · rw [if_pos read] at decoded
    cases decoded
    exact serveTransfer_outputs (by simp [read]) rfl rfl rfl
  rw [if_neg read] at decoded
  by_cases write : callcode = 0x8A
  · rw [if_pos write] at decoded
    cases decoded
    exact serveTransfer_outputs (by simp [write]) rfl rfl rfl
  rw [if_neg write] at decoded
  by_cases readLine : callcode = 0x8B
  · rw [if_pos readLine] at decoded
    cases decoded
    exact serveTransfer_outputs (by simp [readLine]) rfl rfl rfl
  rw [if_neg readLine] at decoded
  by_cases writeLine : callcode = 0x8C
  · rw [if_pos writeLine] at decoded
    cases decoded
    exact serveTransfer_outputs (by simp [writeLine]) rfl rfl rfl
  rw [if_neg writeLine] at decoded
  by_cases getStatus : callcode = 0x8D
  · rw [if_pos getStatus] at decoded
    cases decoded
    exact (@Asks.status platform callcode m frame opGetStatus (by simp [getStatus])).served_plain (by simp [getStatus])
  rw [if_neg getStatus] at decoded
  by_cases setStatus : callcode = 0x8E
  · rw [if_pos setStatus] at decoded
    cases decoded
    exact (@Asks.status platform callcode m frame opSetStatus (by simp [setStatus])).served_plain (by simp [setStatus])
  rw [if_neg setStatus] at decoded
  by_cases close : callcode = 0x8F
  · rw [if_pos close] at decoded
    cases decoded
    exact (Asks.close close).served_plain (by simp [close])
  rw [if_neg close] at decoded
  cases decoded

/-- A call code without a request is none of those of the I/O calls. -/
theorem decodeKernelRequest_none (unknown : decodeKernelRequest callcode frame = none) :
    callcode < 0x83 ∨ callcode = 0x86 ∨ 0x8F < callcode := by
  by_contra known
  have codes : callcode = 0x83 ∨ callcode = 0x84 ∨ callcode = 0x85 ∨ callcode = 0x87 ∨ callcode = 0x88 ∨ callcode = 0x89 ∨
      callcode = 0x8A ∨ callcode = 0x8B ∨ callcode = 0x8C ∨ callcode = 0x8D ∨ callcode = 0x8E ∨ callcode = 0x8F := by omega
  rcases codes with rfl | rfl | rfl | rfl | rfl | rfl | rfl | rfl | rfl | rfl | rfl | rfl
  all_goals simp [decodeKernelRequest] at unknown

end

/-! ### The frame at the end -/

theorem statusToOs9Error_pos {status : Nat} (failed : status ≠ ok) :
    statusToOs9Error status ≠ 0 ∧ statusToOs9Error status < 65536 := by
  unfold statusToOs9Error
  rw [if_neg failed]
  split_ifs <;> decide

theorem setCarry_sr (frame : Mem) (set : Bool) :
    (setCarry frame set).getU16 rSR = if set then frame.getU16 rSR ||| 1 else frame.getU16 rSR &&& 0xFFFE := by
  unfold setCarry
  rw [Mem.getU16_setU16]
  have word := frame.getU16_lt rSR
  have set_word : frame.getU16 rSR ||| 1 < 65536 := Nat.or_lt_two_pow (n := 16) word (by decide)
  have clear_word : frame.getU16 rSR &&& 0xFFFE < 65536 := Nat.lt_of_le_of_lt Nat.and_le_left word
  cases set with
  | true => exact Nat.mod_eq_of_lt set_word
  | false => exact Nat.mod_eq_of_lt clear_word

theorem setCarry_outside (frame : Mem) (set : Bool) {x : Nat} (outside : ¬ InWord rSR x) : setCarry frame set x = frame x := by
  refine Mem.setU16_outside _ _ ?_
  unfold InWord at outside
  omega

/-- The contract of the frame, from the outputs of the request. -/
theorem Outputs.contract {platform : Platform} {callcode : Nat} {manager : Option Manager} {frame : Mem} {served : Served}
    (outputs : Outputs platform callcode manager frame served) : Contract platform callcode manager frame served.finish := by
  unfold Served.finish
  cases outputs with
  | failed status cause same =>
    obtain ⟨nonzero, word⟩ := statusToOs9Error_pos status
    rw [if_neg status, same]
    refine .failed status cause ?_ ?_ nonzero fun x off_sr off_d1 => ?_
    · show (setCarry _ true).getU16 rSR = _
      rw [setCarry_sr, if_pos rfl, Mem.getU16_setU16_apart _ _ (by decide)]
    · show (setCarry _ true).getU16 (rD1 + 2) = _
      have kept : (setCarry (frame.setU16 (rD1 + 2) (statusToOs9Error served.status)) true).getU16 (rD1 + 2) =
          (frame.setU16 (rD1 + 2) (statusToOs9Error served.status)).getU16 (rD1 + 2) := Mem.getU16_setU16_apart _ _ (by decide)
      rw [kept, Mem.getU16_setU16, Nat.mod_eq_of_lt word]
    · show setCarry _ true x = frame x
      rw [setCarry_outside _ _ off_sr]
      refine Mem.setU16_outside _ _ ?_
      unfold InWord at off_d1
      omega
  | opened call status slot before back called good path resolve resolver resolved within is =>
    rw [if_pos status, is]
    refine .opened call status ?_ slot before back called good path ?_ resolve resolver resolved within ?_
      fun x off_sr off_d0 off_a0 => ?_
    · show (setCarry _ false).getU16 rSR = _
      rw [setCarry_sr, if_neg (by decide), Mem.getU16_setU32_apart _ _ (by decide), Mem.getU16_setU32_apart _ _ (by decide)]
    · have kept (frame : Mem) : (setCarry frame false).getU32 rD0 = frame.getU32 rD0 := Mem.getU32_setU16_apart _ _ (by decide)
      show (setCarry _ false).getU32 rD0 = _
      rw [kept, Mem.getU32_setU32_apart _ _ (by decide), Mem.getU32_setU32]
      omega
    · have kept (frame : Mem) : (setCarry frame false).getU32 rA0 = frame.getU32 rA0 := Mem.getU32_setU16_apart _ _ (by decide)
      show (setCarry _ false).getU32 rA0 = _
      rw [kept, Mem.getU32_setU32, Nat.mod_eq_of_lt within]
    · show setCarry _ false x = frame x
      unfold InLong at off_d0 off_a0
      rw [setCarry_outside _ _ off_sr, Mem.setU32_outside _ _ (by omega), Mem.setU32_outside _ _ (by omega)]
  | transferred call status waits back called good le is =>
    have word := frame.getU32_lt rD1
    rw [if_pos status, is]
    refine .transferred call status ?_ waits back called good ?_ le fun x off_sr off_d1 => ?_
    · show (setCarry _ false).getU16 rSR = _
      rw [setCarry_sr, if_neg (by decide), Mem.getU16_setU32_apart _ _ (by decide)]
    · have kept (frame : Mem) : (setCarry frame false).getU32 rD1 = frame.getU32 rD1 := Mem.getU32_setU16_apart _ _ (by decide)
      show (setCarry _ false).getU32 rD1 = _
      rw [kept, Mem.getU32_setU32_of_lt _ _ (by omega)]
    · show setCarry _ false x = frame x
      unfold InLong at off_d1
      rw [setCarry_outside _ _ off_sr, Mem.setU32_outside _ _ (by omega)]
  | plain call status waits back called good same =>
    rw [if_pos status, same]
    refine .plain call status ?_ waits back called good fun x off_sr => setCarry_outside _ _ off_sr
    exact (setCarry_sr frame false).trans (if_neg (by decide))

/-! ### The buffers of reads and writes -/

theorem complete_sane {platform : Platform} {call : Manager → Frame → CallOut} (sane : ∀ m frame, (call m frame).Sane)
    (started : Outcome × Manager) : ∀ out ∈ (platform.complete call started).calls, out.Sane := by
  obtain ⟨outcome, m⟩ := started
  cases outcome with
  | answered status localPath => exact fun out member => absurd member List.not_mem_nil
  | waiting frame => exact fun out member => List.mem_singleton.mp member ▸ sane m frame

theorem operateCall_sane {operation address argument length : Nat}
    (fits : operation ∈ [opRead, opWrite, opReadLine, opWriteLine] → length ≠ 0 → address ≠ 0 ∧ address + length ≤ 4294967296)
    (m : Manager) (frame : Frame) : (operateCall operation address argument length m frame).Sane := by
  cases frame with
  | operating slot => exact fits
  | _ => trivial

/-- Nothing that waits for another callback looks like a read or a write. -/
theorem serve_sane (platform : Platform) (m : Manager) (frame : Mem) (request : KernelRequest) :
    ∀ out ∈ (platform.serve m frame request).calls, out.Sane := by
  have idle : ∀ out ∈ ([] : List CallOut), out.Sane := fun out member => absurd member List.not_mem_nil
  have opening (create : Bool) : ∀ out ∈ (platform.serveOpen m frame request create).calls, out.Sane := by
    unfold Platform.serveOpen
    split
    · exact idle
    · refine complete_sane (fun m frame => ?_) _
      cases frame <;> trivial
  have naming (operation : Nat) : ∀ out ∈ (platform.serveName m frame request operation).calls, out.Sane := by
    unfold Platform.serveName
    split
    · exact idle
    · exact complete_sane (fun m frame => show CallOut.Sane (.name _ _) from trivial) _
  have transfer (operation : Nat) : ∀ out ∈ (platform.serveTransfer m frame request operation).calls, out.Sane := by
    unfold Platform.serveTransfer
    split
    · exact idle
    · rename_i fits
      have sane : ∀ out ∈ (platform.complete (operateCall operation request.buffer 0 request.length)
          (m.operate request.path operation true)).calls, out.Sane :=
        complete_sane (operateCall_sane fun _ filled => by omega) _
      dsimp only
      split <;> exact sane
  have operating (path arg0 arg1 : Nat) {operation : Nat} (other : operation ∉ [opRead, opWrite, opReadLine, opWriteLine]) :
      ∀ out ∈ (platform.serveOperate m frame path operation arg0 arg1).calls, out.Sane :=
    complete_sane (operateCall_sane fun member => absurd member other) _
  unfold Platform.serve
  cases request.type with
  | create => exact opening true
  | «open» => exact opening false
  | makDir => exact naming opMakeDir
  | delete => exact naming opDelete
  | read => exact transfer opRead
  | write => exact transfer opWrite
  | readLine => exact transfer opReadLine
  | writeLine => exact transfer opWriteLine
  | seek => exact operating _ _ _ (by decide)
  | getStatus => exact operating _ _ _ (by decide)
  | setStatus => exact operating _ _ _ (by decide)
  | close =>
    refine complete_sane (fun m frame => ?_) _
    cases frame <;> trivial
  | chgDir => exact idle

/-- Whatever the call code, the registers, the manager and the platform: the frame changes as the contract says, and
no read or write gets a buffer that wraps around or starts at 0. -/
theorem dispatch_contract (platform : Platform) (callcode : Nat) (manager : Option Manager) (frame : Mem) :
    Contract platform callcode manager frame (platform.dispatchKernelRequest callcode manager frame) ∧
      ∀ out ∈ (platform.dispatchKernelRequest callcode manager frame).calls, out.Sane := by
  have invalid : eInvalidArgument ≠ ok := by decide
  have unsupported : eUnsupportedOperation ≠ ok := by decide
  have idle : ∀ out ∈ ([] : List CallOut), out.Sane := fun out member => absurd member List.not_mem_nil
  have settle (served : Served) (outputs : Outputs platform callcode manager frame served)
      (sane : ∀ out ∈ served.calls, out.Sane) :
      Contract platform callcode manager frame served.finish ∧ ∀ out ∈ served.finish.calls, out.Sane := by
    refine ⟨outputs.contract, ?_⟩
    unfold Served.finish
    split <;> exact sane
  unfold Platform.dispatchKernelRequest
  cases manager with
  | none => exact settle _ (.failed invalid (.managerless rfl) rfl) idle
  | some m =>
    cases decoded : decodeKernelRequest callcode frame with
    | none => exact settle _ (.failed unsupported (.unknown (decodeKernelRequest_none decoded)) rfl) idle
    | some request => exact settle _ (serve_outputs decoded) (serve_sane platform m frame request)

/-! ### A terminal -/

/-- The backend of "/t": it opens path 7, and each transfer is of 5 bytes. -/
def terminal : Platform where
  resolve := some fun _ => (ok, some [0x2F, 0x74], 3)
  back m
    | .enter _ _ _ _ _ => ⟨ok, 7, 0, m⟩
    | .operate _ _ _ _ _ _ _ => ⟨ok, 0, 5, m⟩
    | _ => ⟨eUnsupportedOperation, 0, 0, m⟩

/-- Two paths, the first of them in use, and "/t". -/
def terminalManager : Manager :=
  ((init 2).setPath 0 ⟨.opened, 6, 3, 0, some ⟨1, true, true, true, true, false⟩, 0, some [0x2F, 0x74]⟩).setBackend 0
    ⟨some [0x2F, 0x74], some ⟨1, true, true, true, true, false⟩, 0, true⟩

/-- Path 2 in d0, which is mode 2 too, room for `length` bytes and the address 0x1000. -/
def terminalFrame (length : Nat) : Mem := ((Mem.setU32 (fun _ => 0) rD0 2).setU32 rD1 length).setU32 rA0 0x1000

/-- "/t" is opened as path 2, behind the name; 5 of 80 bytes are written to it, more than 4 can not be; and a
directory in it is an unknown service. -/
theorem dispatch_contract_terminal :
    let opened := terminal.dispatchKernelRequest 0x84 (some terminalManager) (terminalFrame 0)
    let written := terminal.dispatchKernelRequest 0x8A opened.manager (terminalFrame 80)
    let more := terminal.dispatchKernelRequest 0x8A opened.manager (terminalFrame 4)
    let made := terminal.dispatchKernelRequest 0x85 opened.manager (terminalFrame 0)
    (Contract terminal 0x84 (some terminalManager) (terminalFrame 0) opened ∧ opened.frame.getU32 rD0 = 2 ∧
      opened.frame.getU32 rA0 = 0x1003 ∧ opened.frame.getU16 rSR = 0) ∧
    (Contract terminal 0x8A opened.manager (terminalFrame 80) written ∧ written.frame.getU32 rD1 = 5 ∧
      written.frame.getU16 rSR = 0) ∧
    (Contract terminal 0x8A opened.manager (terminalFrame 4) more ∧ more.frame.getU32 rD1 = os9Param ∧
      more.frame.getU16 rSR = 1) ∧
    Contract terminal 0x85 opened.manager (terminalFrame 0) made ∧ made.frame.getU32 rD1 = os9UnkSvc ∧
      made.frame.getU16 rSR = 1 :=
  ⟨⟨(dispatch_contract _ _ _ _).1, by decide, by decide, by decide⟩,
    ⟨(dispatch_contract _ _ _ _).1, by decide, by decide⟩,
    ⟨(dispatch_contract _ _ _ _).1, by decide, by decide⟩,
    (dispatch_contract _ _ _ _).1, by decide, by decide⟩

end Ioman

end Q9OS

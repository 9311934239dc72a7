import Mathlib.Tactic
import Q9OS.Lib.LastWrite
import Q9OS.Lib.Mem
import Q9OS.Lib.Run
import Q9OS.Lib.Word

/-!
# F$SSvc

A table of pairs, a code word and the distance to a routine, ended by -1. The
kernel keeps its own services; every other entry goes into the dispatch tables.
-/

namespace Q9OS

/-! ### Tables of routines -/

def readHdrU16BE (m : Mem) (addr : Nat) : Nat := m.getU8 addr * 256 + m.getU8 (add32 addr 1)

/-- A pair of a table, with the address of its code word. -/
structure TableEntry where
  addr : Nat
  codeword : Nat
  rawOffset : Nat
  deriving DecidableEq

def TableEntry.signExtOffset (e : TableEntry) : Nat :=
  if e.rawOffset < 32768 then e.rawOffset else e.rawOffset + 0xFFFF0000

def TableEntry.routineAddr (e : TableEntry) : Nat := add32 (add32 e.addr e.signExtOffset) 4

def readEntry (m : Mem) (addr : Nat) : TableEntry := ⟨addr, readHdrU16BE m addr, readHdrU16BE m (add32 addr 2)⟩

def endMark : Nat := 0xFFFF

/-- The first `n` pairs of the table at `addr`. -/
def entriesAt (m : Mem) : Nat → Nat → List TableEntry
  | 0, _ => []
  | n + 1, addr => readEntry m addr :: entriesAt m n (add32 addr 4)

/-- Pair `n` is the first one that holds the end mark. -/
def EndsAt (m : Mem) : Nat → Nat → Prop
  | 0, addr => readHdrU16BE m addr = endMark
  | n + 1, addr => readHdrU16BE m addr ≠ endMark ∧ EndsAt m n (add32 addr 4)

instance (m : Mem) : ∀ n addr, Decidable (EndsAt m n addr)
  | 0, addr => inferInstanceAs (Decidable (readHdrU16BE m addr = endMark))
  | n + 1, addr =>
    have := instDecidableEndsAt m n (add32 addr 4)
    inferInstanceAs (Decidable (readHdrU16BE m addr ≠ endMark ∧ EndsAt m n (add32 addr 4)))

/-- A table that ends after `length` pairs. -/
structure ServiceTable where
  mem : Mem
  addr : Nat
  length : Nat
  ends : EndsAt mem length addr

def ServiceTable.entries (t : ServiceTable) : List TableEntry := entriesAt t.mem t.length t.addr

/-- No table has more pairs than there are addresses for them. -/
def tableLimit : Nat := 1073741825

/-! ### The dispatch tables -/

/-- The two tables with a data pointer a code, the marks of external handlers,
and the cells that keep the handlers of the I/O manager. -/
structure Dispatch where
  system : Nat → Nat
  systemData : Nat → Nat
  user : Nat → Nat
  userData : Nat → Nat
  ssvcExternal : Nat → Nat
  mgrTable : Nat → Nat
  iopenRoutine : Nat
  ireadRoutine : Nat
  icloseRoutine : Nat

def kernelServices : List Nat :=
  [0x00, 0x02, 0x03, 0x04, 0x06, 0x08, 0x0A, 0x0C, 0x10, 0x15, 0x21, 0x27, 0x28, 0x29, 0x2A, 0x2E, 0x30, 0x31, 0x32,
    0x37, 0x38, 0x58, 0x5A, 0x5C, 0x82, 0x84, 0x88, 0x89, 0x8A, 0x8B, 0x8C, 0x8D, 0x8E, 0x8F, 0x92]

def isKernelService (code : Nat) : Bool := kernelServices.contains code

def TableEntry.realCode (e : TableEntry) : Nat := e.codeword % 256

def TableEntry.sysTrapOnly (e : TableEntry) : Bool := e.codeword / 32768 % 2 = 1

/-- A kernel service keeps its handlers. The manager's user state routine of an
I/O call is kept beside them, the data pointer for three calls only. -/
def Dispatch.keepManager (d : Dispatch) (dataPtr : Nat) (e : TableEntry) : Dispatch :=
  let code := e.realCode
  if e.sysTrapOnly then d
  else
    let d := if 0x80 ≤ code ∧ code ≤ 0x92 then { d with mgrTable := Function.update d.mgrTable code e.routineAddr } else d
    let d := if code = 0x84 then
      { d with iopenRoutine := e.routineAddr, userData := Function.update d.userData code dataPtr } else d
    let d := if code = 0x89 then
      { d with ireadRoutine := e.routineAddr, userData := Function.update d.userData code dataPtr } else d
    if code = 0x8F then
      { d with icloseRoutine := e.routineAddr, userData := Function.update d.userData code dataPtr } else d

def Dispatch.setExternal (d : Dispatch) (dataPtr : Nat) (e : TableEntry) : Dispatch :=
  let code := e.realCode
  let d := { d with
    ssvcExternal := Function.update d.ssvcExternal code 1
    system := Function.update d.system code e.routineAddr
    systemData := Function.update d.systemData code dataPtr }
  if e.sysTrapOnly then d
  else { d with
    user := Function.update d.user code e.routineAddr
    userData := Function.update d.userData code dataPtr }

def Dispatch.register (dataPtr : Nat) (d : Dispatch) (e : TableEntry) : Dispatch :=
  if isKernelService e.realCode then d.keepManager dataPtr e else d.setExternal dataPtr e

def ssvcWalk (m : Mem) (dataPtr : Nat) : Nat → Nat → Dispatch → Option Dispatch
  | 0, _, _ => none
  | fuel + 1, entryAddr, d =>
    if readHdrU16BE m entryAddr = endMark then some d
    else ssvcWalk m dataPtr fuel (add32 entryAddr 4) (d.register dataPtr (readEntry m entryAddr))

/-- F$SSvc for the table at `tablePtr` of memory `m`; `none` when it has no end. -/
def Dispatch.procSSvc (d : Dispatch) (m : Mem) (tablePtr dataPtr : Nat) : Option Dispatch :=
  ssvcWalk m dataPtr tableLimit tablePtr d

/-! ### The walk -/

/-- The address of pair `n`. -/
def pairAddr : Nat → Nat → Nat
  | 0, addr => addr
  | n + 1, addr => pairAddr n (add32 addr 4)

theorem pairAddr_succ (n addr : Nat) : pairAddr (n + 1) addr = (addr + 4 * (n + 1)) % 4294967296 := by
  induction n generalizing addr with
  | zero => rfl
  | succ n ih =>
    rw [pairAddr, ih, add32]
    omega

theorem EndsAt.mark {m : Mem} {n addr : Nat} (ends : EndsAt m n addr) : readHdrU16BE m (pairAddr n addr) = endMark := by
  induction n generalizing addr with
  | zero => exact ends
  | succ n ih => exact ih ends.2

theorem EndsAt.before {m : Mem} {n addr j : Nat} (ends : EndsAt m n addr) (earlier : j < n) :
    readHdrU16BE m (pairAddr j addr) ≠ endMark := by
  induction n generalizing addr j with
  | zero => omega
  | succ n ih =>
    cases j with
    | zero => exact ends.1
    | succ j =>
      show readHdrU16BE m (pairAddr j (add32 addr 4)) ≠ endMark
      exact ih ends.2 (by omega)

theorem EndsAt.lt_limit {m : Mem} {n addr : Nat} (ends : EndsAt m n addr) : n < tableLimit := by
  by_contra long
  unfold tableLimit at long
  -- the addresses come round again after 2^30 pairs
  obtain ⟨k, rfl⟩ : ∃ k, n = k + 1073741824 + 1 := ⟨n - 1073741825, by omega⟩
  have around : pairAddr (k + 1073741824 + 1) addr = pairAddr (k + 1) addr := by
    rw [pairAddr_succ, pairAddr_succ]
    omega
  refine ends.before (show k + 1 < _ by omega) ?_
  rw [← around]
  exact ends.mark

theorem ssvcWalk_ends {m : Mem} {n addr fuel : Nat} (dataPtr : Nat) (d : Dispatch) (ends : EndsAt m n addr)
    (enough : n < fuel) :
    ssvcWalk m dataPtr fuel addr d = some ((entriesAt m n addr).foldl (Dispatch.register dataPtr) d) := by
  induction n generalizing addr fuel d with
  | zero =>
    obtain ⟨fuel, rfl⟩ : ∃ more, fuel = more + 1 := ⟨fuel - 1, by omega⟩
    rw [ssvcWalk, if_pos (show readHdrU16BE m addr = endMark from ends)]
    rfl
  | succ n ih =>
    obtain ⟨fuel, rfl⟩ : ∃ more, fuel = more + 1 := ⟨fuel - 1, by omega⟩
    rw [ssvcWalk, if_neg ends.1, ih _ ends.2 (by omega)]
    rfl

/-- F$SSvc takes the pairs before the end mark one after another. -/
theorem procSSvc_eq {m : Mem} {n tablePtr : Nat} (d : Dispatch) (dataPtr : Nat) (ends : EndsAt m n tablePtr) :
    d.procSSvc m tablePtr dataPtr = some ((entriesAt m n tablePtr).foldl (Dispatch.register dataPtr) d) :=
  ssvcWalk_ends dataPtr d ends ends.lt_limit

/-! ### One entry -/

variable (d : Dispatch) (dataPtr : Nat) (e : TableEntry)

theorem keepManager_dispatch : (d.keepManager dataPtr e).system = d.system ∧
    (d.keepManager dataPtr e).systemData = d.systemData ∧ (d.keepManager dataPtr e).user = d.user ∧
    (d.keepManager dataPtr e).ssvcExternal = d.ssvcExternal := by
  unfold Dispatch.keepManager
  dsimp only
  split_ifs <;> exact ⟨rfl, rfl, rfl, rfl⟩

theorem setExternal_manager : (d.setExternal dataPtr e).mgrTable = d.mgrTable ∧
    (d.setExternal dataPtr e).iopenRoutine = d.iopenRoutine ∧
    (d.setExternal dataPtr e).ireadRoutine = d.ireadRoutine ∧
    (d.setExternal dataPtr e).icloseRoutine = d.icloseRoutine := by
  unfold Dispatch.setExternal
  dsimp only
  split_ifs <;> exact ⟨rfl, rfl, rfl, rfl⟩

variable {code : Nat}

/-- The entry is for `code`. -/
def names (code : Nat) (e : TableEntry) : Bool := code = e.realCode

/-- The entry is for `code` in the user state too. -/
def namesUser (code : Nat) (e : TableEntry) : Bool := names code e && !e.sysTrapOnly

theorem names_iff : names code e = true ↔ code = e.realCode := decide_eq_true_iff

theorem namesUser_iff : namesUser code e = true ↔ code = e.realCode ∧ e.sysTrapOnly = false := by
  rw [namesUser, Bool.and_eq_true, names_iff, Bool.not_eq_true']

theorem setExternal_cells (code : Nat) :
    (d.setExternal dataPtr e).system code = (if names code e then e.routineAddr else d.system code) ∧
      (d.setExternal dataPtr e).systemData code = (if names code e then dataPtr else d.systemData code) ∧
      (d.setExternal dataPtr e).user code = (if namesUser code e then e.routineAddr else d.user code) ∧
      (d.setExternal dataPtr e).userData code = (if namesUser code e then dataPtr else d.userData code) ∧
      (d.setExternal dataPtr e).ssvcExternal code = (if names code e then 1 else d.ssvcExternal code) := by
  simp only [names_iff, namesUser_iff]
  unfold Dispatch.setExternal
  cases system : e.sysTrapOnly with
  | true => simp [Function.update_apply]
  | false => simp [Function.update_apply]

theorem keepManager_mgrTable (code : Nat) : (d.keepManager dataPtr e).mgrTable code =
    if namesUser code e ∧ 0x80 ≤ code ∧ code ≤ 0x92 then e.routineAddr else d.mgrTable code := by
  simp only [namesUser_iff]
  unfold Dispatch.keepManager
  cases system : e.sysTrapOnly with
  | true => simp
  | false =>
    simp only [Bool.false_eq_true, if_false, apply_ite Dispatch.mgrTable, ite_self, and_true]
    by_cases same : code = e.realCode
    · rw [← same, ite_apply, Function.update_self]
      simp only [true_and]
    · rw [ite_apply, Function.update_of_ne same, ite_self, if_neg (fun held => same held.1)]

theorem keepManager_shadows :
    (d.keepManager dataPtr e).iopenRoutine = (if namesUser 0x84 e then e.routineAddr else d.iopenRoutine) ∧
      (d.keepManager dataPtr e).ireadRoutine = (if namesUser 0x89 e then e.routineAddr else d.ireadRoutine) ∧
      (d.keepManager dataPtr e).icloseRoutine = (if namesUser 0x8F e then e.routineAddr else d.icloseRoutine) := by
  simp only [namesUser_iff]
  unfold Dispatch.keepManager
  cases system : e.sysTrapOnly with
  | true => simp
  | false =>
    simp only [Bool.false_eq_true, if_false, apply_ite Dispatch.iopenRoutine, apply_ite Dispatch.ireadRoutine,
      apply_ite Dispatch.icloseRoutine, ite_self, and_true, eq_comm]

theorem keepManager_userData (code : Nat) :
    (d.keepManager dataPtr e).userData code =
      if code = 0x84 ∨ code = 0x89 ∨ code = 0x8F then if namesUser code e then dataPtr else d.userData code
      else d.userData code := by
  simp only [namesUser_iff]
  unfold Dispatch.keepManager
  cases system : e.sysTrapOnly with
  | true => simp
  | false =>
    simp only [Bool.false_eq_true, if_false, apply_ite Dispatch.userData, ite_self, and_true]
    by_cases same : code = e.realCode
    · subst same
      split_ifs <;> simp_all
    · rw [if_neg same, ite_self]
      split_ifs <;> simp [Function.update_of_ne same]

/-! ### The table as a whole -/

section

/-- An entry for one kind of code does not name a code of the other kind. -/
theorem names_apart (e : TableEntry) (code : Nat) (differs : isKernelService code ≠ isKernelService e.realCode) :
    names code e = false ∧ namesUser code e = false := by
  have apart : names code e = false := decide_eq_false (fun same => differs (by rw [same]))
  exact ⟨apart, by rw [namesUser, apart, Bool.false_and]⟩

/-- A cell of a code left to others, which only F$SSvc's entries for that code write. -/
theorem free_cell {α : Type} (read : Dispatch → α) {p : TableEntry → Bool} {value : TableEntry → α}
    (free : isKernelService code = false) (own : ∀ e, names code e = false ∧ namesUser code e = false → p e = false)
    (kept : ∀ d e, read (Dispatch.keepManager d dataPtr e) = read d)
    (set : ∀ d e, read (Dispatch.setExternal d dataPtr e) = if p e then value e else read d) (es : List TableEntry) :
    read (es.foldl (Dispatch.register dataPtr) d) = lastValue p value es (read d) := by
  refine read_foldl read d es (fun d e _ => ?_)
  unfold Dispatch.register
  cases kernel : isKernelService e.realCode with
  | true =>
    rw [own e (names_apart e code (by rw [free, kernel]; exact Bool.false_ne_true)), if_pos rfl, if_neg Bool.false_ne_true]
    exact kept d e
  | false => exact set d e

/-- A cell of a kernel service, which only the manager's entries for it write. -/
theorem kernel_cell {α : Type} (read : Dispatch → α) {p : TableEntry → Bool} {value : TableEntry → α}
    (kernel : isKernelService code = true) (own : ∀ e, names code e = false ∧ namesUser code e = false → p e = false)
    (set : ∀ d e, read (Dispatch.keepManager d dataPtr e) = if p e then value e else read d)
    (kept : ∀ d e, code ≠ e.realCode → read (Dispatch.setExternal d dataPtr e) = read d) (es : List TableEntry) :
    read (es.foldl (Dispatch.register dataPtr) d) = lastValue p value es (read d) := by
  refine read_foldl read d es (fun d e _ => ?_)
  unfold Dispatch.register
  cases other : isKernelService e.realCode with
  | true => exact set d e
  | false =>
    have differs : isKernelService code ≠ isKernelService e.realCode := by
      rw [kernel, other]
      exact Bool.false_ne_true.symm
    rw [own e (names_apart e code differs), if_neg Bool.false_ne_true, if_neg Bool.false_ne_true]
    exact kept d e (fun same => differs (by rw [same]))

/-- The cells of a code that the kernel leaves to others. -/
structure Dispatch.Registered (d d' : Dispatch) (dataPtr : Nat) (es : List TableEntry) (code : Nat) : Prop where
  system : d'.system code = lastValue (names code) TableEntry.routineAddr es (d.system code)
  systemData : d'.systemData code = lastValue (names code) (fun _ => dataPtr) es (d.systemData code)
  user : d'.user code = lastValue (namesUser code) TableEntry.routineAddr es (d.user code)
  userData : d'.userData code = lastValue (namesUser code) (fun _ => dataPtr) es (d.userData code)
  external : d'.ssvcExternal code = lastValue (names code) (fun _ => 1) es (d.ssvcExternal code)
  manager : d'.mgrTable code = d.mgrTable code

theorem kernelServices_le (code : Nat) (kernel : isKernelService code = true) : code ≤ 0x92 :=
  (by decide : ∀ c ∈ kernelServices, c ≤ 0x92) code (List.contains_iff_mem.mp kernel)

/-- The cells of a code that the kernel serves itself. -/
structure Dispatch.Protected (d d' : Dispatch) (dataPtr : Nat) (es : List TableEntry) (code : Nat) : Prop where
  system : d'.system code = d.system code
  systemData : d'.systemData code = d.systemData code
  user : d'.user code = d.user code
  userData : d'.userData code =
    if code = 0x84 ∨ code = 0x89 ∨ code = 0x8F then lastValue (namesUser code) (fun _ => dataPtr) es (d.userData code)
    else d.userData code
  external : d'.ssvcExternal code = d.ssvcExternal code
  manager : 0x80 ≤ code → d'.mgrTable code = lastValue (namesUser code) TableEntry.routineAddr es (d.mgrTable code)
  iopen : code = 0x84 → d'.iopenRoutine = lastValue (namesUser code) TableEntry.routineAddr es d.iopenRoutine
  iread : code = 0x89 → d'.ireadRoutine = lastValue (namesUser code) TableEntry.routineAddr es d.ireadRoutine
  iclose : code = 0x8F → d'.icloseRoutine = lastValue (namesUser code) TableEntry.routineAddr es d.icloseRoutine

theorem foldl_registered (es : List TableEntry) (free : isKernelService code = false) :
    d.Registered (es.foldl (Dispatch.register dataPtr) d) dataPtr es code where
  system := free_cell d dataPtr (fun d => d.system code) free (fun _ apart => apart.1)
    (fun d e => congrFun (keepManager_dispatch d dataPtr e).1 code)
    (fun d e => (setExternal_cells d dataPtr e code).1) es
  systemData := free_cell d dataPtr (fun d => d.systemData code) free (fun _ apart => apart.1)
    (fun d e => congrFun (keepManager_dispatch d dataPtr e).2.1 code)
    (fun d e => (setExternal_cells d dataPtr e code).2.1) es
  user := free_cell d dataPtr (fun d => d.user code) free (fun _ apart => apart.2)
    (fun d e => congrFun (keepManager_dispatch d dataPtr e).2.2.1 code)
    (fun d e => (setExternal_cells d dataPtr e code).2.2.1) es
  userData := by
    refine free_cell d dataPtr (fun d => d.userData code) free (fun _ apart => apart.2) (fun d e => ?_)
      (fun d e => (setExternal_cells d dataPtr e code).2.2.2.1) es
    rw [keepManager_userData, if_neg]
    rintro (rfl | rfl | rfl) <;> cases free
  external := free_cell d dataPtr (fun d => d.ssvcExternal code) free (fun _ apart => apart.1)
    (fun d e => congrFun (keepManager_dispatch d dataPtr e).2.2.2 code)
    (fun d e => (setExternal_cells d dataPtr e code).2.2.2.2) es
  manager := by
    refine read_foldl_of_keeps (fun d => d.mgrTable code) d es (fun d e _ => ?_)
    unfold Dispatch.register
    cases kernel : isKernelService e.realCode with
    | true =>
      have apart := names_apart e code (by rw [free, kernel]; exact Bool.false_ne_true)
      exact (keepManager_mgrTable d dataPtr e code).trans (if_neg (fun held => by rw [apart.2] at held; cases held.1))
    | false => exact congrFun (setExternal_manager d dataPtr e).1 code

theorem setExternal_apart (d : Dispatch) (e : TableEntry) (apart : code ≠ e.realCode) :
    (d.setExternal dataPtr e).system code = d.system code ∧
      (d.setExternal dataPtr e).systemData code = d.systemData code ∧
      (d.setExternal dataPtr e).user code = d.user code ∧
      (d.setExternal dataPtr e).userData code = d.userData code ∧
      (d.setExternal dataPtr e).ssvcExternal code = d.ssvcExternal code := by
  have cells := setExternal_cells d dataPtr e code
  simp only [names_iff, namesUser_iff, apart, false_and, if_false] at cells
  exact cells

/-- A cell of a kernel service that no entry writes. -/
theorem kept_cell {α : Type} (read : Dispatch → α) (kernel : isKernelService code = true)
    (kept : ∀ d e, read (Dispatch.keepManager d dataPtr e) = read d)
    (apart : ∀ d e, code ≠ e.realCode → read (Dispatch.setExternal d dataPtr e) = read d) (es : List TableEntry) :
    read (es.foldl (Dispatch.register dataPtr) d) = read d := by
  refine read_foldl_of_keeps read d es (fun d e _ => ?_)
  unfold Dispatch.register
  cases other : isKernelService e.realCode with
  | true => exact kept d e
  | false =>
    refine apart d e (fun same => ?_)
    rw [same, other] at kernel
    exact Bool.false_ne_true kernel

theorem foldl_protected (es : List TableEntry) (kernel : isKernelService code = true) :
    d.Protected (es.foldl (Dispatch.register dataPtr) d) dataPtr es code where
  system := kept_cell d dataPtr (fun d => d.system code) kernel
    (fun d e => congrFun (keepManager_dispatch d dataPtr e).1 code) (fun d e apart => (setExternal_apart dataPtr d e apart).1) es
  systemData := kept_cell d dataPtr (fun d => d.systemData code) kernel
    (fun d e => congrFun (keepManager_dispatch d dataPtr e).2.1 code)
    (fun d e apart => (setExternal_apart dataPtr d e apart).2.1) es
  user := kept_cell d dataPtr (fun d => d.user code) kernel
    (fun d e => congrFun (keepManager_dispatch d dataPtr e).2.2.1 code)
    (fun d e apart => (setExternal_apart dataPtr d e apart).2.2.1) es
  userData := by
    by_cases retained : code = 0x84 ∨ code = 0x89 ∨ code = 0x8F
    · rw [if_pos retained]
      refine kernel_cell d dataPtr (fun d => d.userData code) kernel (fun _ apart => apart.2) (fun d e => ?_)
        (fun d e apart => (setExternal_apart dataPtr d e apart).2.2.2.1) es
      rw [keepManager_userData, if_pos retained]
    · rw [if_neg retained]
      refine kept_cell d dataPtr (fun d => d.userData code) kernel (fun d e => ?_)
        (fun d e apart => (setExternal_apart dataPtr d e apart).2.2.2.1) es
      rw [keepManager_userData, if_neg retained]
  external := kept_cell d dataPtr (fun d => d.ssvcExternal code) kernel
    (fun d e => congrFun (keepManager_dispatch d dataPtr e).2.2.2 code)
    (fun d e apart => (setExternal_apart dataPtr d e apart).2.2.2.2) es
  manager low := by
    have high := kernelServices_le code kernel
    refine kernel_cell d dataPtr (fun d => d.mgrTable code) kernel (fun _ apart => apart.2) (fun d e => ?_)
      (fun d e _ => congrFun (setExternal_manager d dataPtr e).1 code) es
    rw [keepManager_mgrTable]
    simp only [low, high, and_true]
  iopen here := by
    subst here
    exact kernel_cell d dataPtr (fun d => d.iopenRoutine) kernel (fun _ apart => apart.2)
      (fun d e => (keepManager_shadows d dataPtr e).1) (fun d e _ => (setExternal_manager d dataPtr e).2.1) es
  iread here := by
    subst here
    exact kernel_cell d dataPtr (fun d => d.ireadRoutine) kernel (fun _ apart => apart.2)
      (fun d e => (keepManager_shadows d dataPtr e).2.1) (fun d e _ => (setExternal_manager d dataPtr e).2.2.1) es
  iclose here := by
    subst here
    exact kernel_cell d dataPtr (fun d => d.icloseRoutine) kernel (fun _ apart => apart.2)
      (fun d e => (keepManager_shadows d dataPtr e).2.2) (fun d e _ => (setExternal_manager d dataPtr e).2.2.2) es

/-- F$SSvc is a left fold over its table: what the last entry for a code says
counts, in the user state the last one without the system-only bit. -/
theorem procSSvc_fold (t : ServiceTable) : ∃ d', d.procSSvc t.mem t.addr dataPtr = some d' ∧
    ∀ code, (isKernelService code = false → d.Registered d' dataPtr t.entries code) ∧
      (isKernelService code = true → d.Protected d' dataPtr t.entries code) :=
  ⟨_, procSSvc_eq d dataPtr t.ends, fun _ =>
    ⟨foldl_registered d dataPtr t.entries, foldl_protected d dataPtr t.entries⟩⟩

end

/-! ### What Q9K_CInit installs -/

/-- The linked addresses: one handler a service, the same in both tables, and
the handler of the calls that nobody serves. -/
structure Handlers where
  native : Nat → Nat
  sysUnimplemented : Nat
  placed : ∀ code, native code ≠ 0

/-- The stores into the user table in their order; F$Q9Dbg is in the kernel with `debug` only. -/
def usrdisServices (debug : Bool) : List Nat :=
  [0x00, 0x02, 0x03, 0x22, 0x24, 0x23, 0x04, 0x06, 0x0a, 0x0c, 0x0d, 0x28, 0x29, 0x32, 0x37, 0x84, 0x82, 0x8c, 0x8a,
    0x89, 0x8b, 0x8d, 0x92, 0x8e, 0x88, 0x8f, 0x86, 0x30, 0x31, 0x38, 0x21, 0x5a] ++
  (if debug then [0x7f] else []) ++
  [0x27, 0x2e, 0x5c, 0x2a, 0x10, 0x11, 0x1b, 0x1c, 0x17, 0x1d, 0x18, 0x1a, 0x26, 0x20, 0x54, 0x1f, 0x2c, 0x4b, 0x4c,
    0x55, 0x2f, 0x57, 0x09, 0x60, 0x25, 0x56, 0x15, 0x16, 0x12, 0x13, 0x14, 0x19, 0x62, 0x05, 0x1e, 0x63, 0x0e, 0x53,
    0x5e, 0x2d, 0x58, 0x52, 0x4e, 0x07, 0x3a, 0x3b, 0x40, 0x5b, 0x08]

/-- The system table has F$FIRQ and F$AllTsk besides. -/
def sysdisServices (debug : Bool) : List Nat :=
  [0x00, 0x02, 0x03, 0x22, 0x24, 0x23, 0x04, 0x06, 0x0a, 0x0c, 0x0d, 0x28, 0x29, 0x32, 0x37, 0x84, 0x82, 0x8c, 0x8a,
    0x89, 0x8b, 0x8d, 0x92, 0x8e, 0x88, 0x8f, 0x86, 0x30, 0x31, 0x38, 0x21, 0x5a] ++
  (if debug then [0x7f] else []) ++
  [0x27, 0x2e, 0x5c, 0x2a, 0x61, 0x10, 0x11, 0x1b, 0x1c, 0x17, 0x1d, 0x18, 0x1a, 0x26, 0x20, 0x54, 0x1f, 0x2c, 0x4b,
    0x4c, 0x55, 0x2f, 0x57, 0x09, 0x60, 0x25, 0x56, 0x15, 0x16, 0x12, 0x13, 0x14, 0x19, 0x62, 0x05, 0x1e, 0x63, 0x0e,
    0x53, 0x5e, 0x2d, 0x58, 0x52, 0x4e, 0x07, 0x3a, 0x3b, 0x3f, 0x40, 0x5b, 0x08]

/-- Stores of handlers into a table that Q9K_SetupTables has cleared. -/
def Handlers.install (h : Handlers) (services : List Nat) : Nat → Nat :=
  services.foldl (fun table code => Function.update table code (h.native code)) (fun _ => 0)

def Handlers.fill (h : Handlers) (table : Nat → Nat) : Nat → Nat :=
  fun slot => if slot < 256 ∧ table slot = 0 then h.sysUnimplemented else table slot

/-- The tables as Q9K_CInit leaves them. -/
def Handlers.cinit (h : Handlers) (debug : Bool) (d : Dispatch) : Dispatch :=
  { d with
    system := h.fill (h.install (sysdisServices debug))
    systemData := fun _ => 0
    user := h.fill (h.install (usrdisServices debug))
    userData := fun _ => 0 }

theorem Handlers.install_member (h : Handlers) {services : List Nat} {code : Nat} (member : code ∈ services) :
    h.install services code = h.native code := by
  have last : h.install services code = lastValue (fun c => decide (c = code)) h.native services 0 := by
    refine read_foldl (fun table : Nat → Nat => table code) _ services (fun table c _ => ?_)
    by_cases same : c = code
    · subst same
      rw [Function.update_self, decide_eq_true rfl, if_pos rfl]
    · rw [Function.update_of_ne (Ne.symm same), decide_eq_false same]
      rfl
  rw [last, lastValue]
  cases found : lastWith (fun c => decide (c = code)) services with
  | none => exact absurd found (lastWith_ne_none member (decide_eq_true rfl))
  | some c =>
    obtain ⟨-, here⟩ := lastWith_some found
    rw [of_decide_eq_true here]
    rfl

theorem Handlers.cinit_native (h : Handlers) (debug : Bool) (d : Dispatch) {code : Nat} :
    (code ∈ usrdisServices debug → (h.cinit debug d).user code = h.native code) ∧
      (code ∈ sysdisServices debug → (h.cinit debug d).system code = h.native code) := by
  refine ⟨fun member => ?_, fun member => ?_⟩
  · show h.fill _ code = _
    rw [Handlers.fill, h.install_member member, if_neg (fun empty => h.placed code empty.2)]
  · show h.fill _ code = _
    rw [Handlers.fill, h.install_member member, if_neg (fun empty => h.placed code empty.2)]

/-- A call of F$SSvc. -/
structure SSvcCall where
  table : ServiceTable
  dataPtr : Nat

def SSvcCall.step (d : Dispatch) (c : SSvcCall) : Option Dispatch := d.procSSvc c.table.mem c.table.addr c.dataPtr

/-- No call registers a handler for `code`, in the user state when `p` is `namesUser`. -/
def Untouched (p : Nat → TableEntry → Bool) (calls : List SSvcCall) (code : Nat) : Prop :=
  ∀ c ∈ calls, ∀ e ∈ c.table.entries, p code e = false

theorem step_keeps {d d' : Dispatch} {c : SSvcCall} (code : Nat) (called : SSvcCall.step d c = some d') :
    (isKernelService code = true ∨ Untouched namesUser [c] code → d'.user code = d.user code) ∧
      (isKernelService code = true ∨ Untouched names [c] code → d'.system code = d.system code) := by
  obtain ⟨after, ran, cells⟩ := procSSvc_fold d c.dataPtr c.table
  obtain rfl : after = d' := Option.some.inj (ran.symm.trans called)
  obtain ⟨registered, guarded⟩ := cells code
  cases kernel : isKernelService code with
  | true => exact ⟨fun _ => (guarded kernel).user, fun _ => (guarded kernel).system⟩
  | false =>
    refine ⟨fun apart => ?_, fun apart => ?_⟩
    · rw [(registered kernel).user]
      exact lastValue_absent ((apart.resolve_left Bool.false_ne_true) c (List.mem_singleton_self c))
    · rw [(registered kernel).system]
      exact lastValue_absent ((apart.resolve_left Bool.false_ne_true) c (List.mem_singleton_self c))

theorem calls_keep (d : Dispatch) (calls : List SSvcCall) : ∃ d', run SSvcCall.step d calls = some d' ∧ ∀ code,
    (isKernelService code = true ∨ Untouched namesUser calls code → d'.user code = d.user code) ∧
      (isKernelService code = true ∨ Untouched names calls code → d'.system code = d.system code) := by
  induction calls generalizing d with
  | nil => exact ⟨d, rfl, fun _ => ⟨fun _ => rfl, fun _ => rfl⟩⟩
  | cons c calls ih =>
    obtain ⟨mid, called, -⟩ := procSSvc_fold d c.dataPtr c.table
    obtain ⟨d', ran, kept⟩ := ih mid
    refine ⟨d', run_step called ran, fun code => ?_⟩
    have first := step_keeps code (show SSvcCall.step d c = some mid from called)
    refine ⟨fun apart => ((kept code).1 ?_).trans (first.1 ?_), fun apart => ((kept code).2 ?_).trans (first.2 ?_)⟩
    · exact apart.imp_right (fun free c member => free c (List.mem_cons_of_mem _ member))
    · exact apart.imp_right (fun free c' member => free c' (List.mem_singleton.mp member ▸ List.mem_cons_self))
    · exact apart.imp_right (fun free c member => free c (List.mem_cons_of_mem _ member))
    · exact apart.imp_right (fun free c' member => free c' (List.mem_singleton.mp member ▸ List.mem_cons_self))

/-- The listed services of the kernel stay native under any calls of F$SSvc,
the others as long as no table names them. -/
theorem native_kept (h : Handlers) (debug : Bool) (d : Dispatch) (calls : List SSvcCall) :
    ∃ d', run SSvcCall.step (h.cinit debug d) calls = some d' ∧ ∀ code,
      (code ∈ usrdisServices debug → isKernelService code = true ∨ Untouched namesUser calls code →
        d'.user code = h.native code) ∧
      (code ∈ sysdisServices debug → isKernelService code = true ∨ Untouched names calls code →
        d'.system code = h.native code) := by
  obtain ⟨d', ran, kept⟩ := calls_keep (h.cinit debug d) calls
  exact ⟨d', ran, fun code =>
    ⟨fun member apart => ((kept code).1 apart).trans ((h.cinit_native debug d).1 member),
      fun member apart => ((kept code).2 apart).trans ((h.cinit_native debug d).2 member)⟩⟩

/-- One entry for F$SchBit. -/
def schBitTable : ServiceTable where
  mem
    | 0x101 => 0x12
    | 0x103 => 0x40
    | 0x104 => 0xFF
    | 0x105 => 0xFF
    | _ => 0
  addr := 0x100
  length := 1
  ends := by decide

theorem schBit_displaced : ¬ ∀ (h : Handlers) (debug : Bool) (d : Dispatch) (t : ServiceTable) (dataPtr : Nat),
    ∃ d', (h.cinit debug d).procSSvc t.mem t.addr dataPtr = some d' ∧ ∀ code, code < 0x80 → code ≠ 0x5E →
      (code ∈ usrdisServices debug → d'.user code = h.native code) ∧
        (code ∈ sysdisServices debug → d'.system code = h.native code) := by
  intro never
  obtain ⟨d', ran, native⟩ := never ⟨fun _ => 0x8000, 0x9000, fun _ => by decide⟩ false
    ⟨fun _ => 0, fun _ => 0, fun _ => 0, fun _ => 0, fun _ => 0, fun _ => 0, 0, 0, 0⟩ schBitTable 0
  rw [procSSvc_eq _ 0 schBitTable.ends] at ran
  obtain rfl := Option.some.inj ran
  have user := (native 0x12 (by decide) (by decide)).1 (by decide)
  revert user
  decide
end Q9OS

import Mathlib.Tactic

/-!
# The host file system of the DHF device

`dhf_host_fs.c`: guest paths are resolved below a base directory of the host,
and open files and directories are kept in a table of handles. The calls of the
host itself are parameters: functions of a host state of any kind.
-/

namespace Q9OS

namespace Dhf

/-! ### Protocol constants -/

def errOk : Nat := 0
def errError : Nat := 1
def errBadPath : Nat := 205
def errPathFull : Nat := 206
def errFileExists : Nat := 213
def errDiskFull : Nat := 214
def errNoPermission : Nat := 215
def errNotFound : Nat := 216
def errIsDir : Nat := 218
def errNotDir : Nat := 219
def errUnsupported : Nat := 240

def maxHandles : Nat := 64
def pathMax : Nat := 1024

/-! ### The host -/

/-- A C string without its end, or the content of a buffer. -/
abbrev Bytes := List UInt8

def slash : UInt8 := 0x2F
def newline : UInt8 := 0x0A
def carriageReturn : UInt8 := 0x0D

inductive Errno where
  | enoent
  | eacces
  | eperm
  | eexist
  | ebadf
  | enospc
  | eisdir
  | enotdir
  | other (code : Nat)
  deriving DecidableEq

def errnoToDhf : Errno → Nat
  | .enoent => errNotFound
  | .eacces => errNoPermission
  | .eperm => errNoPermission
  | .eexist => errFileExists
  | .ebadf => errBadPath
  | .enospc => errDiskFull
  | .eisdir => errIsDir
  | .enotdir => errNotDir
  | .other _ => errError

structure Stat where
  size : Nat
  mode : Nat
  mtime : Nat
  atime : Nat
  isDir : Bool
  deriving DecidableEq

inductive Access where
  | readOnly
  | writeOnly
  | readWrite
  deriving DecidableEq

inductive Whence where
  | set
  | cur
  | fromEnd
  deriving DecidableEq

/-- The calls of the host on its state. -/
structure Host (σ : Type) where
  realpath : σ → Bytes → Option Bytes
  getcwd : σ → Bytes
  openFile : σ → Bytes → Access → Option Nat → Except Errno Nat × σ
  closeFile : σ → Nat → σ
  read : σ → Nat → Nat → Except Errno Bytes × σ
  write : σ → Nat → Bytes → Except Errno Nat × σ
  lseek : σ → Nat → Nat → Whence → Except Errno Nat × σ
  stat : σ → Bytes → Except Errno Stat
  mkdir : σ → Bytes → Nat → Except Errno Unit × σ
  rmdir : σ → Bytes → Except Errno Unit × σ
  unlink : σ → Bytes → Except Errno Unit × σ
  rename : σ → Bytes → Bytes → Except Errno Unit × σ
  openDir : σ → Bytes → Except Errno Nat × σ
  readDir : σ → Nat → Option Bytes × σ
  closeDir : σ → Nat → σ

/-- A read gives no more bytes than it is asked for. -/
def Host.ReadsAtMost {σ : Type} (host : Host σ) : Prop :=
  ∀ s fd n bytes s', host.read s fd n = (.ok bytes, s') → bytes.length ≤ n

/-! ### State -/

/-- What a handle in use owns. -/
inductive Resource where
  | file (fd : Nat)
  | dir (stream : Nat)
  deriving DecidableEq

structure Handle where
  resource : Resource
  path : Bytes
  deriving DecidableEq

structure HostFs where
  basepath : Bytes
  cwd : Bytes
  handles : Nat → Option Handle

namespace HostFs

/-- The handle table with one entry changed. -/
def setHandle (fs : HostFs) (i : Nat) (handle : Option Handle) : HostFs :=
  { fs with handles := fun j => if j = i then handle else fs.handles j }

/-! ### Confinement -/

/-- The part behind the last slash, and the part before it if there is one. -/
def splitLast (path : Bytes) : Option Bytes × Bytes :=
  let last := (path.reverse.takeWhile (· ≠ slash)).reverse
  (if last.length = path.length then none else some (path.take (path.length - last.length - 1)), last)

/-- The host path a guest path stands for, before it is cleaned. -/
def combined (fs : HostFs) : Option Bytes → Bytes
  | none => (fs.basepath ++ slash :: fs.cwd).take (pathMax * 2 - 1)
  | some [] => (fs.basepath ++ slash :: fs.cwd).take (pathMax * 2 - 1)
  | some (first :: rest) =>
    if first = slash then (fs.basepath ++ slash :: rest).take (pathMax * 2 - 1)
    else if fs.cwd ≠ [] then
      (fs.basepath ++ slash :: (fs.cwd ++ slash :: first :: rest)).take (pathMax * 2 - 1)
    else (fs.basepath ++ slash :: first :: rest).take (pathMax * 2 - 1)

/-- The directory of a path is made canonical if the host knows it. -/
def cleaned (realpath : Bytes → Option Bytes) (path : Bytes) : Bytes :=
  match splitLast path with
  | (none, _) => path.take (pathMax - 1)
  | (some [], _) => path.take (pathMax - 1)
  | (some dir, last) =>
    match realpath (dir.take (pathMax - 1)) with
    | some resolved => (resolved ++ slash :: last).take (pathMax - 1)
    | none => path.take (pathMax - 1)

/-- The host path of a guest path, none when it does not start like the base. -/
def resolveConfinedPath (fs : HostFs) (realpath : Bytes → Option Bytes) (path : Option Bytes) : Option Bytes :=
  let out := cleaned realpath (fs.combined path)
  if fs.basepath <+: out then some out else none

/-! ### Handles -/

variable {σ : Type} (host : Host σ)

/-- Closes what a handle owns. -/
def closeResource (s : σ) : Resource → σ
  | .file fd => host.closeFile s fd
  | .dir stream => host.closeDir s stream

def closeHandle (s : σ) : Option Handle → σ
  | none => s
  | some handle => closeResource host s handle.resource

/-- The lowest free handle. -/
def freeHandle (fs : HostFs) : Option Nat := (List.range maxHandles).find? fun i => (fs.handles i).isNone

def newHandle (resource : Resource) (path : Bytes) : Option Handle := some ⟨resource, path.take (pathMax - 1)⟩

def init (s : σ) (basepath : Option Bytes) : HostFs :=
  let base :=
    match basepath with
    | some (first :: rest) => (host.realpath s (first :: rest)).getD (first :: rest)
    | _ => if (host.getcwd s).length < pathMax - 1 then host.getcwd s else []
  ⟨base.take (pathMax - 1), [], fun _ => none⟩

def cleanupFrom (fs : HostFs) (s : σ) : List Nat → HostFs × σ
  | [] => (fs, s)
  | i :: rest => cleanupFrom (fs.setHandle i none) (closeHandle host s (fs.handles i)) rest

/-- Closes every handle. -/
def cleanup (fs : HostFs) (s : σ) : HostFs × σ := fs.cleanupFrom host s (List.range maxHandles)

/-! ### Files -/

def accessOf (flags : Nat) : Access :=
  if flags % 4 = 3 then .readWrite else if flags / 2 % 2 = 1 then .writeOnly else .readOnly

/-- A created file is at least open for writing. -/
def createAccessOf (flags : Nat) : Access := if flags % 4 = 2 then .writeOnly else .readWrite

/-- The host opens a confined path. -/
def openHost (fs : HostFs) (s : σ) (path : Option Bytes) (access : Access) (create : Option Nat) :
    Except Nat (Nat × Bytes) × σ :=
  match fs.resolveConfinedPath (host.realpath s) path with
  | none => (.error errNoPermission, s)
  | some target =>
    match host.openFile s target access create with
    | (.error errno, s) => (.error (errnoToDhf errno), s)
    | (.ok fd, s) => (.ok (fd, target), s)

/-- A new file gets the lowest free handle. -/
def enterFile (fs : HostFs) (opened : Except Nat (Nat × Bytes) × σ) : Except Nat Nat × HostFs × σ :=
  match opened with
  | (.error status, s) => (.error status, fs, s)
  | (.ok (fd, target), s) =>
    match fs.freeHandle with
    | none => (.error errPathFull, fs, host.closeFile s fd)
    | some h => (.ok h, fs.setHandle h (newHandle (.file fd) target), s)

/-- A new file gets the handle the caller chose; what it held is closed. -/
def enterFileAt (fs : HostFs) (idx : Nat) (opened : Except Nat (Nat × Bytes) × σ) : Except Nat Nat × HostFs × σ :=
  match opened with
  | (.error status, s) => (.error status, fs, s)
  | (.ok (fd, target), s) =>
    if idx ≥ maxHandles then (.error errBadPath, fs, host.closeFile s fd)
    else (.ok idx, fs.setHandle idx (newHandle (.file fd) target), closeHandle host s (fs.handles idx))

def createMode (mode : Nat) : Nat := if mode = 0 then 0o644 else mode

def openPath (fs : HostFs) (s : σ) (path : Option Bytes) (flags : Nat) : Except Nat Nat × HostFs × σ :=
  fs.enterFile host (fs.openHost host s path (accessOf flags) none)

def create (fs : HostFs) (s : σ) (path : Option Bytes) (flags mode : Nat) : Except Nat Nat × HostFs × σ :=
  fs.enterFile host (fs.openHost host s path (createAccessOf flags) (some (createMode mode)))

def openAt (fs : HostFs) (s : σ) (idx : Nat) (path : Option Bytes) (flags : Nat) : Except Nat Nat × HostFs × σ :=
  fs.enterFileAt host idx (fs.openHost host s path (accessOf flags) none)

def createAt (fs : HostFs) (s : σ) (idx : Nat) (path : Option Bytes) (flags mode : Nat) :
    Except Nat Nat × HostFs × σ :=
  fs.enterFileAt host idx (fs.openHost host s path (createAccessOf flags) (some (createMode mode)))

def close (fs : HostFs) (s : σ) (h : Nat) : Nat × HostFs × σ :=
  if h < maxHandles then
    match fs.handles h with
    | none => (errBadPath, fs, s)
    | some handle => (errOk, fs.setHandle h none, closeResource host s handle.resource)
  else (errBadPath, fs, s)

/-- The file of a handle. -/
def fileOf (fs : HostFs) (h : Nat) : Option Nat :=
  if h < maxHandles then
    match fs.handles h with
    | some ⟨.file fd, _⟩ => some fd
    | _ => none
  else none

/-- A call on the file of a handle. -/
def onFile {α : Type} (fs : HostFs) (s : σ) (h : Nat) (call : σ → Nat → Except Errno α × σ) : Except Nat α × σ :=
  match fs.fileOf h with
  | none => (.error errBadPath, s)
  | some fd =>
    match call s fd with
    | (.error errno, s) => (.error (errnoToDhf errno), s)
    | (.ok result, s) => (.ok result, s)

def read (fs : HostFs) (s : σ) (h count : Nat) : Except Nat Bytes × σ :=
  fs.onFile s h fun s fd => host.read s fd count

def write (fs : HostFs) (s : σ) (h : Nat) (bytes : Bytes) : Except Nat Nat × σ :=
  fs.onFile s h fun s fd => host.write s fd bytes

def whenceOf (whence : Nat) : Whence := if whence = 1 then .cur else if whence = 2 then .fromEnd else .set

def seek (fs : HostFs) (s : σ) (h offset whence : Nat) : Except Nat Nat × σ :=
  fs.onFile s h fun s fd => host.lseek s fd offset (whenceOf whence)

/-- Bytes up to the end of a line, of the file or of the buffer. -/
def readLine (s : σ) (fd : Nat) : Nat → Bytes → Except Errno Bytes × σ
  | 0, line => (.ok line, s)
  | n + 1, line =>
    match host.read s fd 1 with
    | (.error errno, s) => (.error errno, s)
    | (.ok [], s) => (.ok line, s)
    | (.ok (ch :: _), s) =>
      if ch = newline ∨ ch = carriageReturn then (.ok (line ++ [ch]), s) else readLine s fd n (line ++ [ch])

def readln (fs : HostFs) (s : σ) (h maxlen : Nat) : Except Nat Bytes × σ :=
  if maxlen = 0 then (.error errBadPath, s) else fs.onFile s h fun s fd => readLine host s fd (maxlen - 1) []

/-- The bytes and, unless they end a line, a newline. -/
def writeln (fs : HostFs) (s : σ) (h : Nat) (bytes : Bytes) : Except Nat Nat × σ :=
  match fs.write host s h bytes with
  | (.error status, s) => (.error status, s)
  | (.ok w, s) =>
    if bytes = [] ∨ bytes.getLast? ≠ some newline then
      match fs.fileOf h with
      | some fd => (.ok (w + 1), (host.write s fd [newline]).2)
      | none => (.ok (w + 1), s)
    else (.ok w, s)

/-! ### Paths -/

/-- A call on a confined path. -/
def onPath {α : Type} (fs : HostFs) (s : σ) (path : Option Bytes) (call : σ → Bytes → Except Errno α × σ) :
    Except Nat α × σ :=
  match fs.resolveConfinedPath (host.realpath s) path with
  | none => (.error errNoPermission, s)
  | some target =>
    match call s target with
    | (.error errno, s) => (.error (errnoToDhf errno), s)
    | (.ok result, s) => (.ok result, s)

def getstat (fs : HostFs) (s : σ) (path : Option Bytes) : Except Nat Stat :=
  (fs.onPath host s path fun s target => (host.stat s target, s)).1

/-- Nothing is set. -/
def setstat (fs : HostFs) (s : σ) (path : Option Bytes) : Nat :=
  match fs.resolveConfinedPath (host.realpath s) path with
  | none => errNoPermission
  | some _ => errOk

/-- The current directory after a change to `target`. -/
def cwdOf (fs : HostFs) (target : Bytes) : Bytes :=
  let rel := target.drop fs.basepath.length
  (if rel.head? = some slash then rel.tail else rel).take (pathMax - 1)

def chdir (fs : HostFs) (s : σ) (path : Option Bytes) : Nat × HostFs :=
  match fs.resolveConfinedPath (host.realpath s) path with
  | none => (errNoPermission, fs)
  | some target =>
    match host.stat s target with
    | .error _ => (errNotDir, fs)
    | .ok stat => if stat.isDir then (errOk, { fs with cwd := fs.cwdOf target }) else (errNotDir, fs)

def mkdir (fs : HostFs) (s : σ) (path : Option Bytes) (mode : Nat) : Except Nat Unit × σ :=
  fs.onPath host s path fun s target => host.mkdir s target (if mode = 0 then 0o755 else mode)

def rmdir (fs : HostFs) (s : σ) (path : Option Bytes) : Except Nat Unit × σ :=
  fs.onPath host s path fun s target => host.rmdir s target

def unlink (fs : HostFs) (s : σ) (path : Option Bytes) : Except Nat Unit × σ :=
  fs.onPath host s path fun s target => host.unlink s target

def rename (fs : HostFs) (s : σ) (old new : Option Bytes) : Except Nat Unit × σ :=
  match fs.resolveConfinedPath (host.realpath s) old, fs.resolveConfinedPath (host.realpath s) new with
  | some target, some target' =>
    match host.rename s target target' with
    | (.error errno, s) => (.error (errnoToDhf errno), s)
    | (.ok result, s) => (.ok result, s)
  | _, _ => (.error errNoPermission, s)

/-! ### Directories -/

def opendir (fs : HostFs) (s : σ) (path : Option Bytes) : Except Nat Nat × HostFs × σ :=
  match fs.resolveConfinedPath (host.realpath s) path with
  | none => (.error errNoPermission, fs, s)
  | some target =>
    match host.openDir s target with
    | (.error errno, s) => (.error (errnoToDhf errno), fs, s)
    | (.ok stream, s) =>
      match fs.freeHandle with
      | none => (.error errPathFull, fs, host.closeDir s stream)
      | some h => (.ok h, fs.setHandle h (newHandle (.dir stream) target), s)

/-- The directory of a handle. -/
def dirOf (fs : HostFs) (h : Nat) : Option (Nat × Bytes) :=
  if h < maxHandles then
    match fs.handles h with
    | some ⟨.dir stream, path⟩ => some (stream, path)
    | _ => none
  else none

/-- The next entry with its size and mode; no entry at the end. -/
def readdir (fs : HostFs) (s : σ) (h : Nat) : Except Nat (Option (Bytes × Nat × Nat)) × σ :=
  match fs.dirOf h with
  | none => (.error errBadPath, s)
  | some (stream, path) =>
    match host.readDir s stream with
    | (none, s) => (.ok none, s)
    | (some name, s) =>
      match host.stat s ((path ++ slash :: name).take (pathMax * 2 - 1)) with
      | .ok stat => (.ok (some (name.take (pathMax - 1), stat.size % 4294967296, stat.mode % 4294967296)), s)
      | .error _ => (.ok (some (name.take (pathMax - 1), 0, 0)), s)

end HostFs

theorem onFile_ok {α σ : Type} {fs : HostFs} {s s' : σ} {h : Nat} {call : σ → Nat → Except Errno α × σ} {result : α}
    (done : fs.onFile s h call = (.ok result, s')) : ∃ fd, fs.fileOf h = some fd ∧ call s fd = (.ok result, s') := by
  unfold HostFs.onFile at done
  cases file : fs.fileOf h with
  | none =>
    rw [file] at done
    cases done
  | some fd =>
    rw [file] at done
    dsimp only at done
    cases called : call s fd with
    | mk outcome after =>
      rw [called] at done
      cases outcome with
      | error errno => cases done
      | ok found =>
        cases done
        exact ⟨fd, rfl, called⟩

/-- A line is never longer than what is left of the buffer. -/
theorem readLine_length {σ : Type} {host : Host σ} {s s' : σ} {fd n : Nat} {line out : Bytes}
    (done : HostFs.readLine host s fd n line = (.ok out, s')) : out.length ≤ line.length + n := by
  induction n generalizing s line with
  | zero =>
    cases done
    exact Nat.le_refl _
  | succ n ih =>
    rw [HostFs.readLine] at done
    split at done
    · cases done
    · cases done
      exact Nat.le_add_right _ _
    · next ch rest after read =>
      split at done
      · cases done
        simp
      · have bound := ih done
        rw [List.length_append, List.length_singleton] at bound
        omega

/-- The line and its end fit the buffer. -/
theorem readln_length {σ : Type} {host : Host σ} {fs : HostFs} {s s' : σ} {h maxlen : Nat} {line : Bytes}
    (done : fs.readln host s h maxlen = (.ok line, s')) : line.length < maxlen := by
  unfold HostFs.readln at done
  split at done
  · cases done
  · next some_room =>
    obtain ⟨fd, -, called⟩ := onFile_ok done
    have bound := readLine_length called
    rw [List.length_nil] at bound
    omega

theorem read_length {σ : Type} {host : Host σ} (reads : host.ReadsAtMost) {fs : HostFs} {s s' : σ} {h count : Nat}
    {bytes : Bytes} (done : fs.read host s h count = (.ok bytes, s')) : bytes.length ≤ count := by
  obtain ⟨fd, -, called⟩ := onFile_ok done
  exact reads s fd count bytes s' called

/-- The name of an entry fits its buffer. -/
theorem readdir_name {σ : Type} {host : Host σ} {fs : HostFs} {s s' : σ} {h : Nat} {entry : Bytes × Nat × Nat}
    (done : fs.readdir host s h = (.ok (some entry), s')) : entry.1.length < pathMax := by
  unfold HostFs.readdir at done
  split at done
  · cases done
  · split at done
    · cases done
    · next name after read =>
      have short : (name.take (pathMax - 1)).length < pathMax :=
        Nat.lt_of_le_of_lt (List.length_take_le _ _) (by decide)
      split at done
      · cases done
        exact short
      · cases done
        exact short

theorem freeHandle_some {fs : HostFs} {h : Nat} (found : fs.freeHandle = some h) :
    h < maxHandles ∧ fs.handles h = none := by
  have none := List.find?_some found
  exact ⟨List.mem_range.mp (List.mem_of_find?_eq_some found), Option.isNone_iff_eq_none.mp none⟩

end Dhf

end Q9OS

import Mathlib.Tactic
import Q9OS.Dhf.HostFs

/-!
# A host that keeps a ledger

Any host can be watched: every call that opens, closes or uses a file or a
directory stream is written down. What the ledger shows as open is open on the
host as well.
-/

namespace Q9OS

namespace Dhf

inductive HostCall where
  | opened (resource : Resource)
  | closed (resource : Resource)
  | used (resource : Resource)
  deriving DecidableEq

/-- What is open after the calls of a log, the latest first. -/
def live : List HostCall → List Resource
  | [] => []
  | .opened r :: log => r :: live log
  | .closed r :: log => (live log).erase r
  | .used _ :: log => live log

/-- What the host documents of its calls: an open gives what was not open, a close takes away what
it names, and no other call changes what is open. -/
structure Posix {σ : Type} (host : Host σ) (inUse : σ → Finset Resource) : Prop where
  openFile : ∀ s path access create,
    inUse (host.openFile s path access create).2 =
      (match (host.openFile s path access create).1 with
        | .ok fd => insert (Resource.file fd) (inUse s)
        | .error _ => inUse s)
  openFile_fresh : ∀ s path access create fd,
    (host.openFile s path access create).1 = .ok fd → Resource.file fd ∉ inUse s
  openDir : ∀ s path,
    inUse (host.openDir s path).2 =
      (match (host.openDir s path).1 with
        | .ok stream => insert (Resource.dir stream) (inUse s)
        | .error _ => inUse s)
  openDir_fresh : ∀ s path stream, (host.openDir s path).1 = .ok stream → Resource.dir stream ∉ inUse s
  closeFile : ∀ s fd, inUse (host.closeFile s fd) = (inUse s).erase (.file fd)
  closeDir : ∀ s stream, inUse (host.closeDir s stream) = (inUse s).erase (.dir stream)
  read : ∀ s fd n, inUse (host.read s fd n).2 = inUse s
  write : ∀ s fd bytes, inUse (host.write s fd bytes).2 = inUse s
  lseek : ∀ s fd offset whence, inUse (host.lseek s fd offset whence).2 = inUse s
  readDir : ∀ s stream, inUse (host.readDir s stream).2 = inUse s
  mkdir : ∀ s path mode, inUse (host.mkdir s path mode).2 = inUse s
  rmdir : ∀ s path, inUse (host.rmdir s path).2 = inUse s
  unlink : ∀ s path, inUse (host.unlink s path).2 = inUse s
  rename : ∀ s path path', inUse (host.rename s path path').2 = inUse s

section
variable {σ : Type} {inUse : σ → Finset Resource}

/-- A host state with the log of the calls that led to it. -/
structure Ledger (inUse : σ → Finset Resource) where
  state : σ
  log : List HostCall
  nodup : (live log).Nodup
  tracked : ∀ r ∈ live log, r ∈ inUse state

namespace Ledger

def begin (s : σ) : Ledger inUse := ⟨s, [], List.nodup_nil, fun _ member => absurd member List.not_mem_nil⟩

/-- A call that opens and closes nothing. -/
def keep (t : Ledger inUse) (s : σ) (same : inUse s = inUse t.state) : Ledger inUse :=
  ⟨s, t.log, t.nodup, fun r member => same ▸ t.tracked r member⟩

def use (t : Ledger inUse) (s : σ) (same : inUse s = inUse t.state) (r : Resource) : Ledger inUse :=
  ⟨s, .used r :: t.log, t.nodup, fun r member => same ▸ t.tracked r member⟩

def add (t : Ledger inUse) (s : σ) (r : Resource) (more : inUse s = insert r (inUse t.state)) (fresh : r ∉ inUse t.state) :
    Ledger inUse where
  state := s
  log := .opened r :: t.log
  nodup := List.nodup_cons.mpr ⟨fun member => fresh (t.tracked r member), t.nodup⟩
  tracked other member := by
    rw [more]
    rcases List.mem_cons.mp member with rfl | earlier
    · exact Finset.mem_insert_self _ _
    · exact Finset.mem_insert_of_mem (t.tracked other earlier)

def remove (t : Ledger inUse) (s : σ) (r : Resource) (less : inUse s = (inUse t.state).erase r) : Ledger inUse where
  state := s
  log := .closed r :: t.log
  nodup := t.nodup.erase r
  tracked other member := by
    obtain ⟨apart, earlier⟩ := t.nodup.mem_erase_iff.mp member
    rw [less]
    exact Finset.mem_erase.mpr ⟨apart, t.tracked other earlier⟩

/-- A call that may have opened something. -/
def tryOpen (t : Ledger inUse) (s : σ) (result : Except Errno Nat) (resource : Nat → Resource)
    (after : inUse s = match result with | .ok n => insert (resource n) (inUse t.state) | .error _ => inUse t.state)
    (fresh : ∀ n, result = .ok n → resource n ∉ inUse t.state) : Ledger inUse :=
  match result, after, fresh with
  | .ok n, after, fresh => t.add s (resource n) after (fresh n rfl)
  | .error _, after, _ => t.keep s after

end Ledger

/-- The same host with a ledger. -/
def Host.watched {host : Host σ} (posix : Posix host inUse) : Host (Ledger inUse) where
  realpath t := host.realpath t.state
  getcwd t := host.getcwd t.state
  stat t := host.stat t.state
  openFile t path access create :=
    let done := host.openFile t.state path access create
    (done.1, t.tryOpen done.2 done.1 .file (posix.openFile _ _ _ _) (posix.openFile_fresh _ _ _ _))
  openDir t path :=
    let done := host.openDir t.state path
    (done.1, t.tryOpen done.2 done.1 .dir (posix.openDir _ _) (posix.openDir_fresh _ _))
  closeFile t fd := t.remove (host.closeFile t.state fd) (.file fd) (posix.closeFile _ _)
  closeDir t stream := t.remove (host.closeDir t.state stream) (.dir stream) (posix.closeDir _ _)
  read t fd n := ((host.read t.state fd n).1, t.use (host.read t.state fd n).2 (posix.read _ _ _) (.file fd))
  write t fd bytes := ((host.write t.state fd bytes).1, t.use (host.write t.state fd bytes).2 (posix.write _ _ _) (.file fd))
  lseek t fd offset whence :=
    ((host.lseek t.state fd offset whence).1, t.use (host.lseek t.state fd offset whence).2 (posix.lseek _ _ _ _) (.file fd))
  readDir t stream := ((host.readDir t.state stream).1, t.use (host.readDir t.state stream).2 (posix.readDir _ _) (.dir stream))
  mkdir t path mode := ((host.mkdir t.state path mode).1, t.keep (host.mkdir t.state path mode).2 (posix.mkdir _ _ _))
  rmdir t path := ((host.rmdir t.state path).1, t.keep (host.rmdir t.state path).2 (posix.rmdir _ _))
  unlink t path := ((host.unlink t.state path).1, t.keep (host.unlink t.state path).2 (posix.unlink _ _))
  rename t path path' := ((host.rename t.state path path').1, t.keep (host.rename t.state path path').2 (posix.rename _ _ _))

/-! ### What a watched call writes down -/

variable {host : Host σ} (posix : Posix host inUse)

/-- What an open writes down. -/
def opening (resource : Nat → Resource) : Except Errno Nat → List HostCall
  | .ok n => [.opened (resource n)]
  | .error _ => []

theorem tryOpen_log (t : Ledger inUse) (s : σ) (result : Except Errno Nat) (resource : Nat → Resource)
    (after : inUse s = match result with | .ok n => insert (resource n) (inUse t.state) | .error _ => inUse t.state)
    (fresh : ∀ n, result = .ok n → resource n ∉ inUse t.state) :
    (t.tryOpen s result resource after fresh).log = opening resource result ++ t.log := by
  cases result <;> rfl

theorem watched_openFile (t : Ledger inUse) (path : Bytes) (access : Access) (create : Option Nat) :
    ((Host.watched posix).openFile t path access create).2.log =
      opening .file ((Host.watched posix).openFile t path access create).1 ++ t.log :=
  tryOpen_log _ _ _ _ _ _

theorem watched_openDir (t : Ledger inUse) (path : Bytes) :
    ((Host.watched posix).openDir t path).2.log =
      opening .dir ((Host.watched posix).openDir t path).1 ++ t.log :=
  tryOpen_log _ _ _ _ _ _

end

/-! ### A host of empty files -/

def Resource.number : Resource → Nat
  | .file fd => fd
  | .dir stream => stream

/-- A number above all that are in use. -/
def nextNumber (s : Finset Resource) : Nat := s.sup Resource.number + 1

theorem nextNumber_fresh (s : Finset Resource) {r : Resource} (number : r.number = nextNumber s) : r ∉ s := by
  intro member
  have below := Finset.le_sup (f := Resource.number) member
  unfold nextNumber at number
  omega

/-- Every path is canonical, every file is there and empty, and so is every directory. -/
def emptyHost : Host (Finset Resource) where
  realpath _ path := some path
  getcwd _ := [slash]
  openFile s _ _ _ := (.ok (nextNumber s), insert (.file (nextNumber s)) s)
  closeFile s fd := s.erase (.file fd)
  read s _ _ := (.ok [], s)
  write s _ bytes := (.ok bytes.length, s)
  lseek s _ _ _ := (.ok 0, s)
  stat _ _ := .ok ⟨0, 0o755, 0, 0, true⟩
  mkdir s _ _ := (.error .eexist, s)
  rmdir s _ := (.error .enotdir, s)
  unlink s _ := (.error .eisdir, s)
  rename s _ _ := (.error .eacces, s)
  openDir s _ := (.ok (nextNumber s), insert (.dir (nextNumber s)) s)
  readDir s _ := (none, s)
  closeDir s stream := s.erase (.dir stream)

theorem emptyHost_reads : emptyHost.ReadsAtMost := by
  intro s fd n bytes s' done
  cases done
  exact Nat.zero_le _

theorem emptyHost_posix : Posix emptyHost id where
  openFile _ _ _ _ := rfl
  openFile_fresh s _ _ _ _ done := nextNumber_fresh s (Except.ok.inj done).symm
  openDir _ _ := rfl
  openDir_fresh s _ _ done := nextNumber_fresh s (Except.ok.inj done).symm
  closeFile _ _ := rfl
  closeDir _ _ := rfl
  read _ _ _ := rfl
  write _ _ _ := rfl
  lseek _ _ _ _ := rfl
  readDir _ _ := rfl
  mkdir _ _ _ := rfl
  rmdir _ _ := rfl
  unlink _ _ := rfl
  rename _ _ _ := rfl

end Dhf

end Q9OS

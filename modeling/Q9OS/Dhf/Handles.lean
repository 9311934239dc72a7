import Mathlib.Tactic
import Q9OS.Lib.Run
import Q9OS.Dhf.Device
import Q9OS.Dhf.Ledger

/-!
# Handles and what they own

Every file and directory the device has opened on the host belongs to one handle
of its table. The two ways to get a handle share the table: a file takes the
index the caller names, a directory the lowest free one.
-/

namespace Q9OS

namespace Dhf

/-- The handle `h` is in use and owns `r`. -/
def Owns (fs : HostFs) (h : Nat) (r : Resource) : Prop := h < maxHandles ∧ ∃ path, fs.handles h = some ⟨r, path⟩

/-- What a host call may name after `rest`. -/
def Proper (rest : List HostCall) : HostCall → Prop
  | .opened r => r ∉ live rest
  | .closed r => r ∈ live rest
  | .used r => r ∈ live rest

/-- Nothing is opened twice, and only what is open is closed or used. -/
def Clean : List HostCall → Prop
  | [] => True
  | call :: rest => Proper rest call ∧ Clean rest

/-- What is open on the host for the device is owned by exactly one handle. -/
structure Owned (fs : HostFs) (log : List HostCall) : Prop where
  clean : Clean log
  owned : ∀ r ∈ live log, ∃ h, Owns fs h r
  opened : ∀ h r, Owns fs h r → r ∈ live log
  once : ∀ h h' r, Owns fs h r → Owns fs h' r → h = h'

section
variable {σ : Type} {inUse : σ → Finset Resource}

/-- The device, with the directory handles the guest was given and has not given back. -/
structure Guest (inUse : σ → Finset Resource) where
  dev : Device (Ledger inUse)
  given : List (Nat × Nat)

/-- Directory handles of the guest after a command. -/
def givenAfter (dev dev' : Device (Ledger inUse)) (given : List (Nat × Nat)) : List (Nat × Nat) :=
  match dev.shared.command with
  | .opendir =>
    match dev'.shared.status, dev'.fs.handles dev'.shared.d0 with
    | 0, some ⟨.dir stream, _⟩ => (dev'.shared.d0, stream) :: given
    | _, _ => given
  | .close => given.filter fun g => g.1 ≠ dev.shared.d0
  | .term => []
  | _ => given

variable {host : Host σ} (posix : Posix host inUse)

def obey (g : Guest inUse) (order : Order) : Option (Guest inUse) :=
  let dev := g.dev.ordered order
  let dev' := dev.process (Host.watched posix)
  some ⟨dev', givenAfter dev dev' g.given⟩

/-- Every directory handle the guest was given is still its own. -/
def Valid (g : Guest inUse) : Prop := ∀ given ∈ g.given, Owns g.dev.fs given.1 (.dir given.2)

/-- The table is right, and the handles given out are valid. -/
structure Faithful (g : Guest inUse) : Prop where
  owned : Owned g.dev.fs g.dev.host.log
  valid : Valid g

/-- The host opens the file of an OPEN or CREATE. -/
def HostOpens (dev : Device (Ledger inUse)) : Prop :=
  match dev.shared.command with
  | .openPath => ∃ fd target, (dev.fs.openHost (Host.watched posix) dev.host (dev.ram.text dev.shared.a0)
      (HostFs.accessOf dev.shared.d2) none).1 = .ok (fd, target)
  | .create => ∃ fd target, (dev.fs.openHost (Host.watched posix) dev.host (dev.ram.text dev.shared.a0)
      (HostFs.createAccessOf dev.shared.d2) (some (HostFs.createMode dev.shared.d1))).1 = .ok (fd, target)
  | _ => False

/-- No INIT while a handle is in use, and no file opened at the index of a directory. -/
structure Careful (dev : Device (Ledger inUse)) : Prop where
  init : dev.shared.command = .init → ∀ first rest, dev.ram.text dev.shared.a0 = some (first :: rest) →
    ∀ h r, ¬ Owns dev.fs h r
  index : HostOpens posix dev → ∀ stream, ¬ Owns dev.fs dev.shared.d0 (.dir stream)

end

/-! ### What each call writes down -/

section
variable {σ : Type} {inUse : σ → Finset Resource} {host : Host σ} {posix : Posix host inUse} {fs : HostFs}
  {t : Ledger inUse}

/-- The log grows by uses of what the handle owns, if at all. -/
def Uses (fs : HostFs) (h : Nat) (log log' : List HostCall) : Prop :=
  ∃ calls, log' = calls ++ log ∧ ∀ call ∈ calls, ∃ r, call = .used r ∧ Owns fs h r

theorem Uses.rfl {h : Nat} {log : List HostCall} : Uses fs h log log :=
  ⟨[], Eq.refl _, fun _ member => absurd member List.not_mem_nil⟩

theorem Uses.trans {h : Nat} {log log' log'' : List HostCall} (first : Uses fs h log log') (second : Uses fs h log' log'') :
    Uses fs h log log'' := by
  obtain ⟨calls, rfl, owned⟩ := first
  obtain ⟨calls', rfl, owned'⟩ := second
  refine ⟨calls' ++ calls, (List.append_assoc _ _ _).symm, fun call member => ?_⟩
  rcases List.mem_append.mp member with new | old
  · exact owned' call new
  · exact owned call old

theorem Uses.one {h : Nat} {r : Resource} {log : List HostCall} (owns : Owns fs h r) : Uses fs h log (.used r :: log) := by
  refine ⟨[.used r], Eq.refl _, fun call member => ⟨r, ?_, owns⟩⟩
  exact List.mem_singleton.mp member

theorem fileOf_owns {h fd : Nat} (file : fs.fileOf h = some fd) : Owns fs h (.file fd) := by
  unfold HostFs.fileOf at file
  split at file
  · next low =>
    split at file
    · next fd' path held =>
      obtain rfl := Option.some.inj file
      exact ⟨low, path, held⟩
    · cases file
  · cases file

theorem dirOf_owns {h stream : Nat} {path : Bytes} (dir : fs.dirOf h = some (stream, path)) :
    Owns fs h (.dir stream) := by
  unfold HostFs.dirOf at dir
  split at dir
  · next low =>
    split at dir
    · next stream' path' held =>
      obtain ⟨rfl, rfl⟩ := Prod.mk.inj (Option.some.inj dir)
      exact ⟨low, path', held⟩
    · cases dir
  · cases dir

/-- A call on the file of a handle uses that file only. -/
theorem onFile_uses {α : Type} (h : Nat) {call : Ledger inUse → Nat → Except Errno α × Ledger inUse}
    (uses : ∀ fd, fs.fileOf h = some fd → Uses fs h t.log (call t fd).2.log) :
    Uses fs h t.log (fs.onFile t h call).2.log := by
  unfold HostFs.onFile
  cases file : fs.fileOf h with
  | none => exact Uses.rfl
  | some fd =>
    have used := uses fd file
    dsimp only
    generalize call t fd = done at *
    obtain ⟨result, t'⟩ := done
    cases result <;> exact used

theorem read_uses (h n : Nat) : Uses fs h t.log (fs.read (Host.watched posix) t h n).2.log :=
  onFile_uses h (fun _ file => Uses.one (fileOf_owns file))

theorem write_uses (h : Nat) (bytes : Bytes) : Uses fs h t.log (fs.write (Host.watched posix) t h bytes).2.log :=
  onFile_uses h (fun _ file => Uses.one (fileOf_owns file))

theorem seek_uses (h offset whence : Nat) :
    Uses fs h t.log (fs.seek (Host.watched posix) t h offset whence).2.log :=
  onFile_uses h (fun _ file => Uses.one (fileOf_owns file))

theorem readLine_uses {h fd : Nat} (file : fs.fileOf h = some fd) (n : Nat) (t : Ledger inUse) (line : Bytes) :
    Uses fs h t.log (HostFs.readLine (Host.watched posix) t fd n line).2.log := by
  induction n generalizing t line with
  | zero => exact Uses.rfl
  | succ n ih =>
    have one : Uses fs h t.log ((Host.watched posix).read t fd 1).2.log := Uses.one (fileOf_owns file)
    rw [HostFs.readLine]
    generalize (Host.watched posix).read t fd 1 = done at *
    obtain ⟨result, t'⟩ := done
    cases result with
    | error errno => exact one
    | ok bytes =>
      cases bytes with
      | nil => exact one
      | cons ch rest =>
        dsimp only
        split
        · exact one
        · exact one.trans (ih t' _)

theorem readln_uses (h maxlen : Nat) : Uses fs h t.log (fs.readln (Host.watched posix) t h maxlen).2.log := by
  unfold HostFs.readln
  split
  · exact Uses.rfl
  · exact onFile_uses h (fun fd file => readLine_uses file _ t [])

theorem writeln_uses (h : Nat) (bytes : Bytes) :
    Uses fs h t.log (fs.writeln (Host.watched posix) t h bytes).2.log := by
  have first : Uses fs h t.log (fs.write (Host.watched posix) t h bytes).2.log := write_uses h bytes
  unfold HostFs.writeln
  generalize fs.write (Host.watched posix) t h bytes = done at *
  obtain ⟨result, t'⟩ := done
  cases result with
  | error status => exact first
  | ok w =>
    dsimp only
    split
    · cases file : fs.fileOf h with
      | none => exact first
      | some fd => exact first.trans (Uses.one (fileOf_owns file))
    · exact first

theorem readdir_uses (h : Nat) : Uses fs h t.log (fs.readdir (Host.watched posix) t h).2.log := by
  unfold HostFs.readdir
  cases dir : fs.dirOf h with
  | none => exact Uses.rfl
  | some found =>
    obtain ⟨stream, path⟩ := found
    have one : Uses fs h t.log ((Host.watched posix).readDir t stream).2.log := Uses.one (dirOf_owns dir)
    dsimp only
    generalize (Host.watched posix).readDir t stream = done at *
    obtain ⟨result, t'⟩ := done
    cases result with
    | none => exact one
    | some name =>
      dsimp only
      split <;> exact one

/-- A call on a path opens and closes nothing. -/
theorem onPath_log {α : Type} (path : Option Bytes) {call : Ledger inUse → Bytes → Except Errno α × Ledger inUse}
    (quiet : ∀ target, (call t target).2.log = t.log) :
    (fs.onPath (Host.watched posix) t path call).2.log = t.log := by
  unfold HostFs.onPath
  cases fs.resolveConfinedPath ((Host.watched posix).realpath t) path with
  | none => rfl
  | some target =>
    have same := quiet target
    dsimp only
    generalize call t target = done at *
    obtain ⟨result, t'⟩ := done
    cases result <;> exact same

theorem rename_log (old new : Option Bytes) : (fs.rename (Host.watched posix) t old new).2.log = t.log := by
  unfold HostFs.rename
  cases fs.resolveConfinedPath ((Host.watched posix).realpath t) old with
  | none => rfl
  | some target =>
    cases fs.resolveConfinedPath ((Host.watched posix).realpath t) new with
    | none => rfl
    | some target' =>
      have same : ((Host.watched posix).rename t target target').2.log = t.log := rfl
      dsimp only
      generalize (Host.watched posix).rename t target target' = done at *
      obtain ⟨result, t'⟩ := done
      cases result <;> exact same

end

/-! ### The table and the log -/

section
variable {fs fs' : HostFs} {log : List HostCall} {h : Nat} {r : Resource}

theorem owns_congr (handles : fs'.handles = fs.handles) (h : Nat) (r : Resource) : Owns fs' h r ↔ Owns fs h r := by
  unfold Owns
  rw [handles]

theorem owns_unique {r' : Resource} (one : Owns fs h r) (two : Owns fs h r') : r = r' := by
  obtain ⟨-, path, held⟩ := one
  obtain ⟨-, path', held'⟩ := two
  have same := Option.some.inj (held.symm.trans held')
  exact congrArg Handle.resource same

theorem owns_setHandle_other (fs : HostFs) {i : Nat} (handle : Option Handle) (other : h ≠ i) :
    Owns (fs.setHandle i handle) h r ↔ Owns fs h r := by
  have same : (fs.setHandle i handle).handles h = fs.handles h := if_neg other
  unfold Owns
  rw [same]

theorem owns_setHandle_here (fs : HostFs) {i : Nat} (low : i < maxHandles) {new : Resource} {path : Bytes} :
    Owns (fs.setHandle i (some ⟨new, path⟩)) i r ↔ r = new := by
  have same : (fs.setHandle i (some ⟨new, path⟩)).handles i = some ⟨new, path⟩ := if_pos rfl
  unfold Owns
  rw [same]
  constructor
  · rintro ⟨-, path', held⟩
    exact (congrArg Handle.resource (Option.some.inj held)).symm
  · rintro rfl
    exact ⟨low, path, rfl⟩

theorem owns_setHandle_none (fs : HostFs) {i : Nat} : ¬ Owns (fs.setHandle i none) i r := by
  rintro ⟨-, path, held⟩
  have same : (fs.setHandle i none).handles i = none := if_pos rfl
  rw [same] at held
  cases held

theorem Owned.congr (owned : Owned fs log) (handles : fs'.handles = fs.handles) : Owned fs' log where
  clean := owned.clean
  owned r member := by
    obtain ⟨h, owns⟩ := owned.owned r member
    exact ⟨h, (owns_congr handles h r).mpr owns⟩
  opened h r owns := owned.opened h r ((owns_congr handles h r).mp owns)
  once h h' r one two := owned.once h h' r ((owns_congr handles h r).mp one) ((owns_congr handles h' r).mp two)

theorem Owned.uses (owned : Owned fs log) {log' : List HostCall} (uses : Uses fs h log log') : Owned fs log' := by
  obtain ⟨calls, rfl, used⟩ := uses
  have same : live (calls ++ log) = live log ∧ Clean (calls ++ log) := by
    induction calls with
    | nil => exact ⟨rfl, owned.clean⟩
    | cons call calls ih =>
      obtain ⟨r, rfl, owns⟩ := used call List.mem_cons_self
      obtain ⟨same, clean⟩ := ih (fun call member => used call (List.mem_cons_of_mem _ member))
      refine ⟨same, ?_, clean⟩
      show r ∈ live (calls ++ log)
      rw [same]
      exact owned.opened h r owns
  exact ⟨same.2, same.1 ▸ owned.owned, same.1 ▸ owned.opened, owned.once⟩

/-- A new resource at a free handle. -/
theorem Owned.enter (owned : Owned fs log) (low : h < maxHandles) (free : fs.handles h = none) (fresh : r ∉ live log)
    (path : Bytes) : Owned (fs.setHandle h (some ⟨r, path⟩)) (.opened r :: log) := by
  have elsewhere {i : Nat} {r' : Resource} (owns : Owns fs i r') : i ≠ h := by
    rintro rfl
    obtain ⟨-, path', held⟩ := owns
    rw [free] at held
    cases held
  refine ⟨⟨fresh, owned.clean⟩, fun r' member => ?_, fun i r' owns => ?_, fun i j r' one two => ?_⟩
  · rcases List.mem_cons.mp member with rfl | earlier
    · exact ⟨h, (owns_setHandle_here fs low).mpr rfl⟩
    · obtain ⟨i, owns⟩ := owned.owned r' earlier
      exact ⟨i, (owns_setHandle_other fs _ (elsewhere owns)).mpr owns⟩
  · by_cases here : i = h
    · rw [here, owns_setHandle_here fs low] at owns
      rw [owns]
      exact List.mem_cons_self
    · exact List.mem_cons_of_mem _ (owned.opened i r' ((owns_setHandle_other fs _ here).mp owns))
  · by_cases here : i = h
    · by_cases here' : j = h
      · exact here.trans here'.symm
      · rw [here, owns_setHandle_here fs low] at one
        rw [owns_setHandle_other fs _ here', one] at two
        exact absurd (owned.opened j r two) fresh
    · rw [owns_setHandle_other fs _ here] at one
      by_cases here' : j = h
      · rw [here', owns_setHandle_here fs low] at two
        rw [two] at one
        exact absurd (owned.opened i r one) fresh
      · exact owned.once i j r' one ((owns_setHandle_other fs _ here').mp two)

/-- A handle gives up what it owns, which is closed. -/
theorem Owned.leave (owned : Owned fs log) (nodup : (live log).Nodup) (owns : Owns fs h r) :
    Owned (fs.setHandle h none) (.closed r :: log) := by
  have elsewhere {i : Nat} {r' : Resource} (left : Owns (fs.setHandle h none) i r') : i ≠ h := by
    rintro rfl
    exact owns_setHandle_none fs left
  have before {i : Nat} {r' : Resource} (left : Owns (fs.setHandle h none) i r') : Owns fs i r' :=
    (owns_setHandle_other fs _ (elsewhere left)).mp left
  refine ⟨⟨owned.opened h r owns, owned.clean⟩, fun r' member => ?_, fun i r' left => ?_, fun i j r' one two => ?_⟩
  · obtain ⟨apart, earlier⟩ := nodup.mem_erase_iff.mp member
    obtain ⟨i, owns'⟩ := owned.owned r' earlier
    have other : i ≠ h := by
      rintro rfl
      exact apart (owns_unique owns' owns)
    exact ⟨i, (owns_setHandle_other fs _ other).mpr owns'⟩
  · refine nodup.mem_erase_iff.mpr ⟨?_, owned.opened i r' (before left)⟩
    rintro rfl
    exact elsewhere left (owned.once i h r' (before left) owns)
  · exact owned.once i j r' (before one) (before two)

/-- What is opened and closed at once belongs to no handle. -/
theorem Owned.refuse (owned : Owned fs log) (fresh : r ∉ live log) : Owned fs (.closed r :: .opened r :: log) := by
  have same : live (.closed r :: .opened r :: log) = live log := List.erase_cons_head _ _
  refine ⟨⟨List.mem_cons_self, fresh, owned.clean⟩, ?_, ?_, owned.once⟩
  · rw [same]
    exact owned.owned
  · rw [same]
    exact owned.opened

/-- A new resource at a handle in use: what it owned is closed. -/
theorem Owned.replace (owned : Owned fs log) {old : Resource} (owns : Owns fs h old)
    (nodup : (live (.opened r :: log)).Nodup) (path : Bytes) :
    Owned (fs.setHandle h (some ⟨r, path⟩)) (.closed old :: .opened r :: log) := by
  have fresh : r ∉ live log := (List.nodup_cons.mp nodup).1
  have apart : old ≠ r := fun same => fresh (same ▸ owned.opened h old owns)
  have low : h < maxHandles := owns.1
  refine ⟨⟨List.mem_cons_of_mem _ (owned.opened h old owns), fresh, owned.clean⟩, fun r' member => ?_,
    fun i r' now => ?_, fun i j r' one two => ?_⟩
  · obtain ⟨left, earlier⟩ := nodup.mem_erase_iff.mp member
    rcases List.mem_cons.mp earlier with rfl | before
    · exact ⟨h, (owns_setHandle_here fs low).mpr rfl⟩
    · obtain ⟨i, owns'⟩ := owned.owned r' before
      have other : i ≠ h := by
        rintro rfl
        exact left (owns_unique owns' owns)
      exact ⟨i, (owns_setHandle_other fs _ other).mpr owns'⟩
  · by_cases here : i = h
    · rw [here, owns_setHandle_here fs low] at now
      rw [now]
      exact nodup.mem_erase_iff.mpr ⟨apart.symm, List.mem_cons_self⟩
    · rw [owns_setHandle_other fs _ here] at now
      refine nodup.mem_erase_iff.mpr ⟨?_, List.mem_cons_of_mem _ (owned.opened i r' now)⟩
      rintro rfl
      exact here (owned.once i h r' now owns)
  · by_cases here : i = h
    · by_cases here' : j = h
      · exact here.trans here'.symm
      · rw [here, owns_setHandle_here fs low] at one
        rw [owns_setHandle_other fs _ here', one] at two
        exact absurd (owned.opened j r two) fresh
    · rw [owns_setHandle_other fs _ here] at one
      by_cases here' : j = h
      · rw [here', owns_setHandle_here fs low] at two
        rw [two] at one
        exact absurd (owned.opened i r one) fresh
      · exact owned.once i j r' one ((owns_setHandle_other fs _ here').mp two)

end

/-! ### Commands -/

section
variable {σ : Type} {inUse : σ → Finset Resource} {host : Host σ} {posix : Posix host inUse}

/-- Everything a command can do to the table and the log. -/
inductive Effect (posix : Posix host inUse) (dev : Device (Ledger inUse)) : HostFs → List HostCall → Prop
  | used {fs : HostFs} {log : List HostCall} (handles : fs.handles = dev.fs.handles)
      (uses : Uses dev.fs dev.shared.d0 dev.host.log log) : Effect posix dev fs log
  | entered {h : Nat} {r : Resource} {path : Bytes} (low : h < maxHandles) (free : dev.fs.handles h = none)
      (fresh : r ∉ live dev.host.log) (kind : ∀ stream, r = .dir stream → dev.shared.command = .opendir) :
      Effect posix dev (dev.fs.setHandle h (some ⟨r, path⟩)) (.opened r :: dev.host.log)
  | refused {r : Resource} (fresh : r ∉ live dev.host.log) :
      Effect posix dev dev.fs (.closed r :: .opened r :: dev.host.log)
  | replaced {fd : Nat} {old : Resource} {path : Bytes} (opens : HostOpens posix dev)
      (owns : Owns dev.fs dev.shared.d0 old) (nodup : (live (.opened (.file fd) :: dev.host.log)).Nodup) :
      Effect posix dev (dev.fs.setHandle dev.shared.d0 (some ⟨.file fd, path⟩))
        (.closed old :: .opened (.file fd) :: dev.host.log)
  | closed {r : Resource} (command : dev.shared.command = .close) (owns : Owns dev.fs dev.shared.d0 r) :
      Effect posix dev (dev.fs.setHandle dev.shared.d0 none) (.closed r :: dev.host.log)
  | cleaned (command : dev.shared.command = .term) :
      Effect posix dev (dev.fs.cleanup (Host.watched posix) dev.host).1
        (dev.fs.cleanup (Host.watched posix) dev.host).2.log
  | cleared {fs : HostFs} {first : UInt8} {rest : Bytes} (command : dev.shared.command = .init)
      (path : dev.ram.text dev.shared.a0 = some (first :: rest)) (empty : ∀ h, fs.handles h = none) :
      Effect posix dev fs dev.host.log

variable {dev : Device (Ledger inUse)}

/-- The host has opened the file of a command, or has not. -/
theorem openHost_log (fs : HostFs) (t : Ledger inUse) (path : Option Bytes) (access : Access) (create : Option Nat) :
    (∃ status, (fs.openHost (Host.watched posix) t path access create).1 = .error status ∧
      (fs.openHost (Host.watched posix) t path access create).2.log = t.log) ∨
    ∃ fd target, (fs.openHost (Host.watched posix) t path access create).1 = .ok (fd, target) ∧
      (fs.openHost (Host.watched posix) t path access create).2.log = .opened (.file fd) :: t.log := by
  unfold HostFs.openHost
  cases fs.resolveConfinedPath ((Host.watched posix).realpath t) path with
  | none => exact Or.inl ⟨_, rfl, rfl⟩
  | some target =>
    have log := watched_openFile posix t target access create
    dsimp only
    generalize (Host.watched posix).openFile t target access create = done at *
    obtain ⟨result, t'⟩ := done
    cases result with
    | error errno => exact Or.inl ⟨_, rfl, log⟩
    | ok fd => exact Or.inr ⟨fd, target, rfl, log⟩

theorem closeHandle_log (t : Ledger inUse) (handle : Handle) :
    (HostFs.closeHandle (Host.watched posix) t (some handle)).log = .closed handle.resource :: t.log := by
  obtain ⟨resource, path⟩ := handle
  cases resource <;> rfl

/-- A file opened at the index d0. -/
theorem enterFileAt_effect {opened : Except Nat (Nat × Bytes) × Ledger inUse}
    (log : (∃ status, opened.1 = .error status ∧ opened.2.log = dev.host.log) ∨
      ∃ fd target, opened.1 = .ok (fd, target) ∧ opened.2.log = .opened (.file fd) :: dev.host.log)
    (opens : (∃ fd target, opened.1 = .ok (fd, target)) → HostOpens posix dev) :
    Effect posix dev (dev.fs.enterFileAt (Host.watched posix) dev.shared.d0 opened).2.1
      (dev.fs.enterFileAt (Host.watched posix) dev.shared.d0 opened).2.2.log := by
  obtain ⟨result, t⟩ := opened
  rcases log with ⟨status, failed, same⟩ | ⟨fd, target, done, grown⟩
  · dsimp only at failed same
    subst failed
    refine .used rfl ?_
    show Uses _ _ _ t.log
    rw [same]
    exact Uses.rfl
  · have takes := opens ⟨fd, target, done⟩
    dsimp only at done grown
    subst done
    have nodup := t.nodup
    rw [grown] at nodup
    have fresh : Resource.file fd ∉ live dev.host.log := (List.nodup_cons.mp nodup).1
    unfold HostFs.enterFileAt
    dsimp only
    split
    · have log : ((Host.watched posix).closeFile t fd).log = .closed (.file fd) :: .opened (.file fd) :: dev.host.log := by
        rw [← grown]
        rfl
      dsimp only
      rw [log]
      exact .refused fresh
    · next inside =>
      have low : dev.shared.d0 < maxHandles := by omega
      dsimp only
      cases held : dev.fs.handles dev.shared.d0 with
      | none =>
        have log : (HostFs.closeHandle (Host.watched posix) t none).log = .opened (.file fd) :: dev.host.log := grown
        rw [log]
        exact .entered low held fresh (fun _ other => by cases other)
      | some old =>
        rw [closeHandle_log, grown]
        exact .replaced takes ⟨low, old.path, held⟩ nodup

theorem errnoToDhf_ne (errno : Errno) : errnoToDhf errno ≠ errOk := by
  cases errno with
  | other code => exact (by decide : errError ≠ errOk)
  | _ => decide

/-- An OPENDIR fails and keeps nothing, or puts a new stream at a free handle. -/
theorem opendir_cases (posix : Posix host inUse) (fs : HostFs) (t : Ledger inUse) (path : Option Bytes) :
    (∃ status, status ≠ errOk ∧ (fs.opendir (Host.watched posix) t path).1 = .error status ∧
      (fs.opendir (Host.watched posix) t path).2.1 = fs ∧
      ((fs.opendir (Host.watched posix) t path).2.2.log = t.log ∨ ∃ stream, Resource.dir stream ∉ live t.log ∧
        (fs.opendir (Host.watched posix) t path).2.2.log = .closed (.dir stream) :: .opened (.dir stream) :: t.log)) ∨
    ∃ h stream target, h < maxHandles ∧ fs.handles h = none ∧ Resource.dir stream ∉ live t.log ∧
      (fs.opendir (Host.watched posix) t path).1 = .ok h ∧
      (fs.opendir (Host.watched posix) t path).2.1 = fs.setHandle h (some ⟨.dir stream, target⟩) ∧
      (fs.opendir (Host.watched posix) t path).2.2.log = .opened (.dir stream) :: t.log := by
  unfold HostFs.opendir
  cases fs.resolveConfinedPath ((Host.watched posix).realpath t) path with
  | none => exact Or.inl ⟨errNoPermission, by decide, rfl, rfl, Or.inl rfl⟩
  | some target =>
    have log := watched_openDir posix t target
    dsimp only
    generalize (Host.watched posix).openDir t target = done at *
    obtain ⟨result, t'⟩ := done
    cases result with
    | error errno => exact Or.inl ⟨_, errnoToDhf_ne errno, rfl, rfl, Or.inl log⟩
    | ok stream =>
      have grown : t'.log = .opened (.dir stream) :: t.log := log
      have nodup := t'.nodup
      rw [grown] at nodup
      have fresh : Resource.dir stream ∉ live t.log := (List.nodup_cons.mp nodup).1
      dsimp only
      cases found : fs.freeHandle with
      | none =>
        have closed : ((Host.watched posix).closeDir t' stream).log =
            .closed (.dir stream) :: .opened (.dir stream) :: t.log := by
          rw [← grown]
          rfl
        exact Or.inl ⟨errPathFull, by decide, rfl, rfl, Or.inr ⟨stream, fresh, closed⟩⟩
      | some h =>
        obtain ⟨low, free⟩ := freeHandle_some found
        exact Or.inr ⟨h, stream, _, low, free, fresh, rfl, rfl, grown⟩

theorem opendir_effect (command : dev.shared.command = .opendir) (path : Option Bytes) :
    Effect posix dev (dev.fs.opendir (Host.watched posix) dev.host path).2.1
      (dev.fs.opendir (Host.watched posix) dev.host path).2.2.log := by
  rcases opendir_cases posix dev.fs dev.host path with
    ⟨status, -, -, fs, log | ⟨stream, fresh, log⟩⟩ | ⟨h, stream, target, low, free, fresh, -, fs, log⟩
  · rw [fs, log]
    exact .used rfl Uses.rfl
  · rw [fs, log]
    exact .refused fresh
  · rw [fs, log]
    exact .entered low free fresh (fun _ _ => command)

theorem close_effect (command : dev.shared.command = .close) :
    Effect posix dev (dev.fs.close (Host.watched posix) dev.host dev.shared.d0).2.1
      (dev.fs.close (Host.watched posix) dev.host dev.shared.d0).2.2.log := by
  unfold HostFs.close
  split
  · next low =>
    cases held : dev.fs.handles dev.shared.d0 with
    | none => exact .used rfl Uses.rfl
    | some handle =>
      have log : (HostFs.closeResource (Host.watched posix) dev.host handle.resource).log =
          .closed handle.resource :: dev.host.log := closeHandle_log dev.host handle
      dsimp only
      rw [log]
      exact .closed command ⟨low, handle.path, held⟩
  · exact .used rfl Uses.rfl

end

section
variable {σ : Type} {inUse : σ → Finset Resource} {host : Host σ} {posix : Posix host inUse}
  {dev : Device (Ledger inUse)}

/-- A command that leaves table and log alone. -/
theorem Effect.same {fs : HostFs} {log : List HostCall} (handles : fs.handles = dev.fs.handles)
    (quiet : log = dev.host.log) : Effect posix dev fs log := by
  rw [quiet]
  exact .used handles Uses.rfl

theorem giveBytes_fs (dev : Device (Ledger inUse)) (done : Except Nat Bytes × Ledger inUse) :
    (dev.giveBytes done).fs = dev.fs ∧ (dev.giveBytes done).host = done.2 := by
  obtain ⟨result, t⟩ := done
  cases result <;> exact ⟨rfl, rfl⟩

theorem giveBytes_effect {done : Except Nat Bytes × Ledger inUse} (uses : Uses dev.fs dev.shared.d0 dev.host.log done.2.log) :
    Effect posix dev (dev.giveBytes done).fs (dev.giveBytes done).host.log := by
  obtain ⟨fs, state⟩ := giveBytes_fs dev done
  rw [fs, state]
  exact .used rfl uses

theorem process_effect (posix : Posix host inUse) (dev : Device (Ledger inUse)) :
    Effect posix dev (dev.process (Host.watched posix)).fs (dev.process (Host.watched posix)).host.log := by
  show Effect posix dev (dev.processLocal (Host.watched posix)).fs (dev.processLocal (Host.watched posix)).host.log
  unfold Device.processLocal
  dsimp only
  cases command : dev.shared.command with
  | idle => exact .same rfl rfl
  | ret => exact .same rfl rfl
  | unknown => exact .same rfl rfl
  | ping => exact .same rfl rfl
  | setstt => exact .same rfl rfl
  | init =>
    cases path : dev.ram.text dev.shared.a0 with
    | none => exact .same rfl rfl
    | some bytes =>
      cases bytes with
      | nil => exact .same rfl rfl
      | cons first rest => exact .cleared command path (fun _ => rfl)
  | term => exact .cleaned command
  | openPath =>
    refine enterFileAt_effect (openHost_log _ _ _ _ _) (fun taken => ?_)
    unfold HostOpens
    rw [command]
    exact taken
  | create =>
    refine enterFileAt_effect (openHost_log _ _ _ _ _) (fun taken => ?_)
    unfold HostOpens
    rw [command]
    exact taken
  | close => exact close_effect command
  | read =>
    dsimp only
    split
    · exact giveBytes_effect (read_uses _ _)
    · exact .same rfl rfl
  | write =>
    dsimp only
    split
    · exact .used rfl (write_uses _ _)
    · exact .same rfl rfl
  | seek => exact .used rfl (seek_uses _ _ _)
  | readln => exact giveBytes_effect (readln_uses _ _)
  | writeln =>
    dsimp only
    split
    · exact .used rfl (writeln_uses _ _)
    · exact .same rfl rfl
  | getstt =>
    dsimp only
    cases dev.fs.getstat (Host.watched posix) dev.host (dev.ram.text dev.shared.a0) <;> exact .same rfl rfl
  | chdir =>
    refine .same ?_ rfl
    dsimp only
    unfold HostFs.chdir
    cases dev.fs.resolveConfinedPath ((Host.watched posix).realpath dev.host) (dev.ram.text dev.shared.a0) with
    | none => rfl
    | some target =>
      dsimp only
      cases (Host.watched posix).stat dev.host target with
      | error errno => rfl
      | ok stat =>
        dsimp only
        split <;> rfl
  | mkdir => exact .same rfl (onPath_log _ (fun _ => rfl))
  | rmdir => exact .same rfl (onPath_log _ (fun _ => rfl))
  | delete => exact .same rfl (onPath_log _ (fun _ => rfl))
  | rename => exact .same rfl (rename_log _ _)
  | opendir => exact opendir_effect command _
  | readdir =>
    have uses : Uses dev.fs dev.shared.d0 dev.host.log
        (dev.fs.readdir (Host.watched posix) dev.host dev.shared.d0).2.log := readdir_uses _
    dsimp only
    generalize dev.fs.readdir (Host.watched posix) dev.host dev.shared.d0 = done at *
    obtain ⟨result, t⟩ := done
    cases result with
    | error status => exact .used rfl uses
    | ok entry =>
      cases entry with
      | none => exact .used rfl uses
      | some entry =>
        dsimp only
        split <;> exact .used rfl uses

/-! ### Keeping the table -/

/-- Closing every handle closes all there is. -/
theorem cleanupFrom_owned (l : List Nat) (low : ∀ i ∈ l, i < maxHandles) {fs : HostFs} {t : Ledger inUse}
    (owned : Owned fs t.log) :
    Owned (fs.cleanupFrom (Host.watched posix) t l).1 (fs.cleanupFrom (Host.watched posix) t l).2.log ∧
      ∀ i r, Owns (fs.cleanupFrom (Host.watched posix) t l).1 i r → Owns fs i r ∧ i ∉ l := by
  induction l generalizing fs t with
  | nil => exact ⟨owned, fun i r owns => ⟨owns, List.not_mem_nil⟩⟩
  | cons i rest ih =>
    have later := fun j member => low j (List.mem_cons_of_mem i member)
    have first : Owned (fs.setHandle i none) (HostFs.closeHandle (Host.watched posix) t (fs.handles i)).log := by
      cases held : fs.handles i with
      | none =>
        refine owned.congr (funext fun j => ?_)
        by_cases here : j = i
        · rw [here, held]
          exact if_pos rfl
        · exact if_neg here
      | some handle =>
        rw [closeHandle_log]
        exact owned.leave t.nodup ⟨low i List.mem_cons_self, handle.path, held⟩
    obtain ⟨kept, left⟩ := ih later first
    refine ⟨kept, fun j r owns => ?_⟩
    obtain ⟨owns', out⟩ := left j r owns
    have other : j ≠ i := by
      rintro rfl
      exact owns_setHandle_none fs owns'
    exact ⟨(owns_setHandle_other fs none other).mp owns', fun member => (List.mem_cons.mp member).elim other out⟩

theorem cleanup_owned {fs : HostFs} {t : Ledger inUse} (owned : Owned fs t.log) :
    Owned (fs.cleanup (Host.watched posix) t).1 (fs.cleanup (Host.watched posix) t).2.log ∧
      ∀ i r, ¬ Owns (fs.cleanup (Host.watched posix) t).1 i r := by
  obtain ⟨kept, left⟩ := cleanupFrom_owned (List.range maxHandles) (fun i member => List.mem_range.mp member) owned
  refine ⟨kept, fun i r owns => ?_⟩
  obtain ⟨⟨low, -⟩, out⟩ := left i r owns
  exact out (List.mem_range.mpr low)

/-- The table stays right unless an INIT drops handles in use. -/
theorem effect_owned {fs : HostFs} {log : List HostCall} (owned : Owned dev.fs dev.host.log)
    (careful : Careful posix dev) (effect : Effect posix dev fs log) : Owned fs log := by
  cases effect with
  | used handles uses => exact (owned.uses uses).congr handles
  | entered low free fresh _ => exact owned.enter low free fresh _
  | refused fresh => exact owned.refuse fresh
  | replaced _ owns nodup => exact owned.replace owns nodup _
  | closed _ owns => exact owned.leave dev.host.nodup owns
  | cleaned _ => exact (cleanup_owned owned).1
  | cleared command path empty =>
    have before := careful.init command _ _ path
    have after (h : Nat) (r : Resource) : ¬ Owns fs h r := by
      rintro ⟨-, path', held⟩
      rw [empty h] at held
      cases held
    refine ⟨owned.clean, fun r member => ?_, fun h r owns => absurd owns (after h r),
      fun h h' r owns => absurd owns (after h r)⟩
    obtain ⟨h, owns⟩ := owned.owned r member
    exact absurd owns (before h r)

/-! ### The directory handles of the guest -/

/-- The guest knows exactly the handles that own a directory. -/
def Known (fs : HostFs) (given : List (Nat × Nat)) : Prop :=
  ∀ h stream, Owns fs h (.dir stream) ↔ (h, stream) ∈ given

theorem Known.setHandle_file {fs : HostFs} {given : List (Nat × Nat)} (known : Known fs given) {i fd : Nat} {path : Bytes}
    (low : i < maxHandles) (noDir : ∀ stream, ¬ Owns fs i (.dir stream)) :
    Known (fs.setHandle i (some ⟨.file fd, path⟩)) given := by
  intro h stream
  by_cases here : h = i
  · subst here
    rw [owns_setHandle_here fs low, ← known h stream]
    constructor
    · rintro ⟨⟩
    · exact fun owns => absurd owns (noDir stream)
  · rw [owns_setHandle_other fs _ here]
    exact known h stream

/-- Every command but OPENDIR, CLOSE and TERM leaves the directories alone. -/
theorem effect_known {fs : HostFs} {log : List HostCall} {given : List (Nat × Nat)} (known : Known dev.fs given)
    (careful : Careful posix dev) (opendir : dev.shared.command ≠ .opendir) (close : dev.shared.command ≠ .close)
    (term : dev.shared.command ≠ .term) (effect : Effect posix dev fs log) : Known fs given := by
  cases effect with
  | used handles _ => exact fun h stream => (owns_congr handles h _).trans (known h stream)
  | entered low free fresh kind =>
    rename_i i r path
    cases r with
    | dir stream => exact absurd (kind stream rfl) opendir
    | file fd =>
      refine known.setHandle_file low ?_
      rintro stream ⟨-, path', held⟩
      rw [free] at held
      cases held
  | refused _ => exact known
  | replaced opens owns _ => exact known.setHandle_file owns.1 (careful.index opens)
  | closed command _ => exact absurd command close
  | cleaned command => exact absurd command term
  | cleared command path empty =>
    intro h stream
    rw [← known h stream]
    constructor
    · rintro ⟨-, path', held⟩
      rw [empty h] at held
      cases held
    · exact fun owns => absurd owns (careful.init command _ _ path h _)

theorem opendir_known {given : List (Nat × Nat)} (known : Known dev.fs given) (command : dev.shared.command = .opendir) :
    Known (dev.process (Host.watched posix)).fs (givenAfter dev (dev.process (Host.watched posix)) given) := by
  have fs : (dev.process (Host.watched posix)).fs =
      (dev.fs.opendir (Host.watched posix) dev.host (dev.ram.text dev.shared.a0)).2.1 := by
    simp [Device.process, Device.processLocal, command, Device.giveHandle]
  have shared : (dev.process (Host.watched posix)).shared =
      { (dev.giveHandle (dev.fs.opendir (Host.watched posix) dev.host (dev.ram.text dev.shared.a0))).shared with
        command := .idle } := by
    simp [Device.process, Device.processLocal, command]
  unfold givenAfter
  rw [command]
  dsimp only
  rcases opendir_cases posix dev.fs dev.host (dev.ram.text dev.shared.a0) with
    ⟨status, failed, result, same, -⟩ | ⟨h, stream, target, low, free, -, result, entered, -⟩
  · have stays : (dev.process (Host.watched posix)).shared.status = status := by
      rw [shared]
      simp [Device.giveHandle, result]
    rw [stays, fs, same]
    split
    · exact absurd rfl failed
    · exact known
  · have index : (dev.process (Host.watched posix)).shared.d0 = h := by
      rw [shared]
      simp [Device.giveHandle, result]
    have done : (dev.process (Host.watched posix)).shared.status = 0 := by
      rw [shared]
      simp [Device.giveHandle, result, errOk]
    have held : (dev.fs.setHandle h (some ⟨.dir stream, target⟩)).handles h = some ⟨.dir stream, target⟩ := if_pos rfl
    rw [index, done, fs, entered, held]
    intro i stream'
    by_cases here : i = h
    · subst here
      rw [owns_setHandle_here dev.fs low]
      have unknown : (i, stream') ∉ given := by
        rw [← known i stream']
        rintro ⟨-, path, taken⟩
        rw [free] at taken
        cases taken
      simp [unknown]
    · rw [owns_setHandle_other dev.fs _ here, known i stream']
      simp [here]

theorem close_known {given : List (Nat × Nat)} (known : Known dev.fs given) (command : dev.shared.command = .close) :
    Known (dev.process (Host.watched posix)).fs (givenAfter dev (dev.process (Host.watched posix)) given) := by
  have fs : (dev.process (Host.watched posix)).fs = (dev.fs.close (Host.watched posix) dev.host dev.shared.d0).2.1 := by
    simp [Device.process, Device.processLocal, command]
  have left (h stream : Nat) : Owns (dev.fs.close (Host.watched posix) dev.host dev.shared.d0).2.1 h (.dir stream) ↔
      Owns dev.fs h (.dir stream) ∧ h ≠ dev.shared.d0 := by
    have absent (free : ¬ ∃ r, Owns dev.fs dev.shared.d0 r) :
        Owns dev.fs h (.dir stream) ↔ Owns dev.fs h (.dir stream) ∧ h ≠ dev.shared.d0 := by
      refine ⟨fun owns => ⟨owns, ?_⟩, And.left⟩
      rintro rfl
      exact free ⟨_, owns⟩
    unfold HostFs.close
    split
    · cases held : dev.fs.handles dev.shared.d0 with
      | none =>
        refine absent ?_
        rintro ⟨r, -, path, taken⟩
        rw [held] at taken
        cases taken
      | some handle =>
        dsimp only
        by_cases here : h = dev.shared.d0
        · subst here
          exact ⟨fun owns => absurd owns (owns_setHandle_none dev.fs), fun owns => absurd rfl owns.2⟩
        · rw [owns_setHandle_other dev.fs _ here]
          exact (and_iff_left here).symm
    · next high =>
      refine absent ?_
      rintro ⟨r, low, -⟩
      exact high low
  intro h stream
  unfold givenAfter
  rw [fs, left h stream, known h stream, command]
  simp

theorem process_known {given : List (Nat × Nat)} (owned : Owned dev.fs dev.host.log) (known : Known dev.fs given)
    (careful : Careful posix dev) :
    Known (dev.process (Host.watched posix)).fs (givenAfter dev (dev.process (Host.watched posix)) given) := by
  by_cases opendir : dev.shared.command = .opendir
  · exact opendir_known known opendir
  · by_cases close : dev.shared.command = .close
    · exact close_known known close
    · by_cases term : dev.shared.command = .term
      · have fs : (dev.process (Host.watched posix)).fs = (dev.fs.cleanup (Host.watched posix) dev.host).1 := by
          simp [Device.process, Device.processLocal, term]
        intro h stream
        unfold givenAfter
        rw [fs, term]
        have none : ¬ Owns (dev.fs.cleanup (Host.watched posix) dev.host).1 h (.dir stream) :=
          (cleanup_owned owned).2 h _
        simp [none]
      · have same : givenAfter dev (dev.process (Host.watched posix)) given = given := by
          unfold givenAfter
          split
          · next command => exact absurd command opendir
          · next command => exact absurd command close
          · next command => exact absurd command term
          · rfl
        rw [same]
        exact effect_known known careful opendir close term (process_effect posix dev)

/-- A file opened at the index of a handle takes its place. -/
theorem hostOpens_places (opens : HostOpens posix dev) (low : dev.shared.d0 < maxHandles) (given : List (Nat × Nat)) :
    ∃ fd path, (dev.process (Host.watched posix)).fs = dev.fs.setHandle dev.shared.d0 (some ⟨.file fd, path⟩) ∧
      givenAfter dev (dev.process (Host.watched posix)) given = given := by
  have inside : ¬ dev.shared.d0 ≥ maxHandles := by omega
  have places {opened : Except Nat (Nat × Bytes) × Ledger inUse} (ok : ∃ fd target, opened.1 = .ok (fd, target)) :
      ∃ fd path, (dev.fs.enterFileAt (Host.watched posix) dev.shared.d0 opened).2.1 =
        dev.fs.setHandle dev.shared.d0 (some ⟨.file fd, path⟩) := by
    obtain ⟨fd, target, ok⟩ := ok
    obtain ⟨result, t⟩ := opened
    obtain rfl : result = .ok (fd, target) := ok
    unfold HostFs.enterFileAt
    dsimp only
    rw [if_neg inside]
    exact ⟨fd, _, rfl⟩
  unfold HostOpens at opens
  split at opens
  · next command =>
    obtain ⟨fd, path, placed⟩ := places opens
    refine ⟨fd, path, ?_, by simp [givenAfter, command]⟩
    rw [← placed]
    simp [Device.process, Device.processLocal, command, Device.giveHandle, HostFs.openAt]
  · next command =>
    obtain ⟨fd, path, placed⟩ := places opens
    refine ⟨fd, path, ?_, by simp [givenAfter, command]⟩
    rw [← placed]
    simp [Device.process, Device.processLocal, command, Device.giveHandle, HostFs.createAt]
  · exact opens.elim

/-- An INIT with a path leaves no handle and calls nothing. -/
theorem init_clears (posix : Posix host inUse) (command : dev.shared.command = .init) {first : UInt8} {rest : Bytes}
    (path : dev.ram.text dev.shared.a0 = some (first :: rest)) :
    (∀ h, (dev.process (Host.watched posix)).fs.handles h = none) ∧
      (dev.process (Host.watched posix)).host.log = dev.host.log := by
  simp [Device.process, Device.processLocal, command, path, HostFs.init]

end

/-! ### Runs -/

section
variable {σ : Type} {inUse : σ → Finset Resource} {host : Host σ} {posix : Posix host inUse}
  {dev : Device (Ledger inUse)}

theorem cleanupFrom_calls (posix : Posix host inUse) (l : List Nat) (fs : HostFs) (t : Ledger inUse) :
    ∃ calls, (fs.cleanupFrom (Host.watched posix) t l).2.log = calls ++ t.log ∧ ∀ r, HostCall.used r ∉ calls := by
  induction l generalizing fs t with
  | nil => exact ⟨[], rfl, fun _ => List.not_mem_nil⟩
  | cons i rest ih =>
    obtain ⟨calls, log, quiet⟩ := ih (fs.setHandle i none) (HostFs.closeHandle (Host.watched posix) t (fs.handles i))
    cases held : fs.handles i with
    | none =>
      rw [held] at log
      refine ⟨calls, ?_, quiet⟩
      rw [HostFs.cleanupFrom, held]
      exact log
    | some handle =>
      rw [held, closeHandle_log] at log
      refine ⟨calls ++ [.closed handle.resource], ?_, fun r member => ?_⟩
      · rw [HostFs.cleanupFrom, held, log, List.append_assoc]
        rfl
      · rcases List.mem_append.mp member with earlier | closed
        · exact quiet r earlier
        · cases List.mem_singleton.mp closed

/-- A command uses nothing but what its handle owns. -/
def Issued (dev dev' : Device (Ledger inUse)) : Prop :=
  ∃ calls, dev'.host.log = calls ++ dev.host.log ∧ ∀ r, .used r ∈ calls → Owns dev.fs dev.shared.d0 r

theorem process_issued (dev : Device (Ledger inUse)) : Issued dev (dev.process (Host.watched posix)) := by
  have effect := process_effect posix dev
  unfold Issued
  generalize (dev.process (Host.watched posix)).host.log = log at *
  generalize (dev.process (Host.watched posix)).fs = fs at *
  cases effect with
  | used handles uses =>
    obtain ⟨calls, log, owned⟩ := uses
    refine ⟨calls, log, fun r member => ?_⟩
    obtain ⟨r', same, owns⟩ := owned _ member
    cases same
    exact owns
  | entered => exact ⟨[_], rfl, by simp⟩
  | refused => exact ⟨[_, _], rfl, by simp⟩
  | replaced => exact ⟨[_, _], rfl, by simp⟩
  | closed => exact ⟨[_], rfl, by simp⟩
  | cleaned _ =>
    obtain ⟨calls, log, quiet⟩ := cleanupFrom_calls posix (List.range maxHandles) dev.fs dev.host
    exact ⟨calls, log, fun r member => absurd member (quiet r)⟩
  | cleared => exact ⟨[], rfl, by simp⟩

/-- Table and guest agree. -/
structure Kept (g : Guest inUse) : Prop where
  owned : Owned g.dev.fs g.dev.host.log
  known : Known g.dev.fs g.given

theorem Kept.faithful {g : Guest inUse} (kept : Kept g) : Faithful g :=
  ⟨kept.owned, fun given member => (kept.known given.1 given.2).mpr member⟩

theorem obey_kept {g g' : Guest inUse} {order : Order} (kept : Kept g) (careful : Careful posix (g.dev.ordered order))
    (obeyed : obey posix g order = some g') : Kept g' := by
  obtain rfl := Option.some.inj obeyed
  have owned : Owned (g.dev.ordered order).fs (g.dev.ordered order).host.log := kept.owned
  have known : Known (g.dev.ordered order).fs g.given := kept.known
  exact ⟨effect_owned owned careful (process_effect posix (g.dev.ordered order)), process_known owned known careful⟩

/-- A careless command shows at once. -/
theorem obey_careful {g g' : Guest inUse} {order : Order} (kept : Kept g) (obeyed : obey posix g order = some g')
    (faithful : Faithful g') : Careful posix (g.dev.ordered order) := by
  obtain rfl := Option.some.inj obeyed
  constructor
  · intro command first rest path h r owns
    obtain ⟨empty, log⟩ := init_clears posix command path
    have member := kept.owned.opened h r owns
    obtain ⟨h', -, path', held⟩ := faithful.owned.owned r (log ▸ member)
    rw [empty h'] at held
    cases held
  · intro opens stream owns
    obtain ⟨fd, path, placed, same⟩ := hostOpens_places opens owns.1 g.given
    have member := (kept.known _ stream).mp owns
    have still : Owns _ _ (.dir stream) := faithful.valid (_, stream) (same ▸ member)
    dsimp only at still
    rw [placed, owns_setHandle_here _ owns.1] at still
    cases still

/-- The device as `dhf_host_fs_init` leaves it. -/
def Guest.start (posix : Posix host inUse) (s : σ) (basepath : Option Bytes) (ram : Ram) (shared : Shared) : Guest inUse :=
  ⟨⟨HostFs.init (Host.watched posix) (Ledger.begin s) basepath, Ledger.begin s, ram, shared⟩, []⟩

theorem start_kept (s : σ) (basepath : Option Bytes) (ram : Ram) (shared : Shared) :
    Kept (Guest.start posix s basepath ram shared) := by
  have free (h : Nat) (r : Resource) : ¬ Owns (Guest.start posix s basepath ram shared).dev.fs h r := by
    rintro ⟨-, path, held⟩
    cases held
  refine ⟨⟨trivial, fun r member => absurd member List.not_mem_nil, fun h r owns => absurd owns (free h r),
    fun h h' r owns => absurd owns (free h r)⟩, fun h stream => ?_⟩
  exact ⟨fun owns => absurd owns (free h _), fun member => absurd member List.not_mem_nil⟩

/-- In every state of every run, what the device has open on the host belongs to one handle and the
directory handles given out are valid, if and only if no INIT drops handles in use and no file is
opened at the index of a directory. Whatever the guest does, a call uses what its handle owns. -/
theorem handle_table_faithful (posix : Posix host inUse) (s : σ) (basepath : Option Bytes) (ram : Ram) (shared : Shared)
    (orders : List Order) :
    (RunMeets (obey posix) (fun g order => Careful posix (g.dev.ordered order))
        (Guest.start posix s basepath ram shared) orders ↔
      ∀ front back g, orders = front ++ back →
        run (obey posix) (Guest.start posix s basepath ram shared) front = some g → Faithful g) ∧
    ∀ front order back g g', orders = front ++ order :: back →
      run (obey posix) (Guest.start posix s basepath ram shared) front = some g → obey posix g order = some g' →
      Issued (g.dev.ordered order) g'.dev := by
  refine ⟨?_, fun front order back g g' _ _ obeyed => ?_⟩
  · exact runMeets_iff (fun g order => ⟨_, rfl⟩) (fun g kept => kept.faithful) (fun g order g' => obey_kept)
      (fun g order g' => obey_careful) (start_kept s basepath ram shared) orders
  · obtain rfl := Option.some.inj obeyed
    exact process_issued (g.dev.ordered order)

end

/-! ### A directory and a file -/

/-- Standard input, output and error. -/
def stdio : Finset Resource := {.file 0, .file 1, .file 2}

/-- A memory of one page with "/" at 16 and "x" at 32. -/
def page : Ram := ⟨fun a => if a = 16 then slash else if a = 32 then 0x78 else 0, 256⟩

def anOrder (command : Command) (a0 d0 : Nat) : Order := ⟨page, ⟨command, 0, a0, 0, d0, 0, 1⟩⟩

def desk : Guest id := Guest.start emptyHost_posix stdio (some [slash, 0x62]) page ⟨.idle, 0, 0, 0, 0, 0, 0⟩

/-- A directory, a file beside it, and both closed. -/
theorem handle_table_faithful_desk :
    ∃ g, run (obey emptyHost_posix) desk
      [anOrder .opendir 16 0, anOrder .openPath 32 1, anOrder .close 0 0, anOrder .close 0 1] = some g ∧ Faithful g := by
  obtain ⟨g, ran⟩ : ∃ g, run (obey emptyHost_posix) desk
      [anOrder .opendir 16 0, anOrder .openPath 32 1, anOrder .close 0 0, anOrder .close 0 1] = some g := ⟨_, rfl⟩
  refine ⟨g, ran, ?_⟩
  refine (handle_table_faithful emptyHost_posix stdio (some [slash, 0x62]) page ⟨.idle, 0, 0, 0, 0, 0, 0⟩ _).1.mp ?_ _ [] g
    (List.append_nil _).symm ran
  have careful (dev : Device (Ledger (id : Finset Resource → Finset Resource))) (command : dev.shared.command ≠ .init)
      (free : dev.fs.handles dev.shared.d0 = none ∨ dev.shared.command = .opendir ∨ dev.shared.command = .close) :
      Careful emptyHost_posix dev := by
    refine ⟨fun initial => absurd initial command, ?_⟩
    rintro opens stream ⟨-, path, held⟩
    rcases free with free | other | other
    · rw [free] at held
      cases held
    · unfold HostOpens at opens
      rw [other] at opens
      exact opens
    · unfold HostOpens at opens
      rw [other] at opens
      exact opens
  refine ⟨careful _ (by decide) (by decide), fun g stepped => ?_⟩
  cases stepped
  refine ⟨careful _ (by decide) (Or.inl (by decide)), fun g stepped => ?_⟩
  cases stepped
  refine ⟨careful _ (by decide) (Or.inr (Or.inr rfl)), fun g stepped => ?_⟩
  cases stepped
  exact ⟨careful _ (by decide) (Or.inr (Or.inr rfl)), fun g stepped => trivial⟩

/-- OPENDIR gives handle 0; an OPEN for path number 0 closes it. -/
theorem opendir_handle_lost :
    ∃ g, run (obey emptyHost_posix) desk [anOrder .opendir 16 5, anOrder .openPath 32 0] = some g ∧ ¬ Faithful g := by
  refine ⟨_, rfl, fun faithful => ?_⟩
  have given : (0, 3) ∈ ((run (obey emptyHost_posix) desk [anOrder .opendir 16 5, anOrder .openPath 32 0]).map
      Guest.given).getD [] := by decide
  obtain ⟨-, path, held⟩ := faithful.valid _ given
  have file : ((run (obey emptyHost_posix) desk [anOrder .opendir 16 5, anOrder .openPath 32 0]).bind
      (fun g => g.dev.fs.handles 0)).map Handle.resource = some (.file 4) := by decide
  have dir : ((run (obey emptyHost_posix) desk [anOrder .opendir 16 5, anOrder .openPath 32 0]).bind
      (fun g => g.dev.fs.handles 0)).map Handle.resource = some (.dir 3) := congrArg (Option.map Handle.resource) held
  rw [file] at dir
  cases dir

end Dhf

end Q9OS

import Mathlib.Tactic
import Q9OS.Lib.Run
import Q9OS.Lib.Path
import Q9OS.Dhf.Device
import Q9OS.Dhf.Ledger

/-!
# Confinement to the base directory

A guest path is resolved to a host path that starts with the text of the base
directory. Read component by component it should lead to the base or below.
-/

namespace Q9OS

namespace Dhf

def dot : UInt8 := 0x2E

def dotdot : Bytes := [dot, dot]

/-- An absolute path without empty names, "." and "..". -/
def Canonical (path : Bytes) : Prop := ∃ names, (∀ name ∈ names, Path.Proper slash dot name) ∧ path = Path.render slash names

/-- The host path leads to the base directory or below it. -/
def Inside (base path : Bytes) : Prop := Path.location slash dot base <+: Path.location slash dot path

/-- The names the host gives to directories are canonical. -/
structure Documented {σ : Type} (host : Host σ) : Prop where
  realpath : ∀ s path resolved, host.realpath s path = some resolved → Canonical resolved
  getcwd : ∀ s, Canonical (host.getcwd s)

namespace HostFs

/-- What the guest asks for, as a path below the base. -/
def request (fs : HostFs) : Option Bytes → Bytes
  | none => fs.cwd
  | some [] => fs.cwd
  | some (first :: rest) =>
    if first = slash then rest else if fs.cwd ≠ [] then fs.cwd ++ slash :: first :: rest else first :: rest

/-- The host path of a request. -/
def whole (fs : HostFs) (path : Option Bytes) : Bytes := fs.basepath ++ slash :: fs.request path

end HostFs

/-- A request that the check of the text judges rightly. -/
structure Safe (fs : HostFs) (realpath : Bytes → Option Bytes) (path : Option Bytes) : Prop where
  short : (fs.whole path).length < pathMax
  /-- The directory is not the base itself when the last name is "..", and the text of the base does not
  end within a name. -/
  known : ∀ dir last resolved, HostFs.splitLast (fs.whole path) = (some dir, last) → realpath dir = some resolved →
    (resolved ++ slash :: last).length < pathMax ∧ (last = dotdot → resolved ≠ fs.basepath) ∧
      (fs.basepath = [slash] ∨ ∀ c rest, resolved ++ slash :: last = fs.basepath ++ c :: rest → c = slash)
  /-- In a directory the host does not know, no ".." climbs above the base. -/
  unknown : ∀ dir last, HostFs.splitLast (fs.whole path) = (some dir, last) → realpath dir = none →
    Path.Stays dot 0 ((fs.request path).splitOn slash)

/-! ### One request -/

section
variable {fs : HostFs} {realpath : Bytes → Option Bytes}

theorem combined_eq (fs : HostFs) (path : Option Bytes) : fs.combined path = (fs.whole path).take (pathMax * 2 - 1) := by
  unfold HostFs.combined HostFs.whole HostFs.request
  cases path with
  | none => rfl
  | some bytes =>
    cases bytes with
    | nil => rfl
    | cons first rest =>
      dsimp only
      split_ifs <;> rfl

/-- The last slash of a path. -/
theorem splitLast_append (dir : Bytes) {last : Bytes} (final : slash ∉ last) :
    HostFs.splitLast (dir ++ slash :: last) = (some dir, last) := by
  have ends : ((dir ++ slash :: last).reverse.takeWhile (· ≠ slash)).reverse = last := by
    rw [List.reverse_append, List.reverse_cons, List.append_assoc, List.takeWhile_append_of_pos]
    · simp
    · intro c member
      have inside : c ∈ last := List.mem_reverse.mp member
      simp only [ne_eq, decide_eq_true_eq]
      rintro rfl
      exact final inside
  have longer : last.length ≠ (dir ++ slash :: last).length := by
    simp
    omega
  have front : (dir ++ slash :: last).take ((dir ++ slash :: last).length - last.length - 1) = dir := by
    have count : (dir ++ slash :: last).length - last.length - 1 = dir.length := by
      simp
      omega
    rw [count, List.take_left]
  unfold HostFs.splitLast
  dsimp only
  rw [ends, if_neg longer, front]

/-- Every path with a slash has a last one. -/
theorem exists_last_slash (a b : Bytes) : ∃ dir last, a ++ slash :: b = dir ++ slash :: last ∧ slash ∉ last ∧ a <+: dir := by
  by_cases more : slash ∈ b
  · obtain ⟨as, bs, split, first⟩ := List.eq_append_cons_of_mem (List.mem_reverse.mpr more)
    have parts : b = bs.reverse ++ slash :: as.reverse := by
      rw [← List.reverse_reverse b, split]
      simp
    refine ⟨a ++ slash :: bs.reverse, as.reverse, ?_, ?_, List.prefix_append a _⟩
    · rw [parts]
      simp
    · rw [List.mem_reverse]
      exact first
  · exact ⟨a, b, rfl, more, List.prefix_rfl⟩

theorem canonical_ne_nil {path : Bytes} (canonical : Canonical path) : path ≠ [] := by
  obtain ⟨names, -, rfl⟩ := canonical
  exact List.cons_ne_nil _ _

/-- A path that is not cut, with its directory made canonical where the host knows it. -/
theorem cleaned_eq (realpath : Bytes → Option Bytes) {dir last : Bytes} (nonempty : dir ≠ []) (final : slash ∉ last)
    (short : (dir ++ slash :: last).length < pathMax) :
    (∀ resolved, realpath dir = some resolved →
      HostFs.cleaned realpath (dir ++ slash :: last) = (resolved ++ slash :: last).take (pathMax - 1)) ∧
    (realpath dir = none → HostFs.cleaned realpath (dir ++ slash :: last) = dir ++ slash :: last) := by
  obtain ⟨c, rest, rfl⟩ := List.exists_cons_of_ne_nil nonempty
  have dirShort : (c :: rest).take (pathMax - 1) = c :: rest := by
    refine List.take_of_length_le ?_
    rw [List.length_append] at short
    omega
  have pathShort : (c :: rest ++ slash :: last).take (pathMax - 1) = c :: rest ++ slash :: last := by
    refine List.take_of_length_le ?_
    omega
  unfold HostFs.cleaned
  rw [splitLast_append (c :: rest) final]
  dsimp only
  rw [dirShort, pathShort]
  refine ⟨fun resolved known => ?_, fun unknown => ?_⟩
  · rw [known]
  · rw [unknown]

theorem resolve_some {path : Option Bytes} {target : Bytes} (accepted : fs.resolveConfinedPath realpath path = some target) :
    HostFs.cleaned realpath (fs.combined path) = target ∧ fs.basepath <+: target := by
  unfold HostFs.resolveConfinedPath at accepted
  dsimp only at accepted
  split at accepted
  · next starts =>
    obtain rfl := Option.some.inj accepted
    exact ⟨rfl, starts⟩
  · cases accepted

/-- What the check accepts of a safe request leads to the base or below. -/
theorem resolve_inside (base : Canonical fs.basepath) (canonical : ∀ dir resolved, realpath dir = some resolved → Canonical resolved)
    {path : Option Bytes} (safe : Safe fs realpath path) {target : Bytes}
    (accepted : fs.resolveConfinedPath realpath path = some target) : Inside fs.basepath target := by
  obtain ⟨dir, last, parts, final, below⟩ := exists_last_slash fs.basepath (fs.request path)
  have dirSome : dir ≠ [] := by
    rintro rfl
    exact canonical_ne_nil base (List.prefix_nil.mp below)
  have parts : fs.whole path = dir ++ slash :: last := parts
  have short : (dir ++ slash :: last).length < pathMax := parts ▸ safe.short
  have split : HostFs.splitLast (fs.whole path) = (some dir, last) := by
    rw [parts, splitLast_append dir final]
  have uncut : fs.combined path = dir ++ slash :: last := by
    rw [combined_eq, parts]
    refine List.take_of_length_le ?_
    unfold pathMax at *
    omega
  obtain ⟨names, proper, isBase⟩ := base
  have location : Path.location slash dot fs.basepath = names := by
    rw [isBase, Path.location_render proper]
  obtain ⟨cleaned, starts⟩ := resolve_some accepted
  obtain ⟨whenKnown, whenUnknown⟩ := cleaned_eq realpath dirSome final short
  unfold Inside
  rw [location]
  rw [uncut] at cleaned
  cases known : realpath dir with
  | none =>
    -- the path is taken as it is, and starts with the base in any case
    rw [whenUnknown known, ← parts] at cleaned
    rw [← cleaned, HostFs.whole, Path.location_append, location]
    refine Path.stays_walk ?_ List.prefix_rfl
    rw [Nat.sub_self]
    exact safe.unknown dir last split known
  | some resolved =>
    obtain ⟨resolvedShort, up, ends⟩ := safe.known dir last resolved split known
    have resolvedUncut : (resolved ++ slash :: last).take (pathMax - 1) = resolved ++ slash :: last := by
      refine List.take_of_length_le ?_
      omega
    rw [whenKnown resolved known, resolvedUncut] at cleaned
    subst cleaned
    obtain ⟨dirs, dirsProper, rfl⟩ := canonical dir resolved known
    rw [isBase] at starts ends up
    refine Path.prefix_location proper dirsProper final starts ?_ (fun steps same => up steps (by rw [same]))
    refine ends.imp_left (fun root => ?_)
    have located := Path.location_render proper
    rw [root] at located
    rw [← located]
    exact Path.location_render (fun name member => absurd member List.not_mem_nil)

end

/-! ### The paths the host is given -/

/-- The same host, and every path it opens, makes, removes or renames. -/
def Host.spied {σ : Type} (host : Host σ) : Host (σ × List Bytes) where
  realpath t := host.realpath t.1
  getcwd t := host.getcwd t.1
  stat t := host.stat t.1
  openFile t path access create :=
    let done := host.openFile t.1 path access create
    (done.1, done.2, path :: t.2)
  closeFile t fd := (host.closeFile t.1 fd, t.2)
  read t fd n :=
    let done := host.read t.1 fd n
    (done.1, done.2, t.2)
  write t fd bytes :=
    let done := host.write t.1 fd bytes
    (done.1, done.2, t.2)
  lseek t fd offset whence :=
    let done := host.lseek t.1 fd offset whence
    (done.1, done.2, t.2)
  mkdir t path mode :=
    let done := host.mkdir t.1 path mode
    (done.1, done.2, path :: t.2)
  rmdir t path :=
    let done := host.rmdir t.1 path
    (done.1, done.2, path :: t.2)
  unlink t path :=
    let done := host.unlink t.1 path
    (done.1, done.2, path :: t.2)
  rename t path path' :=
    let done := host.rename t.1 path path'
    (done.1, done.2, path :: path' :: t.2)
  openDir t path :=
    let done := host.openDir t.1 path
    (done.1, done.2, path :: t.2)
  readDir t stream :=
    let done := host.readDir t.1 stream
    (done.1, done.2, t.2)
  closeDir t stream := (host.closeDir t.1 stream, t.2)

section
variable {σ : Type} {host : Host σ} {fs : HostFs} {t : σ × List Bytes}

/-- The commands that resolve the path at a0. -/
def Command.resolves : Command → Bool
  | .openPath | .create | .getstt | .setstt | .chdir | .mkdir | .rmdir | .delete | .rename | .opendir => true
  | _ => false

/-- The guest paths a command resolves. -/
def Device.paths (dev : Device (σ × List Bytes)) : List (Option Bytes) :=
  if dev.shared.command = .rename then [dev.ram.text dev.shared.a0, dev.ram.text dev.shared.a1]
  else if dev.shared.command.resolves then [dev.ram.text dev.shared.a0] else []

/-- The host is given nothing but what the check accepted of these guest paths. -/
def Accepted (host : Host σ) (fs : HostFs) (s : σ) (paths : List (Option Bytes)) (given given' : List Bytes) : Prop :=
  ∃ calls, given' = calls ++ given ∧
    ∀ target ∈ calls, ∃ path ∈ paths, fs.resolveConfinedPath (host.realpath s) path = some target

theorem Accepted.none {paths : List (Option Bytes)} : Accepted host fs t.1 paths t.2 t.2 :=
  ⟨[], rfl, fun _ member => absurd member List.not_mem_nil⟩

theorem Accepted.one {path : Option Bytes} {paths : List (Option Bytes)} (member : path ∈ paths) {target : Bytes}
    (accepted : fs.resolveConfinedPath (host.realpath t.1) path = some target) :
    Accepted host fs t.1 paths t.2 (target :: t.2) := by
  refine ⟨[target], rfl, fun other isTarget => ⟨path, member, ?_⟩⟩
  rw [List.mem_singleton.mp isTarget]
  exact accepted

theorem openHost_accepted {path : Option Bytes} {paths : List (Option Bytes)} (member : path ∈ paths) (access : Access)
    (create : Option Nat) : Accepted host fs t.1 paths t.2 (fs.openHost host.spied t path access create).2.2 := by
  unfold HostFs.openHost
  cases accepted : fs.resolveConfinedPath (host.spied.realpath t) path with
  | none => exact .none
  | some target =>
    have given : (host.spied.openFile t target access create).2.2 = target :: t.2 := rfl
    dsimp only
    generalize host.spied.openFile t target access create = done at *
    obtain ⟨result, t'⟩ := done
    cases result <;> exact given ▸ .one member accepted

theorem closeHandle_given (t : σ × List Bytes) (handle : Option Handle) : (HostFs.closeHandle host.spied t handle).2 = t.2 := by
  cases handle with
  | none => rfl
  | some handle =>
    obtain ⟨resource, path⟩ := handle
    cases resource <;> rfl

theorem enterFileAt_given (fs : HostFs) (idx : Nat) (opened : Except Nat (Nat × Bytes) × σ × List Bytes) :
    (fs.enterFileAt host.spied idx opened).2.2.2 = opened.2.2 := by
  obtain ⟨result, t⟩ := opened
  cases result with
  | error status => rfl
  | ok found =>
    unfold HostFs.enterFileAt
    dsimp only
    split
    · rfl
    · exact closeHandle_given t _

theorem cleanupFrom_given (l : List Nat) (fs : HostFs) (t : σ × List Bytes) :
    (fs.cleanupFrom host.spied t l).2.2 = t.2 := by
  induction l generalizing fs t with
  | nil => rfl
  | cons i rest ih =>
    rw [HostFs.cleanupFrom, ih]
    exact closeHandle_given t _

/-- A call on a file is given no path. -/
theorem onFile_given {α : Type} (fs : HostFs) (h : Nat) {call : σ × List Bytes → Nat → Except Errno α × σ × List Bytes}
    (quiet : ∀ fd, (call t fd).2.2 = t.2) : (fs.onFile t h call).2.2 = t.2 := by
  unfold HostFs.onFile
  cases fs.fileOf h with
  | none => rfl
  | some fd =>
    have same := quiet fd
    dsimp only
    generalize call t fd = done at *
    obtain ⟨result, t'⟩ := done
    cases result <;> exact same

theorem readLine_given (n fd : Nat) (t : σ × List Bytes) (line : Bytes) :
    (HostFs.readLine host.spied t fd n line).2.2 = t.2 := by
  induction n generalizing t line with
  | zero => rfl
  | succ n ih =>
    have one : (host.spied.read t fd 1).2.2 = t.2 := rfl
    rw [HostFs.readLine]
    generalize host.spied.read t fd 1 = done at *
    obtain ⟨result, t'⟩ := done
    cases result with
    | error errno => exact one
    | ok bytes =>
      cases bytes with
      | nil => exact one
      | cons ch rest =>
        dsimp only
        split
        · exact one
        · exact (ih t' _).trans one

theorem readln_given (fs : HostFs) (h maxlen : Nat) : (fs.readln host.spied t h maxlen).2.2 = t.2 := by
  unfold HostFs.readln
  split
  · rfl
  · exact onFile_given fs h (fun fd => readLine_given _ fd t [])

theorem writeln_given (fs : HostFs) (h : Nat) (bytes : Bytes) : (fs.writeln host.spied t h bytes).2.2 = t.2 := by
  have first : (fs.write host.spied t h bytes).2.2 = t.2 := onFile_given fs h (fun _ => rfl)
  unfold HostFs.writeln
  generalize fs.write host.spied t h bytes = done at *
  obtain ⟨result, t'⟩ := done
  cases result with
  | error status => exact first
  | ok w =>
    dsimp only
    split
    · cases fs.fileOf h <;> exact first
    · exact first

theorem readdir_given (fs : HostFs) (h : Nat) : (fs.readdir host.spied t h).2.2 = t.2 := by
  unfold HostFs.readdir
  cases fs.dirOf h with
  | none => rfl
  | some found =>
    obtain ⟨stream, path⟩ := found
    have one : (host.spied.readDir t stream).2.2 = t.2 := rfl
    dsimp only
    generalize host.spied.readDir t stream = done at *
    obtain ⟨result, t'⟩ := done
    cases result with
    | none => exact one
    | some name =>
      dsimp only
      split <;> exact one

/-- A call on a path is given what the check accepted. -/
theorem onPath_accepted {α : Type} {path : Option Bytes} {paths : List (Option Bytes)} (member : path ∈ paths)
    {call : σ × List Bytes → Bytes → Except Errno α × σ × List Bytes} (given : ∀ target, (call t target).2.2 = target :: t.2) :
    Accepted host fs t.1 paths t.2 (fs.onPath host.spied t path call).2.2 := by
  unfold HostFs.onPath
  cases accepted : fs.resolveConfinedPath (host.spied.realpath t) path with
  | none => exact .none
  | some target =>
    have same := given target
    dsimp only
    generalize call t target = done at *
    obtain ⟨result, t'⟩ := done
    cases result <;> exact same ▸ .one member accepted

theorem rename_accepted {old new : Option Bytes} {paths : List (Option Bytes)} (oldMember : old ∈ paths) (newMember : new ∈ paths) :
    Accepted host fs t.1 paths t.2 (fs.rename host.spied t old new).2.2 := by
  unfold HostFs.rename
  cases accepted : fs.resolveConfinedPath (host.spied.realpath t) old with
  | none => exact .none
  | some target =>
    cases accepted' : fs.resolveConfinedPath (host.spied.realpath t) new with
    | none => exact .none
    | some target' =>
      have given : (host.spied.rename t target target').2.2 = target :: target' :: t.2 := rfl
      have both : Accepted host fs t.1 paths t.2 (target :: target' :: t.2) := by
        refine ⟨[target, target'], rfl, fun other member => ?_⟩
        rcases List.mem_cons.mp member with rfl | rest
        · exact ⟨old, oldMember, accepted⟩
        · rw [List.mem_singleton.mp rest]
          exact ⟨new, newMember, accepted'⟩
      dsimp only
      generalize host.spied.rename t target target' = done at *
      obtain ⟨result, t'⟩ := done
      cases result <;> exact given ▸ both

theorem opendir_accepted {path : Option Bytes} {paths : List (Option Bytes)} (member : path ∈ paths) :
    Accepted host fs t.1 paths t.2 (fs.opendir host.spied t path).2.2.2 := by
  unfold HostFs.opendir
  cases accepted : fs.resolveConfinedPath (host.spied.realpath t) path with
  | none => exact .none
  | some target =>
    have given : (host.spied.openDir t target).2.2 = target :: t.2 := rfl
    dsimp only
    generalize host.spied.openDir t target = done at *
    obtain ⟨result, t'⟩ := done
    cases result with
    | error errno => exact given ▸ .one member accepted
    | ok stream =>
      dsimp only
      cases fs.freeHandle <;> exact given ▸ .one member accepted

theorem giveBytes_given (dev : Device (σ × List Bytes)) (done : Except Nat Bytes × σ × List Bytes) :
    (dev.giveBytes done).host = done.2 := by
  obtain ⟨result, t⟩ := done
  cases result <;> rfl

theorem process_accepted (host : Host σ) (dev : Device (σ × List Bytes)) :
    Accepted host dev.fs dev.host.1 dev.paths dev.host.2 (dev.process host.spied).host.2 := by
  have quiet {given : List Bytes} (same : given = dev.host.2) :
      Accepted host dev.fs dev.host.1 dev.paths dev.host.2 given := by
    rw [same]
    exact .none
  have first (resolves : dev.shared.command.resolves = true) : dev.ram.text dev.shared.a0 ∈ dev.paths := by
    unfold Device.paths
    split
    · exact List.mem_cons_self
    · exact List.mem_cons_self
  show Accepted host dev.fs dev.host.1 dev.paths dev.host.2 (dev.processLocal host.spied).host.2
  unfold Device.processLocal
  dsimp only
  cases command : dev.shared.command with
  | idle => exact quiet rfl
  | ret => exact quiet rfl
  | unknown => exact quiet rfl
  | ping => exact quiet rfl
  | setstt => exact quiet rfl
  | init => exact quiet rfl
  | chdir => exact quiet rfl
  | term => exact quiet (cleanupFrom_given _ _ _)
  | openPath =>
    show Accepted _ _ _ _ _ (dev.fs.enterFileAt host.spied _ _).2.2.2
    rw [enterFileAt_given]
    exact openHost_accepted (first (by rw [command]; rfl)) _ _
  | create =>
    show Accepted _ _ _ _ _ (dev.fs.enterFileAt host.spied _ _).2.2.2
    rw [enterFileAt_given]
    exact openHost_accepted (first (by rw [command]; rfl)) _ _
  | close =>
    refine quiet ?_
    dsimp only
    unfold HostFs.close
    split
    · cases held : dev.fs.handles dev.shared.d0 with
      | none => rfl
      | some handle => exact closeHandle_given dev.host (some handle)
    · rfl
  | read =>
    dsimp only
    split
    · rw [giveBytes_given]
      exact quiet (onFile_given dev.fs _ (fun _ => rfl))
    · exact quiet rfl
  | write =>
    dsimp only
    split
    · exact quiet (onFile_given dev.fs _ (fun _ => rfl))
    · exact quiet rfl
  | seek => exact quiet (onFile_given dev.fs _ (fun _ => rfl))
  | readln =>
    dsimp only
    rw [giveBytes_given]
    exact quiet (readln_given dev.fs _ _)
  | writeln =>
    dsimp only
    split
    · exact quiet (writeln_given dev.fs _ _)
    · exact quiet rfl
  | getstt =>
    dsimp only
    cases dev.fs.getstat host.spied dev.host (dev.ram.text dev.shared.a0) <;> exact quiet rfl
  | mkdir => exact onPath_accepted (first (by rw [command]; rfl)) (fun _ => rfl)
  | rmdir => exact onPath_accepted (first (by rw [command]; rfl)) (fun _ => rfl)
  | delete => exact onPath_accepted (first (by rw [command]; rfl)) (fun _ => rfl)
  | rename =>
    refine rename_accepted (first (by rw [command]; rfl)) ?_
    unfold Device.paths
    rw [if_pos command]
    exact List.mem_cons_of_mem _ List.mem_cons_self
  | opendir => exact opendir_accepted (first (by rw [command]; rfl))
  | readdir =>
    have same : (dev.fs.readdir host.spied dev.host dev.shared.d0).2.2 = dev.host.2 := readdir_given dev.fs _
    dsimp only
    generalize dev.fs.readdir host.spied dev.host dev.shared.d0 = done at *
    obtain ⟨result, t⟩ := done
    cases result with
    | error status => exact quiet same
    | ok entry =>
      cases entry with
      | none => exact quiet same
      | some entry =>
        dsimp only
        split <;> exact quiet same

/-! ### Runs -/

def Device.obey (host : Host σ) (dev : Device σ) (order : Order) : Option (Device σ) :=
  some ((dev.ordered order).process host)

/-- Every path the command resolves is safe, and an INIT names a directory of the host. -/
structure Cautious (host : Host σ) (dev : Device (σ × List Bytes)) : Prop where
  init : dev.shared.command = .init → ∀ first rest, dev.ram.text dev.shared.a0 = some (first :: rest) →
    ∃ resolved, host.realpath dev.host.1 (first :: rest) = some resolved ∧ resolved.length < pathMax
  paths : ∀ path ∈ dev.paths, Safe dev.fs (host.realpath dev.host.1) path

/-- The base directory at the start is a directory of the host. -/
def Rooted (host : Host σ) (s : σ) (basepath : Option Bytes) : Prop :=
  match basepath with
  | some (first :: rest) => ∃ resolved, host.realpath s (first :: rest) = some resolved ∧ resolved.length < pathMax
  | _ => (host.getcwd s).length < pathMax - 1

theorem init_canonical (documented : Documented host) {basepath : Option Bytes} (rooted : Rooted host t.1 basepath) :
    Canonical (HostFs.init host.spied t basepath).basepath := by
  have working (short : (host.getcwd t.1).length < pathMax - 1) :
      Canonical ((if (host.getcwd t.1).length < pathMax - 1 then host.getcwd t.1 else []).take (pathMax - 1)) := by
    rw [if_pos short, List.take_of_length_le (by omega)]
    exact documented.getcwd t.1
  match basepath, rooted with
  | none, rooted => exact working rooted
  | some [], rooted => exact working rooted
  | some (first :: rest), rooted =>
    obtain ⟨resolved, known, short⟩ := rooted
    have base : (HostFs.init host.spied t (some (first :: rest))).basepath =
        ((host.realpath t.1 (first :: rest)).getD (first :: rest)).take (pathMax - 1) := rfl
    rw [base, known, Option.getD_some, List.take_of_length_le (by omega)]
    exact documented.realpath t.1 _ _ known

theorem cleanupFrom_basepath (l : List Nat) (fs : HostFs) (t : σ × List Bytes) :
    (fs.cleanupFrom host.spied t l).1.basepath = fs.basepath := by
  induction l generalizing fs t with
  | nil => rfl
  | cons i rest ih =>
    rw [HostFs.cleanupFrom, ih]
    rfl

theorem enterFileAt_basepath (fs : HostFs) (idx : Nat) (opened : Except Nat (Nat × Bytes) × σ × List Bytes) :
    (fs.enterFileAt host.spied idx opened).2.1.basepath = fs.basepath := by
  obtain ⟨result, t⟩ := opened
  cases result with
  | error status => rfl
  | ok found =>
    unfold HostFs.enterFileAt
    dsimp only
    split <;> rfl

theorem opendir_basepath (fs : HostFs) (path : Option Bytes) :
    (fs.opendir host.spied t path).2.1.basepath = fs.basepath := by
  unfold HostFs.opendir
  cases fs.resolveConfinedPath (host.spied.realpath t) path with
  | none => rfl
  | some target =>
    dsimp only
    cases host.spied.openDir t target with
    | mk result t' =>
      cases result with
      | error errno => rfl
      | ok stream =>
        dsimp only
        cases fs.freeHandle <;> rfl

theorem chdir_basepath (fs : HostFs) (path : Option Bytes) : (fs.chdir host.spied t path).2.basepath = fs.basepath := by
  unfold HostFs.chdir
  cases fs.resolveConfinedPath (host.spied.realpath t) path with
  | none => rfl
  | some target =>
    dsimp only
    cases host.spied.stat t target with
    | error errno => rfl
    | ok stat =>
      dsimp only
      split <;> rfl

/-- Only an INIT moves the base. -/
theorem process_basepath (dev : Device (σ × List Bytes)) (other : dev.shared.command ≠ .init) :
    (dev.process host.spied).fs.basepath = dev.fs.basepath := by
  show (dev.processLocal host.spied).fs.basepath = dev.fs.basepath
  have bytes (done : Except Nat Bytes × σ × List Bytes) : (dev.giveBytes done).fs = dev.fs := by
    obtain ⟨result, t⟩ := done
    cases result <;> rfl
  unfold Device.processLocal
  dsimp only
  cases command : dev.shared.command with
  | init => exact absurd command other
  | term => exact cleanupFrom_basepath _ _ _
  | openPath => exact enterFileAt_basepath _ _ _
  | create => exact enterFileAt_basepath _ _ _
  | opendir => exact opendir_basepath _ _
  | chdir => exact chdir_basepath _ _
  | close =>
    dsimp only
    unfold HostFs.close
    split
    · cases dev.fs.handles dev.shared.d0 <;> rfl
    · rfl
  | read =>
    dsimp only
    split
    · rw [bytes]
    · rfl
  | write =>
    dsimp only
    split <;> rfl
  | readln =>
    dsimp only
    rw [bytes]
  | writeln =>
    dsimp only
    split <;> rfl
  | getstt =>
    dsimp only
    cases dev.fs.getstat host.spied dev.host (dev.ram.text dev.shared.a0) <;> rfl
  | readdir =>
    dsimp only
    cases dev.fs.readdir host.spied dev.host dev.shared.d0 with
    | mk result t =>
      cases result with
      | error status => rfl
      | ok entry =>
        cases entry with
        | none => rfl
        | some entry =>
          dsimp only
          split <;> rfl
  | _ => rfl

theorem process_canonical (documented : Documented host) {dev : Device (σ × List Bytes)} (canonical : Canonical dev.fs.basepath)
    (cautious : Cautious host dev) : Canonical (dev.process host.spied).fs.basepath := by
  by_cases command : dev.shared.command = .init
  · cases path : dev.ram.text dev.shared.a0 with
    | none =>
      have same : (dev.process host.spied).fs = dev.fs := by
        simp [Device.process, Device.processLocal, command, path]
      rw [same]
      exact canonical
    | some bytes =>
      cases bytes with
      | nil =>
        have same : (dev.process host.spied).fs = dev.fs := by
          simp [Device.process, Device.processLocal, command, path]
        rw [same]
        exact canonical
      | cons first rest =>
        have moved : (dev.process host.spied).fs = HostFs.init host.spied dev.host (some (first :: rest)) := by
          simp [Device.process, Device.processLocal, command, path]
        rw [moved]
        exact init_canonical documented (cautious.init command first rest path)
  · rw [process_basepath _ command]
    exact canonical

theorem obey_canonical (documented : Documented host) {dev dev' : Device (σ × List Bytes)} {order : Order}
    (canonical : Canonical dev.fs.basepath) (cautious : Cautious host (dev.ordered order))
    (obeyed : dev.obey host.spied order = some dev') : Canonical dev'.fs.basepath := by
  obtain rfl := Option.some.inj obeyed
  have same : Canonical (dev.ordered order).fs.basepath := canonical
  exact process_canonical documented same cautious

/-- What a path leads to is looked up where the check accepts it. -/
theorem chdir_stats {stat : σ → Bytes → Except Errno Stat} {fs : HostFs} {path : Option Bytes}
    (same : ∀ target, fs.resolveConfinedPath (host.realpath t.1) path = some target → stat t.1 target = host.stat t.1 target) :
    fs.chdir ({ host with stat := stat } : Host σ).spied t path = fs.chdir host.spied t path := by
  have realpath : ({ host with stat := stat } : Host σ).spied.realpath t = host.realpath t.1 := rfl
  have realpath' : host.spied.realpath t = host.realpath t.1 := rfl
  unfold HostFs.chdir
  rw [realpath, realpath']
  cases accepted : fs.resolveConfinedPath (host.realpath t.1) path with
  | none => rfl
  | some target =>
    have looked : ({ host with stat := stat } : Host σ).spied.stat t target = host.spied.stat t target := same target accepted
    simp only [looked]

theorem getstat_stats {stat : σ → Bytes → Except Errno Stat} {fs : HostFs} {path : Option Bytes}
    (same : ∀ target, fs.resolveConfinedPath (host.realpath t.1) path = some target → stat t.1 target = host.stat t.1 target) :
    fs.getstat ({ host with stat := stat } : Host σ).spied t path = fs.getstat host.spied t path := by
  have realpath : ({ host with stat := stat } : Host σ).spied.realpath t = host.realpath t.1 := rfl
  have realpath' : host.spied.realpath t = host.realpath t.1 := rfl
  unfold HostFs.getstat HostFs.onPath
  rw [realpath, realpath']
  cases accepted : fs.resolveConfinedPath (host.realpath t.1) path with
  | none => rfl
  | some target =>
    have looked : ({ host with stat := stat } : Host σ).spied.stat t target = host.spied.stat t target := same target accepted
    simp only [looked]

theorem process_stats {stat : σ → Bytes → Except Errno Stat} {dev : Device (σ × List Bytes)}
    (command : dev.shared.command = .chdir ∨ dev.shared.command = .getstt)
    (same : ∀ path ∈ dev.paths, ∀ target, dev.fs.resolveConfinedPath (host.realpath dev.host.1) path = some target →
      stat dev.host.1 target = host.stat dev.host.1 target) :
    dev.process ({ host with stat := stat } : Host σ).spied = dev.process host.spied := by
  have path : dev.ram.text dev.shared.a0 ∈ dev.paths := by
    unfold Device.paths
    rcases command with is | is <;> rw [is] <;> exact List.mem_singleton_self _
  unfold Device.process Device.processLocal
  rcases command with is | is
  · simp only [is, chdir_stats (same _ path)]
  · simp only [is, getstat_stats (same _ path)]

/-- The device as `dhf_host_fs_init` leaves it, before any path was given to the host. -/
def Device.start (host : Host σ) (s : σ) (basepath : Option Bytes) (ram : Ram) (shared : Shared) : Device (σ × List Bytes) :=
  ⟨HostFs.init host.spied (s, []) basepath, (s, []), ram, shared⟩

/-- In every run of safe commands, whatever the check accepts of a safe path leads to the base directory or
below it, the host is never given another path, and what a CHDIR or GETSTT finds does not depend on anything
outside. -/
theorem commands_confined (host : Host σ) (documented : Documented host) (s : σ) (basepath : Option Bytes)
    (rooted : Rooted host s basepath) (ram : Ram) (shared : Shared) (orders : List Order)
    (meets : RunMeets (Device.obey host.spied) (fun dev order => Cautious host (dev.ordered order))
      (Device.start host s basepath ram shared) orders) :
    ∀ front back dev, orders = front ++ back →
      run (Device.obey host.spied) (Device.start host s basepath ram shared) front = some dev →
      (∀ path target, Safe dev.fs (host.realpath dev.host.1) path →
        dev.fs.resolveConfinedPath (host.realpath dev.host.1) path = some target → Inside dev.fs.basepath target) ∧
      ∀ order rest dev', back = order :: rest → dev.obey host.spied order = some dev' →
        (∃ calls, dev'.host.2 = calls ++ dev.host.2 ∧ ∀ target ∈ calls, Inside dev.fs.basepath target) ∧
        ∀ stat : σ → Bytes → Except Errno Stat, order.shared.command = .chdir ∨ order.shared.command = .getstt →
          (∀ target, Inside dev.fs.basepath target → stat dev.host.1 target = host.stat dev.host.1 target) →
          dev.obey ({ host with stat := stat } : Host σ).spied order = some dev' := by
  rintro front back dev rfl ran
  have canonical : Canonical dev.fs.basepath :=
    run_invariant (fun dev order dev' => obey_canonical documented) (init_canonical documented rooted) meets.front ran
  have confined (path : Option Bytes) (target : Bytes) (safe : Safe dev.fs (host.realpath dev.host.1) path)
      (accepted : dev.fs.resolveConfinedPath (host.realpath dev.host.1) path = some target) : Inside dev.fs.basepath target :=
    resolve_inside canonical (fun _ _ known => documented.realpath dev.host.1 _ _ known) safe accepted
  refine ⟨confined, ?_⟩
  rintro order rest dev' rfl obeyed
  have cautious := runMeets_next meets ran
  obtain rfl := Option.some.inj obeyed
  obtain ⟨calls, grown, accepted⟩ := process_accepted host (dev.ordered order)
  refine ⟨⟨calls, grown, fun target member => ?_⟩, fun stat command same => ?_⟩
  · obtain ⟨path, asked, resolved⟩ := accepted target member
    exact confined path target (cautious.paths path asked) resolved
  · refine congrArg some (process_stats command (fun path asked target resolved => ?_))
    exact same target (confined path target (cautious.paths path asked) resolved)

end

/-! ### A host with one directory -/

/-- The directory "/b". -/
def shelf : Bytes := [slash, 0x62]

/-- The directory "/b/x". -/
def drawer : Bytes := shelf ++ [slash, 0x78]

/-- The root, "/b" and "/b/x" are all the directories there are. -/
def shelfHost : Host (Finset Resource) :=
  { emptyHost with realpath := fun _ path => if path = shelf ∨ path = drawer ∨ path = [slash] then some path else none }

theorem shelf_canonical : Canonical shelf := by
  refine ⟨[[0x62]], fun name member => ?_, rfl⟩
  rw [List.mem_singleton.mp member]
  exact ⟨by decide, by decide, by decide, by decide⟩

theorem drawer_canonical : Canonical drawer := by
  refine ⟨[[0x62], [0x78]], fun name member => ?_, rfl⟩
  rcases List.mem_pair.mp member with rfl | rfl <;> exact ⟨by decide, by decide, by decide, by decide⟩

theorem root_canonical : Canonical [slash] := ⟨[], fun _ member => absurd member List.not_mem_nil, rfl⟩

theorem shelfHost_documented : Documented shelfHost := by
  refine ⟨fun s path resolved known => ?_, fun s => root_canonical⟩
  have found : (if path = shelf ∨ path = drawer ∨ path = [slash] then some path else none) = some resolved := known
  split at found
  · next directory =>
    obtain rfl := Option.some.inj found
    rcases directory with rfl | rfl | rfl
    · exact shelf_canonical
    · exact drawer_canonical
    · exact root_canonical
  · cases found

/-- The guest asks for the name at address 16. -/
def asks (command : Command) (name : Bytes) : Order :=
  ⟨(⟨fun _ => 0, 256⟩ : Ram).store 16 name, ⟨command, 0, 16, 0, 0, 0, 3⟩⟩

def shelfDevice : Device (Finset Resource × List Bytes) :=
  Device.start shelfHost ∅ (some shelf) ⟨fun _ => 0, 256⟩ ⟨.idle, 0, 0, 0, 0, 0, 0⟩

/-- A name of one letter in "/b" or in "/b/x". -/
theorem shelf_safe {fs : HostFs} {path : Option Bytes} (dir : Bytes) (letter : UInt8) (base : fs.basepath = shelf)
    (whole : fs.whole path = dir ++ slash :: [letter]) (place : dir = shelf ∨ dir = drawer) (other : letter ≠ slash) :
    Safe fs (shelfHost.realpath ∅) path := by
  have split : HostFs.splitLast (dir ++ slash :: [letter]) = (some dir, [letter]) := splitLast_append dir (by simpa using other.symm)
  have known : shelfHost.realpath ∅ dir = some dir := by rcases place with rfl | rfl <;> decide
  have short : (dir ++ slash :: [letter]).length < pathMax := by
    rw [List.length_append]
    rcases place with rfl | rfl
    · exact (by decide : shelf.length + 2 < pathMax)
    · exact (by decide : drawer.length + 2 < pathMax)
  refine ⟨by rw [whole]; exact short, fun dir' last resolved parts found => ?_, fun dir' last parts unknown => ?_⟩
  · rw [whole, split] at parts
    cases parts
    rw [known] at found
    cases found
    refine ⟨short, fun up => absurd (show 1 = 2 from congrArg List.length up) (by decide), Or.inr ?_⟩
    intro c rest same
    rw [base] at same
    rcases place with rfl | rfl
    · exact (List.cons.inj (List.append_cancel_left same)).1.symm
    · have deeper : shelf ++ slash :: [0x78, slash, letter] = shelf ++ c :: rest := same
      exact (List.cons.inj (List.append_cancel_left deeper)).1.symm
  · rw [whole, split] at parts
    cases parts
    rw [known] at unknown
    cases unknown

/-- The guest goes to the directory "x" and creates the file "y" there. -/
theorem commands_confined_shelf :
    ∃ mid dev, run (Device.obey shelfHost.spied) shelfDevice [asks .chdir [0x78]] = some mid ∧ mid.fs.cwd = [0x78] ∧
      Device.obey shelfHost.spied mid (asks .create [0x79]) = some dev ∧ dev.host.2 = [drawer ++ [slash, 0x79]] ∧
      ∀ target ∈ dev.host.2, Inside shelf target := by
  refine ⟨_, _, rfl, by decide, rfl, by decide, ?_⟩
  have rooted : Rooted shelfHost ∅ (some shelf) := ⟨shelf, rfl, by decide⟩
  have meets : RunMeets (Device.obey shelfHost.spied) (fun dev order => Cautious shelfHost (dev.ordered order))
      shelfDevice [asks .chdir [0x78], asks .create [0x79]] := by
    refine ⟨⟨fun command => absurd command (by decide), fun path asked => ?_⟩, fun mid moved => ?_⟩
    · have paths : (shelfDevice.ordered (asks .chdir [0x78])).paths = [some [0x78]] := by decide
      rw [paths] at asked
      rw [List.mem_singleton.mp asked]
      exact shelf_safe shelf 0x78 (by decide) (by decide) (Or.inl rfl) (by decide)
    · cases moved
      refine ⟨⟨fun command => absurd command (by decide), fun path asked => ?_⟩, fun _ _ => trivial⟩
      have paths : ((((shelfDevice.ordered (asks .chdir [0x78])).process shelfHost.spied).ordered
          (asks .create [0x79])).paths) = [some [0x79]] := by decide
      rw [paths] at asked
      rw [List.mem_singleton.mp asked]
      exact shelf_safe drawer 0x79 (by decide) (by decide) (Or.inr rfl) (by decide)
  obtain ⟨calls, grown, inside⟩ := ((commands_confined shelfHost shelfHost_documented ∅ (some shelf) rooted _ _ _ meets
    [asks .chdir [0x78]] _ _ rfl rfl).2 _ _ _ rfl rfl).1
  have none_before : ((shelfDevice.ordered (asks .chdir [0x78])).process shelfHost.spied).host.2 = [] := by decide
  have base : ((shelfDevice.ordered (asks .chdir [0x78])).process shelfHost.spied).fs.basepath = shelf := by decide
  change _ = calls ++ ((shelfDevice.ordered (asks .chdir [0x78])).process shelfHost.spied).host.2 at grown
  change ∀ target ∈ calls, Inside ((shelfDevice.ordered (asks .chdir [0x78])).process shelfHost.spied).fs.basepath target at inside
  rw [none_before, List.append_nil] at grown
  rw [base] at inside
  exact fun target member => inside target (grown ▸ member)

/-- The parent of the base directory is opened. -/
theorem parent_opened :
    ∃ dev, run (Device.obey shelfHost.spied) shelfDevice [asks .opendir dotdot] = some dev ∧
      ∃ target ∈ dev.host.2, ¬ Inside shelfDevice.fs.basepath target := by
  refine ⟨_, rfl, shelf ++ slash :: dotdot, ?_, ?_⟩
  · have given : ((run (Device.obey shelfHost.spied) shelfDevice [asks .opendir dotdot]).map (fun dev => dev.host.2)).getD [] =
        [shelf ++ slash :: dotdot] := by decide
    have member : shelf ++ slash :: dotdot ∈ [shelf ++ slash :: dotdot] := List.mem_singleton_self _
    rw [← given] at member
    exact member
  · have base : shelfDevice.fs.basepath = shelf := by decide
    rw [base]
    unfold Inside
    decide

end Dhf

end Q9OS

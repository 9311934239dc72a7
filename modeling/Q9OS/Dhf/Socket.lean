import Mathlib.Tactic
import Q9OS.Lib.Run
import Q9OS.Dhf.Device
import Q9OS.Dhf.Ledger

/-!
# The remote backend

`dhf_socket_client.c` and `dhf_socket_server.c`: a command is packed into a
request, worked off by a server with a file system of its own, and answered. The
channel between them loses nothing.
-/

namespace Q9OS

namespace Dhf

def errNet : Nat := 242

/-- The buffers for data on both sides. -/
def dataBuffer : Nat := 65536

structure Request where
  command : Command
  d0 : Nat
  d1 : Nat
  d2 : Nat
  path : Bytes
  data : Bytes

structure Response where
  status : Nat
  d0 : Nat
  d1 : Nat
  d2 : Nat
  data : Bytes

/-- What comes of a request. -/
inductive Outcome (σ : Type) where
  /-- The path buffer overflows, or a buffer is read that was never written. -/
  | undefined
  | disconnected
  | answered (response : Response) (fs : HostFs) (host : σ)

section
variable {σ : Type} (host : Host σ)

/-! ### The server -/

namespace Request

/-- The registers as they came. -/
def echo (req : Request) : Response := ⟨errOk, req.d0, req.d1, req.d2, []⟩

def answerHandle (req : Request) (opened : Except Nat Nat × HostFs × σ) : Outcome σ :=
  match opened with
  | (.ok h, fs, s) => .answered { req.echo with d0 := h } fs s
  | (.error status, fs, s) => .answered { req.echo with status := status } fs s

def answerBytes (req : Request) (fs : HostFs) (done : Except Nat Bytes × σ) : Outcome σ :=
  match done with
  | (.ok bytes, s) => .answered { req.echo with d1 := bytes.length, data := bytes } fs s
  | (.error status, s) => .answered { req.echo with d1 := 0, status := status } fs s

def answerCount (req : Request) (fs : HostFs) (done : Except Nat Nat × σ) : Outcome σ :=
  match done with
  | (.ok n, s) => .answered { req.echo with d1 := n % 4294967296 } fs s
  | (.error status, s) => .answered { req.echo with d1 := 0, status := status } fs s

def answerStatus (req : Request) (fs : HostFs) (done : Except Nat Unit × σ) : Outcome σ :=
  .answered { req.echo with status := statusOf done.1 } fs done.2

end Request

/-- `handle_client_request` -/
def handleClientRequest (fs : HostFs) (s : σ) (req : Request) : Outcome σ :=
  let path := some req.path
  if req.path.length ≥ pathMax then .undefined
  else if req.data.length > dataBuffer then .disconnected
  else
    match req.command with
    | .init =>
      let fs :=
        match req.path with
        | [] => fs
        | first :: rest => HostFs.init host s (some (first :: rest))
      .answered req.echo fs s
    | .term =>
      let done := fs.cleanup host s
      .answered req.echo done.1 done.2
    | .openPath => req.answerHandle (fs.openPath host s path req.d2)
    | .create => req.answerHandle (fs.create host s path req.d2 req.d1)
    | .close =>
      let done := fs.close host s req.d0
      .answered { req.echo with status := done.1 } done.2.1 done.2.2
    | .read => req.answerBytes fs (fs.read host s req.d0 (min req.d1 dataBuffer))
    | .write => req.answerCount fs (fs.write host s req.d0 req.data)
    | .seek =>
      let done := fs.seek host s req.d0 req.d1 req.d2
      let d1 :=
        match done.1 with
        | .ok pos => pos % 4294967296
        | .error _ => req.d1
      .answered { req.echo with d1 := d1, status := statusOf done.1 } fs done.2
    | .readln => req.answerBytes fs (fs.readln host s req.d0 (min req.d1 dataBuffer))
    | .writeln => req.answerCount fs (fs.writeln host s req.d0 req.data)
    | .getstt =>
      match fs.getstat host s path with
      | .ok st => .answered { req.echo with d1 := st.bytes.length, data := st.bytes } fs s
      | .error status => .answered { req.echo with d1 := 0, status := status } fs s
    | .setstt => .answered { req.echo with status := fs.setstat host s path } fs s
    | .chdir =>
      let done := fs.chdir host s path
      .answered { req.echo with status := done.1 } done.2 s
    | .mkdir => req.answerStatus fs (fs.mkdir host s path req.d1)
    | .rmdir => req.answerStatus fs (fs.rmdir host s path)
    | .delete => req.answerStatus fs (fs.unlink host s path)
    | .rename =>
      if 0 ∈ req.data then req.answerStatus fs (fs.rename host s path (some (req.data.takeWhile (· ≠ 0))))
      else .undefined
    | .opendir => req.answerHandle (fs.opendir host s path)
    | .readdir =>
      match fs.readdir host s req.d0 with
      | (.ok (some entry), s) => .answered { req.echo with d1 := (entryBytes entry).length, data := entryBytes entry } fs s
      | (.ok none, s) => .answered { req.echo with d1 := 0 } fs s
      | (.error status, s) => .answered { req.echo with d1 := 0, status := status } fs s
    | .ping => .answered req.echo fs s
    | .idle => .answered { req.echo with status := errUnsupported } fs s
    | .ret => .answered { req.echo with status := errUnsupported } fs s
    | .unknown => .answered { req.echo with status := errUnsupported } fs s

/-! ### The client -/

/-- The registers after an answer. -/
def Response.registers (response : Response) (shared : Shared) : Shared :=
  ⟨.idle, response.status, shared.a0, shared.a1, response.d0, response.d1, response.d2⟩

namespace Command

/-- Commands that send the buffer at a1. -/
def sendsBuffer : Command → Bool
  | .write | .writeln => true
  | _ => false

/-- Commands whose answer is copied to the buffer at a1. -/
def fillsBuffer : Command → Bool
  | .read | .readln | .getstt | .readdir => true
  | _ => false

end Command

namespace Device

/-- The data sent with a command. -/
def sentData (dev : Device σ) : Bytes :=
  match dev.shared.command with
  | .write => dev.ram.load dev.shared.a1 dev.shared.d1
  | .writeln => dev.ram.load dev.shared.a1 dev.shared.d1
  | .rename =>
    match dev.ram.text dev.shared.a1 with
    | some new => new ++ [0]
    | none => []
  | _ => []

def request (dev : Device σ) : Request :=
  ⟨dev.shared.command, dev.shared.d0, dev.shared.d1, dev.shared.d2, (dev.ram.text dev.shared.a0).getD [], dev.sentData⟩

/-- The connection breaks: the server drops its file system and makes a new one for the next. -/
def disconnect (dev : Device σ) (base : Option Bytes) : Device σ :=
  let done := dev.fs.cleanup host dev.host
  { dev with
    fs := HostFs.init host done.2 base, host := done.2
    shared := { dev.shared with command := .idle, status := errNet } }

/-- The answer in the registers and, if there is any, in the memory. -/
def receive (dev : Device σ) (response : Response) (fs : HostFs) (s : σ) : Device σ :=
  let fills := response.status = errOk ∧ dev.shared.command.fillsBuffer ∧ response.data ≠ []
  { fs := fs, host := s
    ram := if fills then dev.ram.put dev.shared.a1 response.data else dev.ram
    shared := response.registers dev.shared }

/-- `dhf_emu_device_process` with the remote backend: file system and host are the server's. None where
the behaviour is not defined. -/
def processRemote (base : Option Bytes) (dev : Device σ) : Option (Device σ) :=
  if dev.shared.command = .idle ∨ dev.shared.command = .ret then some dev
  else if dev.shared.command.sendsBuffer ∧ ¬ dev.ram.holds dev.shared.a1 dev.shared.d1 ∧ dev.shared.d1 ≠ 0 then
    -- there is no buffer to send from
    some (dev.disconnect host base)
  else
    match handleClientRequest host dev.fs dev.host dev.request with
    | .undefined => none
    | .disconnected => some (dev.disconnect host base)
    | .answered response fs s => some (dev.receive response fs s)

end Device

/-! ### Where the backends agree -/

/-- The next line of a file ends within `n` bytes: by its own end, by the end of the file or by an error. -/
def LineEnds (s : σ) (fd : Nat) : Nat → Prop
  | 0 => False
  | n + 1 =>
    match host.read s fd 1 with
    | (.error _, _) => True
    | (.ok [], _) => True
    | (.ok (ch :: _), s) => ch = newline ∨ ch = carriageReturn ∨ LineEnds s fd n

/-- Buffers lie in the memory and are not too long. -/
structure Placed (order : Order) : Prop where
  buffer : order.shared.command = .read ∨ order.shared.command = .write ∨ order.shared.command = .writeln →
    order.ram.holds order.shared.a1 order.shared.d1 = true
  size : order.shared.command = .read ∨ order.shared.command = .write ∨ order.shared.command = .readln ∨
    order.shared.command = .writeln → order.shared.d1 ≤ dataBuffer

/-- The command is one that both backends work off in the same way. -/
structure Agreeable (dev : Device σ) : Prop where
  path : ∀ path, dev.ram.text dev.shared.a0 = some path → path.length < pathMax
  openPath : dev.shared.command = .openPath → ∀ opened, (dev.fs.openHost host dev.host (dev.ram.text dev.shared.a0)
    (HostFs.accessOf dev.shared.d2) none).1 = .ok opened → dev.fs.freeHandle = some dev.shared.d0
  create : dev.shared.command = .create → ∀ opened, (dev.fs.openHost host dev.host (dev.ram.text dev.shared.a0)
    (HostFs.createAccessOf dev.shared.d2) (some (HostFs.createMode dev.shared.d1))).1 = .ok opened →
    dev.fs.freeHandle = some dev.shared.d0
  line : dev.shared.command = .readln → dev.shared.d1 ≤ Device.lineBuffer ∨ ∀ fd, dev.fs.fileOf dev.shared.d0 = some fd →
    LineEnds host dev.host fd (Device.lineBuffer - 1)
  stat : dev.shared.command = .getstt → dev.shared.a1 = 0 → ∃ status,
    dev.fs.getstat host dev.host (dev.ram.text dev.shared.a0) = .error status
  entry : dev.shared.command = .readdir → dev.shared.a1 = 0 → ∀ entry,
    (dev.fs.readdir host dev.host dev.shared.d0).1 ≠ .ok (some entry)
  rename : dev.shared.command = .rename → ∃ new, dev.ram.text dev.shared.a1 = some new ∧ new.length < dataBuffer

variable {host} {dev : Device σ}

/-- No path and the empty path are the same. -/
theorem resolve_getD (fs : HostFs) (realpath : Bytes → Option Bytes) (path : Option Bytes) :
    fs.resolveConfinedPath realpath (some (path.getD [])) = fs.resolveConfinedPath realpath path := by
  cases path <;> rfl

theorem openHost_getD (fs : HostFs) (s : σ) (path : Option Bytes) (access : Access) (create : Option Nat) :
    fs.openHost host s (some (path.getD [])) access create = fs.openHost host s path access create := by
  cases path <;> rfl

/-- At the lowest free handle a file is entered alike. -/
theorem enterFileAt_eq {fs : HostFs} {idx : Nat} {opened : Except Nat (Nat × Bytes) × σ}
    (lowest : ∀ found, opened.1 = .ok found → fs.freeHandle = some idx) :
    fs.enterFileAt host idx opened = fs.enterFile host opened := by
  obtain ⟨result, s⟩ := opened
  cases result with
  | error status => rfl
  | ok found =>
    have free := lowest found rfl
    obtain ⟨low, none⟩ := freeHandle_some free
    unfold HostFs.enterFileAt HostFs.enterFile
    dsimp only
    rw [if_neg (Nat.not_le.mpr low), free, none]
    rfl

theorem readLine_more {fd n : Nat} (k : Nat) {s : σ} {line : Bytes} (ends : LineEnds host s fd n) :
    HostFs.readLine host s fd (n + k) line = HostFs.readLine host s fd n line := by
  induction n generalizing s line with
  | zero => exact ends.elim
  | succ n ih =>
    unfold LineEnds at ends
    rw [Nat.add_right_comm, HostFs.readLine, HostFs.readLine]
    generalize host.read s fd 1 = done at *
    obtain ⟨result, s'⟩ := done
    cases result with
    | error errno => rfl
    | ok bytes =>
      cases bytes with
      | nil => rfl
      | cons ch rest =>
        dsimp only at ends ⊢
        split
        · rfl
        · next inside =>
          rw [not_or] at inside
          exact ih ((ends.resolve_left inside.1).resolve_left inside.2)

theorem readln_agrees (agrees : Agreeable host dev) (command : dev.shared.command = .readln) :
    dev.fs.readln host dev.host dev.shared.d0 (min dev.shared.d1 Device.lineBuffer) =
      dev.fs.readln host dev.host dev.shared.d0 dev.shared.d1 := by
  rcases agrees.line command with short | fits
  · rw [Nat.min_eq_left short]
  · by_cases short : dev.shared.d1 ≤ Device.lineBuffer
    · rw [Nat.min_eq_left short]
    · have long : min dev.shared.d1 Device.lineBuffer = Device.lineBuffer := Nat.min_eq_right (by omega)
      have split : dev.shared.d1 - 1 = (Device.lineBuffer - 1) + (dev.shared.d1 - Device.lineBuffer) := by
        unfold Device.lineBuffer at *
        omega
      have some : dev.shared.d1 ≠ 0 := by omega
      rw [long]
      unfold HostFs.readln
      rw [if_neg (by decide), if_neg some]
      unfold HostFs.onFile
      cases file : dev.fs.fileOf dev.shared.d0 with
      | none => rfl
      | some fd =>
        dsimp only
        rw [split, readLine_more _ (fits fd file)]

/-- What the server does with the data and the path of an agreeable command. -/
theorem request_fits (placed : Placed ⟨dev.ram, dev.shared⟩) (agrees : Agreeable host dev) :
    ¬ dev.request.path.length ≥ pathMax ∧ ¬ dev.request.data.length > dataBuffer := by
  constructor
  · cases text : dev.ram.text dev.shared.a0 with
    | none =>
      have path : dev.request.path = [] := by simp [Device.request, text]
      rw [path]
      decide
    | some path =>
      have same : dev.request.path = path := by simp [Device.request, text]
      rw [same]
      exact Nat.not_le.mpr (agrees.path path text)
  · have data : dev.request.data = dev.sentData := rfl
    have length (a n : Nat) : (dev.ram.load a n).length = n := by simp [Ram.load]
    rw [data]
    unfold Device.sentData
    split
    · next command =>
      rw [length]
      exact Nat.not_lt.mpr (placed.size (Or.inr (Or.inl command)))
    · next command =>
      rw [length]
      exact Nat.not_lt.mpr (placed.size (Or.inr (Or.inr (Or.inr command))))
    · next command =>
      obtain ⟨new, text, short⟩ := agrees.rename command
      rw [text]
      simp
      omega
    · simp

/-- The device with the command worked off. -/
def Device.done (dev : Device σ) : Device σ := { dev with shared := { dev.shared with command := .idle } }

theorem process_done (active : dev.shared.command ≠ .ret) : dev.process host = (dev.processLocal host).done := by
  unfold Device.process Device.done
  rw [if_neg active]

/-- The answer leaves what the local backend leaves. -/
def Matches (dev : Device σ) (outcome : Outcome σ) (dev' : Device σ) : Prop :=
  ∃ response fs s, outcome = .answered response fs s ∧ dev.receive response fs s = dev'.done

theorem answerHandle_matches (quiet : dev.shared.command.fillsBuffer = false) (opened : Except Nat Nat × HostFs × σ) :
    Matches dev (dev.request.answerHandle opened) (dev.giveHandle opened) := by
  obtain ⟨result, fs, s⟩ := opened
  cases result with
  | ok h => exact ⟨_, _, _, rfl, by simp [Device.receive, quiet]; rfl⟩
  | error status => exact ⟨_, _, _, rfl, by simp [Device.receive, quiet]; rfl⟩

theorem answerStatus_matches (quiet : dev.shared.command.fillsBuffer = false) (done : Except Nat Unit × σ) :
    Matches dev (dev.request.answerStatus dev.fs done) (dev.giveStatus done) :=
  ⟨_, _, _, rfl, by simp [Device.receive, quiet]; rfl⟩

theorem answerCount_matches (quiet : dev.shared.command.fillsBuffer = false) (done : Except Nat Nat × σ) :
    Matches dev (dev.request.answerCount dev.fs done) (dev.giveCount done) := by
  obtain ⟨result, s⟩ := done
  cases result with
  | ok n => exact ⟨_, _, _, rfl, by simp [Device.receive, quiet]; rfl⟩
  | error status => exact ⟨_, _, _, rfl, by simp [Device.receive, quiet]; rfl⟩

theorem put_nil (ram : Ram) (a : Nat) : ram.put a [] = ram := by
  unfold Ram.put
  split <;> rfl

theorem answerBytes_matches (fills : dev.shared.command.fillsBuffer = true) (done : Except Nat Bytes × σ) :
    Matches dev (dev.request.answerBytes dev.fs done) (dev.giveBytes done) := by
  obtain ⟨result, s⟩ := done
  cases result with
  | ok bytes =>
    refine ⟨_, _, _, rfl, ?_⟩
    cases bytes with
    | nil => simp [Device.receive, Device.giveBytes, put_nil, Device.done, Request.echo, Device.request, Response.registers]
    | cons b rest => simp [Device.receive, Device.giveBytes, fills, Device.done, Request.echo, Device.request, Response.registers]
  | error status => exact ⟨_, _, _, rfl, by simp [Device.receive, Request.echo]; rfl⟩

/-- An answer without data is only registers. -/
theorem matches_plain {response : Response} {fs : HostFs} {s : σ} {dev' : Device σ} (data : response.data = [])
    (same : dev'.done = ⟨fs, s, dev.ram, response.registers dev.shared⟩) :
    Matches dev (.answered response fs s) dev' := by
  refine ⟨response, fs, s, rfl, ?_⟩
  rw [same]
  simp [Device.receive, data, Response.registers]

/-- Data for the buffer at a1. -/
theorem matches_data {response : Response} {fs : HostFs} {s : σ} {dev' : Device σ} (ok : response.status = errOk)
    (fills : dev.shared.command.fillsBuffer = true)
    (same : dev'.done = ⟨fs, s, dev.ram.put dev.shared.a1 response.data, response.registers dev.shared⟩) :
    Matches dev (.answered response fs s) dev' := by
  refine ⟨response, fs, s, rfl, ?_⟩
  rw [same]
  by_cases empty : response.data = []
  · simp [Device.receive, empty, put_nil, Response.registers]
  · simp [Device.receive, empty, ok, fills, Response.registers]

theorem text_takeWhile {ram : Ram} {a : Nat} {new : Bytes} (text : ram.text a = some new) :
    (new ++ [0]).takeWhile (· ≠ 0) = new := by
  have clean : ∀ b ∈ new, (decide (b ≠ 0)) = true := by
    unfold Ram.text at text
    split at text
    · cases text
    · obtain rfl := Option.some.inj text
      intro b member
      exact List.all_eq_true.mp List.all_takeWhile b member
  rw [List.takeWhile_append_of_pos clean]
  simp

/-- The server answers an agreeable command as the local backend does. -/
theorem handleClientRequest_matches (placed : Placed ⟨dev.ram, dev.shared⟩) (agrees : Agreeable host dev)
    (active : dev.shared.command ≠ .idle ∧ dev.shared.command ≠ .ret) :
    Matches dev (handleClientRequest host dev.fs dev.host dev.request) (dev.processLocal host) := by
  obtain ⟨pathFits, dataFits⟩ := request_fits placed agrees
  have resolved (s : σ) := resolve_getD dev.fs (host.realpath s) (dev.ram.text dev.shared.a0)
  have pathEq : dev.request.path = (dev.ram.text dev.shared.a0).getD [] := rfl
  unfold handleClientRequest
  dsimp only
  rw [if_neg pathFits, if_neg dataFits]
  have commandEq : dev.request.command = dev.shared.command := rfl
  rw [commandEq]
  unfold Device.processLocal
  dsimp only
  cases command : dev.shared.command with
  | idle => exact absurd command active.1
  | ret => exact absurd command active.2
  | init =>
    dsimp only
    cases text : dev.ram.text dev.shared.a0 with
    | none =>
      have path : dev.request.path = [] := by rw [pathEq, text]; rfl
      rw [path]
      exact matches_plain rfl rfl
    | some bytes =>
      have path : dev.request.path = bytes := by rw [pathEq, text]; rfl
      rw [path]
      cases bytes <;> exact matches_plain rfl rfl
  | term => exact matches_plain rfl rfl
  | openPath =>
    dsimp only
    unfold HostFs.openPath HostFs.openAt
    rw [enterFileAt_eq (agrees.openPath command), pathEq, openHost_getD]
    exact answerHandle_matches (by rw [command]; rfl) _
  | create =>
    dsimp only
    unfold HostFs.create HostFs.createAt
    rw [enterFileAt_eq (agrees.create command), pathEq, openHost_getD]
    exact answerHandle_matches (by rw [command]; rfl) _
  | close => exact matches_plain rfl rfl
  | read =>
    have inside := placed.buffer (Or.inl command)
    have size : min dev.request.d1 dataBuffer = dev.shared.d1 := Nat.min_eq_left (placed.size (Or.inl command))
    dsimp only
    rw [if_pos inside, size]
    exact answerBytes_matches (by rw [command]; rfl) _
  | write =>
    have inside := placed.buffer (Or.inr (Or.inl command))
    have data : dev.request.data = dev.ram.load dev.shared.a1 dev.shared.d1 := by
      simp [Device.request, Device.sentData, command]
    dsimp only
    rw [if_pos inside, data]
    exact answerCount_matches (by rw [command]; rfl) _
  | seek => exact matches_plain rfl rfl
  | readln =>
    have size : min dev.request.d1 dataBuffer = dev.shared.d1 :=
      Nat.min_eq_left (placed.size (Or.inr (Or.inr (Or.inl command))))
    dsimp only
    rw [size, readln_agrees agrees command]
    exact answerBytes_matches (by rw [command]; rfl) _
  | writeln =>
    have inside := placed.buffer (Or.inr (Or.inr command))
    have data : dev.request.data = dev.ram.load dev.shared.a1 dev.shared.d1 := by
      simp [Device.request, Device.sentData, command]
    dsimp only
    rw [if_pos inside, data]
    exact answerCount_matches (by rw [command]; rfl) _
  | getstt =>
    have stat : dev.fs.getstat host dev.host (some dev.request.path) =
        dev.fs.getstat host dev.host (dev.ram.text dev.shared.a0) := by
      unfold HostFs.getstat HostFs.onPath
      rw [pathEq, resolve_getD]
    dsimp only
    rw [stat]
    cases found : dev.fs.getstat host dev.host (dev.ram.text dev.shared.a0) with
    | error status => exact matches_plain rfl rfl
    | ok st =>
      have buffer : dev.shared.a1 ≠ 0 := by
        intro zero
        obtain ⟨status, failed⟩ := agrees.stat command zero
        rw [failed] at found
        cases found
      dsimp only
      rw [if_pos buffer]
      exact matches_data rfl (by rw [command]; rfl) rfl
  | setstt =>
    have same : dev.fs.setstat host dev.host (some dev.request.path) =
        dev.fs.setstat host dev.host (dev.ram.text dev.shared.a0) := by
      unfold HostFs.setstat
      rw [pathEq, resolve_getD]
    dsimp only
    rw [same]
    exact matches_plain rfl rfl
  | chdir =>
    have same : dev.fs.chdir host dev.host (some dev.request.path) =
        dev.fs.chdir host dev.host (dev.ram.text dev.shared.a0) := by
      unfold HostFs.chdir
      rw [pathEq, resolve_getD]
    dsimp only
    rw [same]
    exact matches_plain rfl rfl
  | mkdir =>
    dsimp only
    rw [pathEq]
    unfold HostFs.mkdir HostFs.onPath
    rw [resolve_getD]
    exact answerStatus_matches (by rw [command]; rfl) _
  | rmdir =>
    dsimp only
    rw [pathEq]
    unfold HostFs.rmdir HostFs.onPath
    rw [resolve_getD]
    exact answerStatus_matches (by rw [command]; rfl) _
  | delete =>
    dsimp only
    rw [pathEq]
    unfold HostFs.unlink HostFs.onPath
    rw [resolve_getD]
    exact answerStatus_matches (by rw [command]; rfl) _
  | rename =>
    obtain ⟨new, text, -⟩ := agrees.rename command
    have data : dev.request.data = new ++ [0] := by
      simp [Device.request, Device.sentData, command, text]
    have ended : (0 : UInt8) ∈ new ++ [0] := List.mem_append_right new (List.mem_singleton_self 0)
    dsimp only
    rw [data, if_pos ended, text_takeWhile text, text, pathEq]
    unfold HostFs.rename
    rw [resolve_getD]
    exact answerStatus_matches (by rw [command]; rfl) _
  | opendir =>
    dsimp only
    rw [pathEq]
    unfold HostFs.opendir
    rw [resolve_getD]
    exact answerHandle_matches (by rw [command]; rfl) _
  | readdir =>
    have entry := agrees.entry command
    have d0 : dev.request.d0 = dev.shared.d0 := rfl
    dsimp only
    rw [d0]
    generalize dev.fs.readdir host dev.host dev.shared.d0 = done at *
    obtain ⟨result, s⟩ := done
    cases result with
    | error status => exact matches_plain rfl rfl
    | ok found =>
      cases found with
      | none => exact matches_plain rfl rfl
      | some found =>
        have buffer : dev.shared.a1 ≠ 0 := fun zero => entry zero found rfl
        dsimp only
        rw [if_pos buffer]
        exact matches_data rfl (by rw [command]; rfl) rfl
  | ping => exact matches_plain rfl rfl
  | unknown => exact matches_plain rfl rfl

theorem processRemote_eq (base : Option Bytes) (placed : Placed ⟨dev.ram, dev.shared⟩) (agrees : Agreeable host dev) :
    dev.processRemote host base = some (dev.process host) := by
  by_cases idle : dev.shared.command = .idle ∨ dev.shared.command = .ret
  · unfold Device.processRemote
    rw [if_pos idle]
    obtain ⟨fs, s, ram, shared⟩ := dev
    obtain ⟨command, status, a0, a1, d0, d1, d2⟩ := shared
    rcases idle with is | is
    · obtain rfl : command = .idle := is
      rfl
    · obtain rfl : command = .ret := is
      rfl
  · have active := not_or.mp idle
    have sends : ¬ (dev.shared.command.sendsBuffer = true ∧ ¬ dev.ram.holds dev.shared.a1 dev.shared.d1 = true ∧
        dev.shared.d1 ≠ 0) := by
      rintro ⟨sends, outside, -⟩
      refine outside (placed.buffer ?_)
      unfold Command.sendsBuffer at sends
      split at sends
      · next command => exact Or.inr (Or.inl command)
      · next command => exact Or.inr (Or.inr command)
      · cases sends
    obtain ⟨response, fs, s, answered, same⟩ := handleClientRequest_matches placed agrees active
    unfold Device.processRemote
    rw [if_neg idle, if_neg sends, answered, process_done active.2]
    dsimp only
    rw [same]

/-! ### Side by side -/

/-- Both backends work off an order, each with its own file system and host. -/
def sideBySide (host : Host σ) (base : Option Bytes) (pair : Device σ × Device σ) (order : Order) : Option (Device σ × Device σ) :=
  ((pair.2.ordered order).processRemote host base).map fun remote => ((pair.1.ordered order).process host, remote)

/-- What the guest can see of two devices. -/
structure Same (dev dev' : Device σ) : Prop where
  status : dev.shared.status = dev'.shared.status
  d0 : dev.shared.d0 = dev'.shared.d0
  d1 : dev.shared.d1 = dev'.shared.d1
  d2 : dev.shared.d2 = dev'.shared.d2
  ram : dev.ram = dev'.ram

theorem sideBySide_eq (base : Option Bytes) {pair : Device σ × Device σ} {order : Order} (same : pair.1 = pair.2)
    (placed : Placed order) (agrees : Agreeable host (pair.1.ordered order)) :
    sideBySide host base pair order = some ((pair.1.ordered order).process host, (pair.1.ordered order).process host) := by
  unfold sideBySide
  have remote : (pair.1.ordered order).processRemote host base = some ((pair.1.ordered order).process host) :=
    processRemote_eq base placed agrees
  rw [← same, remote]
  rfl

theorem run_agrees {base : Option Bytes} {orders : List Order} (placed : ∀ order ∈ orders, Placed order)
    (agrees : RunMeets (sideBySide host base) (fun pair order => Agreeable host (pair.1.ordered order)) (dev, dev) orders) :
    ∃ after, run (sideBySide host base) (dev, dev) orders = some (after, after) := by
  induction orders generalizing dev with
  | nil => exact ⟨dev, rfl⟩
  | cons order orders ih =>
    have stepped : sideBySide host base (dev, dev) order = _ :=
      sideBySide_eq base rfl (placed order List.mem_cons_self) agrees.1
    obtain ⟨after, rest⟩ := ih (fun other member => placed other (List.mem_cons_of_mem order member)) (agrees.2 _ stepped)
    exact ⟨after, run_step stepped rest⟩

/-- From a common state on, the backends leave the same registers and memory after every command of a run
in which every command is agreeable. -/
theorem backends_interchangeable (host : Host σ) (base : Option Bytes) (dev : Device σ) (orders : List Order)
    (placed : ∀ order ∈ orders, Placed order)
    (agrees : RunMeets (sideBySide host base) (fun pair order => Agreeable host (pair.1.ordered order)) (dev, dev) orders) :
    ∀ front back, orders = front ++ back →
      ∃ here there, run (sideBySide host base) (dev, dev) front = some (here, there) ∧ Same here there := by
  rintro front back rfl
  obtain ⟨after, ran⟩ := run_agrees (fun order member => placed order (List.mem_append_left back member)) agrees.front
  exact ⟨after, after, ran, rfl, rfl, rfl, rfl, rfl⟩

end

/-! ### A file by its path number -/

def blank : Ram := ⟨fun _ => 0, 256⟩

/-- OPEN of the current directory's own name for the path number `d0`. -/
def opens (d0 : Nat) : Order := ⟨blank, ⟨.openPath, 0, 0, 0, d0, 0, 1⟩⟩

/-- A call on path 0 with two bytes at address 32. -/
def handles (command : Command) : Order := ⟨blank.store 32 [0x68, 0x69], ⟨command, 0, 0, 32, 0, 2, 0⟩⟩

def bench : Device (Finset Resource) := ⟨HostFs.init emptyHost ∅ (some [slash, 0x62]), ∅, blank, ⟨.idle, 0, 0, 0, 0, 0, 0⟩⟩

/-- The path with the lowest free number is opened, written, read and closed. -/
def session : List Order := [opens 0, handles .write, handles .read, handles .close]

theorem agreeable_handles {dev : Device (Finset Resource)} {command : Command} (is : command = .write ∨ command = .read ∨ command = .close) :
    Agreeable emptyHost (dev.ordered (handles command)) := by
  have noPath : (dev.ordered (handles command)).ram.text (dev.ordered (handles command)).shared.a0 = none := rfl
  refine ⟨fun path found => ?_, ?_, ?_, ?_, ?_, ?_, ?_⟩
  · rw [noPath] at found
    cases found
  all_goals
    intro other
    have same : command = _ := other
    rcases is with rfl | rfl | rfl <;> cases same

/-- Both backends answer the four calls alike, and the path is closed in the end. -/
theorem backends_interchangeable_lowest :
    ∃ here there, run (sideBySide emptyHost none) (bench, bench) session = some (here, there) ∧ Same here there ∧
      here.shared.status = errOk ∧ here.fs.handles 0 = none := by
  have placed : ∀ order ∈ session, Placed order := by
    intro order member
    simp only [session, List.mem_cons, List.not_mem_nil, or_false] at member
    rcases member with rfl | rfl | rfl | rfl <;> exact ⟨by decide, by decide⟩
  have agrees : RunMeets (sideBySide emptyHost none) (fun pair order => Agreeable emptyHost (pair.1.ordered order)) (bench, bench)
      session := by
    refine ⟨?_, fun _ _ => ⟨agreeable_handles (Or.inl rfl), fun _ _ => ⟨agreeable_handles (Or.inr (Or.inl rfl)),
      fun _ _ => ⟨agreeable_handles (Or.inr (Or.inr rfl)), fun _ _ => trivial⟩⟩⟩⟩
    have noPath : (bench.ordered (opens 0)).ram.text (bench.ordered (opens 0)).shared.a0 = none := rfl
    refine ⟨?_, fun _ opened _ => (by decide), nofun, nofun, nofun, nofun, nofun⟩
    intro path found
    rw [noPath] at found
    cases found
  obtain ⟨here, there, ran, same⟩ := backends_interchangeable emptyHost none bench session placed agrees session [] rfl
  have left : (run (sideBySide emptyHost none) (bench, bench) session).map
      (fun pair => (pair.1.shared.status, (pair.1.fs.handles 0).isNone)) = some (errOk, true) := by decide
  rw [ran] at left
  obtain ⟨status, closed⟩ := Prod.mk.inj (Option.some.inj left)
  exact ⟨here, there, ran, same, status, Option.isNone_iff_eq_none.mp closed⟩

/-- For path number 5 the local backend answers 5 and the remote one 0. -/
theorem path_number_ignored :
    ∃ here there, run (sideBySide emptyHost none) (bench, bench) [opens 5] = some (here, there) ∧ ¬ Same here there := by
  have numbers : (run (sideBySide emptyHost none) (bench, bench) [opens 5]).map (fun pair => (pair.1.shared.d0, pair.2.shared.d0)) =
      some (5, 0) := by decide
  cases ran : run (sideBySide emptyHost none) (bench, bench) [opens 5] with
  | none =>
    rw [ran] at numbers
    cases numbers
  | some pair =>
    rw [ran] at numbers
    refine ⟨pair.1, pair.2, rfl, fun same => ?_⟩
    obtain ⟨first, second⟩ := Prod.mk.inj (Option.some.inj numbers)
    have equal := same.d0
    omega

end Dhf

end Q9OS

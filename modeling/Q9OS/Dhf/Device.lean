import Mathlib.Tactic
import Q9OS.Lib.Mem
import Q9OS.Dhf.HostFs

/-!
# The DHF device

`dhf_emu_device.c` and the socket pair around `dhf_socket_server.c`: one command
of the guest, worked off by the local backend or sent to a remote one.
-/

namespace Q9OS

namespace Dhf

/-! ### The shared command area -/

inductive Command where
  | idle
  | create
  | openPath
  | seek
  | read
  | write
  | readln
  | writeln
  | getstt
  | setstt
  | close
  | delete
  | mkdir
  | chdir
  | rmdir
  | rename
  | opendir
  | readdir
  | init
  | term
  | ping
  | ret
  /-- Any other byte. -/
  | unknown
  deriving DecidableEq

/-- Commands whose path goes to the host file system. -/
def Command.takesPath : Command → Bool
  | .init | .openPath | .create | .getstt | .setstt | .chdir | .mkdir | .rmdir | .delete | .rename | .opendir => true
  | _ => false

structure Shared where
  command : Command
  status : Nat
  a0 : Nat
  a1 : Nat
  d0 : Nat
  d1 : Nat
  d2 : Nat
  deriving DecidableEq

/-- The memory of the guest. -/
structure Ram where
  bytes : Mem
  size : Nat

namespace Ram

/-- The `n` bytes from `a` on. -/
def load (r : Ram) (a n : Nat) : Bytes := (List.range n).map fun i => r.bytes (a + i)

def storeBytes (m : Mem) (a : Nat) : Bytes → Mem
  | [] => m
  | b :: rest => storeBytes (fun x => if x = a then b else m x) (a + 1) rest

def store (r : Ram) (a : Nat) (bytes : Bytes) : Ram := { r with bytes := storeBytes r.bytes a bytes }

/-- The buffer lies in the memory. -/
def holds (r : Ram) (a n : Nat) : Bool := a + n ≤ r.size

/-- Result bytes; a buffer outside the memory gets nothing. -/
def put (r : Ram) (a : Nat) (bytes : Bytes) : Ram := if r.holds a bytes.length then r.store a bytes else r

/-- The string at `a`, none for a null pointer or an address outside. -/
def text (r : Ram) (a : Nat) : Option Bytes :=
  if a = 0 ∨ a ≥ r.size then none else some ((r.load a (r.size - a)).takeWhile (· ≠ 0))

end Ram

/-! ### Data on the wire -/

def be32 (n : Nat) : Bytes :=
  [(n / 16777216).toUInt8, (n / 65536).toUInt8, (n / 256).toUInt8, n.toUInt8]

def Stat.bytes (st : Stat) : Bytes := be32 st.size ++ be32 st.mode ++ be32 st.mtime ++ be32 st.atime

/-- Name, size and mode of a directory entry. -/
def entryBytes (entry : Bytes × Nat × Nat) : Bytes := entry.1 ++ 0 :: (be32 entry.2.1 ++ be32 entry.2.2)

theorem stat_bytes_length (st : Stat) : st.bytes.length = 16 := rfl

theorem entryBytes_length (entry : Bytes × Nat × Nat) : (entryBytes entry).length = entry.1.length + 9 := by
  simp [entryBytes, be32]

def statusOf {α : Type} : Except Nat α → Nat
  | .ok _ => errOk
  | .error status => status

section
variable {σ : Type} (host : Host σ)

/-! ### The local backend -/

/-- File system, host, memory and registers after a command. -/
structure Device (σ : Type) where
  fs : HostFs
  host : σ
  ram : Ram
  shared : Shared

/-- The guest puts values into the command area and the memory. -/
structure Order where
  ram : Ram
  shared : Shared

namespace Device

/-- The device before it works off an order. -/
def ordered (dev : Device σ) (order : Order) : Device σ := { dev with ram := order.ram, shared := order.shared }

/-- A handle for the guest. -/
def giveHandle (dev : Device σ) (opened : Except Nat Nat × HostFs × σ) : Device σ :=
  let shared :=
    match opened.1 with
    | .ok h => { dev.shared with d0 := h, status := errOk }
    | .error status => { dev.shared with status := status }
  { dev with fs := opened.2.1, host := opened.2.2, shared := shared }

/-- A number of bytes for the guest, 0 after an error. -/
def giveCount (dev : Device σ) (done : Except Nat Nat × σ) : Device σ :=
  let count :=
    match done.1 with
    | .ok n => n % 4294967296
    | .error _ => 0
  { dev with host := done.2, shared := { dev.shared with d1 := count, status := statusOf done.1 } }

/-- Bytes for the guest, with their number. -/
def giveBytes (dev : Device σ) (done : Except Nat Bytes × σ) : Device σ :=
  match done with
  | (.ok bytes, s) =>
    { dev with
      host := s, ram := dev.ram.put dev.shared.a1 bytes
      shared := { dev.shared with d1 := bytes.length, status := errOk } }
  | (.error status, s) => { dev with host := s, shared := { dev.shared with d1 := 0, status := status } }

def giveStatus (dev : Device σ) (done : Except Nat Unit × σ) : Device σ :=
  { dev with host := done.2, shared := { dev.shared with status := statusOf done.1 } }

/-- A command whose buffer of d1 bytes lies outside the memory. -/
def badBuffer (dev : Device σ) : Device σ := { dev with shared := { dev.shared with d1 := 0, status := errBadPath } }

/-- What READLN can read into at once. -/
def lineBuffer : Nat := 4096

def processLocal (dev : Device σ) : Device σ :=
  let s := dev.shared
  let path := dev.ram.text s.a0
  match s.command with
  | .idle => dev
  | .ret => dev
  | .init =>
    let fs :=
      match path with
      | some (first :: rest) => HostFs.init host dev.host (some (first :: rest))
      | _ => dev.fs
    { dev with fs := fs, shared := { s with status := errOk } }
  | .term =>
    let done := dev.fs.cleanup host dev.host
    { dev with fs := done.1, host := done.2, shared := { s with status := errOk } }
  | .openPath => dev.giveHandle (dev.fs.openAt host dev.host s.d0 path s.d2)
  | .create => dev.giveHandle (dev.fs.createAt host dev.host s.d0 path s.d2 s.d1)
  | .close =>
    let done := dev.fs.close host dev.host s.d0
    { dev with fs := done.2.1, host := done.2.2, shared := { s with status := done.1 } }
  | .read =>
    if dev.ram.holds s.a1 s.d1 then dev.giveBytes (dev.fs.read host dev.host s.d0 s.d1) else dev.badBuffer
  | .write =>
    if dev.ram.holds s.a1 s.d1 then
      dev.giveCount (dev.fs.write host dev.host s.d0 (dev.ram.load s.a1 s.d1)) else dev.badBuffer
  | .seek =>
    let done := dev.fs.seek host dev.host s.d0 s.d1 s.d2
    let d1 :=
      match done.1 with
      | .ok pos => pos % 4294967296
      | .error _ => s.d1
    { dev with host := done.2, shared := { s with d1 := d1, status := statusOf done.1 } }
  | .readln => dev.giveBytes (dev.fs.readln host dev.host s.d0 (min s.d1 lineBuffer))
  | .writeln =>
    if dev.ram.holds s.a1 s.d1 then
      dev.giveCount (dev.fs.writeln host dev.host s.d0 (dev.ram.load s.a1 s.d1)) else dev.badBuffer
  | .getstt =>
    match dev.fs.getstat host dev.host path with
    | .ok st =>
      let ram := if s.a1 ≠ 0 then dev.ram.put s.a1 st.bytes else dev.ram
      { dev with ram := ram, shared := { s with d1 := st.bytes.length, status := errOk } }
    | .error status => { dev with shared := { s with d1 := 0, status := status } }
  | .setstt => { dev with shared := { s with status := dev.fs.setstat host dev.host path } }
  | .chdir =>
    let done := dev.fs.chdir host dev.host path
    { dev with fs := done.2, shared := { s with status := done.1 } }
  | .mkdir => dev.giveStatus (dev.fs.mkdir host dev.host path s.d1)
  | .rmdir => dev.giveStatus (dev.fs.rmdir host dev.host path)
  | .delete => dev.giveStatus (dev.fs.unlink host dev.host path)
  | .rename => dev.giveStatus (dev.fs.rename host dev.host path (dev.ram.text s.a1))
  | .opendir => dev.giveHandle (dev.fs.opendir host dev.host path)
  | .readdir =>
    match dev.fs.readdir host dev.host s.d0 with
    | (.ok (some entry), state) =>
      if s.a1 ≠ 0 then
        { dev with
          host := state, ram := dev.ram.put s.a1 (entryBytes entry)
          shared := { s with d1 := (entryBytes entry).length, status := errOk } }
      else { dev with host := state, shared := { s with d1 := 0, status := errOk } }
    | (.ok none, state) => { dev with host := state, shared := { s with d1 := 0, status := errOk } }
    | (.error status, state) => { dev with host := state, shared := { s with d1 := 0, status := status } }
  | .ping => { dev with shared := { s with status := errOk } }
  | .unknown => { dev with shared := { s with status := errUnsupported } }

/-- `dhf_emu_device_process` with the local backend. -/
def process (dev : Device σ) : Device σ :=
  let done := processLocal host dev
  { done with shared := { done.shared with command :=
      if dev.shared.command = .ret then .ret else .idle } }

end Device

end

end Dhf

end Q9OS

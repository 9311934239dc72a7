import Q9OS.Lib.Mem
import Q9OS.Lib.Word

/-!
# Pipe transfers

`pipe_io.a` with `Pipe_CopyMem` of `pipe_sub.a`: the read and write loops of
the pipe manager over the master descriptor's ring. A call runs until it
returns or goes to sleep; what it keeps in registers over a sleep is a `Call`.
-/

namespace Q9OS.Pipe

def cr : Nat := 0x0D

def errEof : Nat := 0xD3
def errBroknp : Nat := 0xF5
def errRead : Nat := 0xFA
def errWrite : Nat := 0xFB
def errDevbsy : Nat := 0xF8

/-! ### Pipe_CopyMem -/

/-- Where a copy stands: the target memory and the two pointers. -/
structure Copied where
  mem : Mem
  a0 : Nat
  a2 : Nat

def copyByteLoop (src : Mem) (k : Copied) : Nat → Copied
  | 0 => k
  | d1 + 1 => copyByteLoop src { mem := k.mem.setU8 k.a2 (src.getU8 k.a0), a0 := k.a0 + 1, a2 := k.a2 + 1 } d1

def copyLongs (src : Mem) (k : Copied) : Nat → Copied
  | 0 => k
  | d0 + 1 => copyLongs src { mem := k.mem.setU32 k.a2 (src.getU32 k.a0), a0 := k.a0 + 4, a2 := k.a2 + 4 } d0

/-- From `Pipe_CopyWords` on, with fewer than four bytes left. -/
def copyWords (src : Mem) (k : Copied) (d1 : Nat) : Copied :=
  if d1 < 2 then copyByteLoop src k d1
  else copyByteLoop src { mem := k.mem.setU16 k.a2 (src.getU16 k.a0), a0 := k.a0 + 2, a2 := k.a2 + 2 } (d1 - 2)

/-- The byte in front when the source is odd. -/
def copyOdd (src : Mem) (k : Copied) (d1 : Nat) : Copied × Nat :=
  if k.a0 % 2 = 1 then ({ mem := k.mem.setU8 k.a2 (src.getU8 k.a0), a0 := k.a0 + 1, a2 := k.a2 + 1 }, d1 - 1)
  else (k, d1)

/-- `Pipe_CopyMem`. The first test is signed: a count with the top bit set copies nothing. -/
def copyMem (src : Mem) (a0 : Nat) (dst : Mem) (a2 d1 : Nat) : Copied :=
  let k : Copied := { mem := dst, a0 := a0, a2 := a2 }
  if d1 = 0 ∨ 0x80000000 ≤ d1 then k
  else if d1 < 12 then copyByteLoop src k d1
  else
    let (k, d1) := copyOdd src k d1
    if k.a2 % 2 = 1 then copyByteLoop src k d1
    else copyWords src (copyLongs src k (d1 / 4)) (d1 % 4)

/-! ### The master descriptor and its surroundings -/

/-- The buffer fields of the master descriptor and the memory the buffer lies in. -/
structure Ring where
  buf : Nat
  bufSz : Nat
  bufEnd : Nat
  rdPtr : Nat
  rdByt : Nat
  wrPtr : Nat
  wrSpc : Nat
  mem : Mem

/-- What the loops read and write besides the ring: user memory, the lock word `PD_CPR` of each
path, `P_Signal` of each process, the waiter words, end counts and data signal of the master
descriptor, and every signal sent so far. -/
structure World where
  user : Mem
  cpr : Nat → Nat
  signal : Nat → Nat
  rdWat : Nat
  wrWat : Nat
  rdOpn : Nat
  wrOpn : Nat
  sigPid : Nat
  sigCode : Nat
  sent : List (Nat × Nat)

inductive Dir
  | read
  | write
  deriving DecidableEq, Repr

/-- What `a4` points to: the process descriptor, or what a transfer has left in it. -/
inductive Base
  | desc
  | user (addr : Nat)
  | ring (addr : Nat)
  deriving DecidableEq, Repr

/-- A call in progress: `line` is `d7`, `want` the count it was called with, `moved` the bytes it
has moved so far. -/
structure Call where
  dir : Dir
  line : Bool
  pid : Nat
  path : Nat
  a3 : Nat
  want : Nat
  d5 : Nat
  d6 : Nat
  a4 : Base
  moved : List UInt8

/-- The two sleeps: until woken, and one tick for the path lock. -/
inductive Place
  | wait
  | acquire
  deriving DecidableEq, Repr

/-- `stuck` is a loop that never came to an end. -/
inductive Outcome
  | asleep (c : Call) (place : Place)
  | back (c : Call) (err : Option Nat)
  | stuck

/-- `P_ID(a4)`. -/
def pidAt (r : Ring) (w : World) (c : Call) : Nat :=
  match c.a4 with
  | .desc => c.pid
  | .user addr => w.user.getU16 addr
  | .ring addr => r.mem.getU16 addr

/-- `P_Signal(a4)`. -/
def signalAt (r : Ring) (w : World) (c : Call) : Nat :=
  match c.a4 with
  | .desc => w.signal c.pid
  | .user addr => w.user.getU16 (addr + 38)
  | .ring addr => r.mem.getU16 (addr + 38)

def World.setCpr (w : World) (path pid : Nat) : World := { w with cpr := Function.update w.cpr path pid }

/-- `Pipe_SysSend`. -/
def World.send (w : World) (pid sig : Nat) : World := { w with sent := w.sent ++ [(pid, sig)] }

/-- The bytes of one pass: what is left of the request, what the ring has, and up to its end. -/
def chunk (r : Ring) (d6 d2 ptr : Nat) : Nat :=
  let d1 := if d6 ≤ d2 then d6 else d2
  let d0 := sub32 r.bufEnd ptr
  if d1 ≤ d0 then d1 else d0

def wrapPtr (r : Ring) (a0 : Nat) : Nat := if a0 < r.bufEnd then a0 else r.buf

/-- After one pass: `ptr` the new ring pointer before wrapping, `d0` the bytes counted, `dst` how
far the target was filled. -/
structure Pass where
  mem : Mem
  ptr : Nat
  dst : Nat
  a4 : Nat
  d0 : Nat
  d3 : Nat

/-! ### Reading -/

def rdBlock (r : Ring) (user : Mem) (dst d1 : Nat) : Pass :=
  let k := copyMem r.mem r.rdPtr user dst d1
  { mem := k.mem, ptr := k.a0, dst := k.a2, a4 := dst, d0 := sub32 k.a0 r.rdPtr, d3 := 0 }

/-- `Pipe_RdLnByte`: the counters go along with each byte, kept here as one count. -/
def rdLnByte (r : Ring) (p : Pass) : Pass :=
  { mem := p.mem.setU8 p.a4 (r.mem.getU8 p.ptr), ptr := p.ptr + 1, dst := p.a4 + 1, a4 := p.a4 + 1,
    d0 := p.d0 + 1, d3 := r.mem.getU8 p.ptr }

/-- The loop is left after its byte; the argument is what `d1` still allows behind it. -/
def rdLnLoop (r : Ring) (p : Pass) : Nat → Pass
  | 0 => rdLnByte r p
  | d1 + 1 => if (rdLnByte r p).d3 = cr then rdLnByte r p else rdLnLoop r (rdLnByte r p) d1

def rdPass (r : Ring) (user : Mem) (line : Bool) (dst d1 : Nat) : Pass :=
  if line then rdLnLoop r { mem := user, ptr := r.rdPtr, dst := dst, a4 := dst, d0 := 0, d3 := 0 } (sub32 d1 1)
  else rdBlock r user dst d1

def Ring.took (r : Ring) (p : Pass) : Ring :=
  { r with rdByt := sub32 r.rdByt p.d0, wrSpc := add32 r.wrSpc p.d0, rdPtr := wrapPtr r p.ptr }

/-- The waiting writer is woken. -/
def World.wakeWriter (w : World) : World :=
  if w.wrWat = 0 then w else World.send { w with wrWat := 0 } w.wrWat 1

/-- What the call keeps after a pass; the bytes it moved are those now in its buffer. -/
def Call.passed (c : Call) (p : Pass) (a4 : Base) (moved : List UInt8) : Call :=
  { c with d5 := add32 c.d5 p.d0, d6 := sub32 c.d6 p.d0, a4 := a4, moved := c.moved ++ moved }

/-- `Pipe_RdLoop`; the first argument bounds the passes. -/
def rdLoop : Nat → Ring → World → Call → Ring × World × Outcome
  | 0, r, w, _ => (r, w, .stuck)
  | fuel + 1, r, w, c =>
    if c.d6 = 0 then (r, w, .back c none)
    else if r.rdByt = 0 then
      if w.wrOpn = 0 then
        if c.d5 ≠ 0 then (r, w, .back c none) else (r, w, .back c (some errEof))
      else (r, { w.setCpr c.path 0 with rdWat := pidAt r w c }, .asleep c .wait)
    else
      let dst := c.a3 + c.d5
      let p := rdPass r w.user c.line dst (chunk r c.d6 r.rdByt r.rdPtr)
      let c := c.passed p (.user p.a4) (p.mem.bytes dst (p.dst - dst))
      let w := World.wakeWriter { w with user := p.mem }
      if c.line ∧ p.d3 = cr then (r.took p, w, .back c none)
      else rdLoop fuel (r.took p) w c

/-- From `Pipe_RdReAcquire` on. -/
def rdReAcquire (r : Ring) (w : World) (c : Call) : Ring × World × Outcome :=
  if w.cpr c.path ≠ 0 then (r, w, .asleep c .acquire)
  else
    let w := w.setCpr c.path (pidAt r w c)
    if signalAt r w c = 0 then rdLoop (c.d6 + 1) r w c
    else if c.d5 ≠ 0 then (r, w, .back c none) else (r, w, .back c (some errRead))

/-! ### Writing -/

def wrBlock (r : Ring) (user : Mem) (src d1 : Nat) : Pass :=
  let k := copyMem user src r.mem r.wrPtr d1
  { mem := k.mem, ptr := k.a2, dst := k.a2, a4 := k.a2, d0 := sub32 k.a2 r.wrPtr, d3 := 0 }

/-- `Pipe_WrLnByte`; `dst` follows the source pointer here. -/
def wrLnByte (user : Mem) (p : Pass) : Pass :=
  { mem := p.mem.setU8 p.a4 (user.getU8 p.dst), ptr := p.a4 + 1, dst := p.dst + 1, a4 := p.a4 + 1,
    d0 := p.d0 + 1, d3 := user.getU8 p.dst }

def wrLnLoop (user : Mem) (p : Pass) : Nat → Pass
  | 0 => wrLnByte user p
  | d1 + 1 => if (wrLnByte user p).d3 = cr then wrLnByte user p else wrLnLoop user (wrLnByte user p) d1

def wrPass (r : Ring) (user : Mem) (line : Bool) (src d1 : Nat) : Pass :=
  if line then wrLnLoop user { mem := r.mem, ptr := r.wrPtr, dst := src, a4 := r.wrPtr, d0 := 0, d3 := 0 } (sub32 d1 1)
  else wrBlock r user src d1

def Ring.gave (r : Ring) (p : Pass) : Ring :=
  { r with rdByt := add32 r.rdByt p.d0, wrSpc := sub32 r.wrSpc p.d0, wrPtr := wrapPtr r p.ptr, mem := p.mem }

def World.wakeReader (w : World) : World :=
  if w.rdWat = 0 then w else World.send { w with rdWat := 0 } w.rdWat 1

/-- `Pipe_WrCheckSignal`: the process that asked to be told of data. -/
def World.dataSignal (w : World) : World :=
  if w.sigPid = 0 then w else World.send { w with sigPid := 0 } w.sigPid w.sigCode

/-- `Pipe_WrLoop`; the bytes a pass moved are those of the user's buffer the ring pointer went over. -/
def wrLoop : Nat → Ring → World → Call → Ring × World × Outcome
  | 0, r, w, _ => (r, w, .stuck)
  | fuel + 1, r, w, c =>
    if c.d6 = 0 then (r, w, .back c none)
    else if w.rdOpn = 0 then
      if c.d5 ≠ 0 then (r, w, .back c none) else (r, w, .back c (some errBroknp))
    else if r.wrSpc = 0 then (r, { w.setCpr c.path 0 with wrWat := pidAt r w c }, .asleep c .wait)
    else
      let src := c.a3 + c.d5
      let p := wrPass r w.user c.line src (chunk r c.d6 r.wrSpc r.wrPtr)
      let c := c.passed p (.ring p.a4) (w.user.bytes src (p.ptr - r.wrPtr))
      let w := w.wakeReader.dataSignal
      if c.line ∧ p.d3 = cr then (r.gave p, w, .back c none)
      else wrLoop fuel (r.gave p) w c

/-- From `Pipe_WrReAcquire` on. -/
def wrReAcquire (r : Ring) (w : World) (c : Call) : Ring × World × Outcome :=
  if w.cpr c.path ≠ 0 then (r, w, .asleep c .acquire)
  else
    let w := w.setCpr c.path (pidAt r w c)
    if signalAt r w c = 0 then wrLoop (c.d6 + 1) r w c
    else if c.d5 ≠ 0 then (r, w, .back c none) else (r, w, .back c (some errWrite))

/-! ### Calls -/

/-- `Pipe_Read`, `Pipe_ReadLn`, `Pipe_Write` and `Pipe_WritLn` up to their loop. -/
def Call.enter (dir : Dir) (line : Bool) (pid path a0 d1 : Nat) : Call :=
  { dir := dir, line := line, pid := pid, path := path, a3 := a0, want := d1, d5 := 0, d6 := d1,
    a4 := .desc, moved := [] }

def Call.begin (r : Ring) (w : World) (c : Call) : Ring × World × Outcome :=
  match c.dir with
  | .read => rdLoop (c.d6 + 1) r w c
  | .write => wrLoop (c.d6 + 1) r w c

/-- What a call does when its sleep ends. -/
def Call.resume (r : Ring) (w : World) (c : Call) : Place → Ring × World × Outcome
  | .wait =>
    match c.dir with
    | .read => rdReAcquire r { w with rdWat := 0 } c
    | .write => wrReAcquire r { w with wrWat := 0 } c
  | .acquire =>
    match c.dir with
    | .read => rdReAcquire r w c
    | .write => wrReAcquire r w c

/-- `Pipe_SetStatSize`: an empty ring starts over; the size itself stays. -/
def Ring.setStatSize (r : Ring) : Ring × Option Nat :=
  if r.rdByt ≠ 0 then (r, some errDevbsy)
  else ({ r with rdPtr := r.buf, wrPtr := r.buf, wrSpc := r.bufSz }, none)

/-- `Pipe_WakeProcess`. -/
def World.wakeProcess (w : World) (d0 : Nat) : World := if d0 = 0 then w else w.send d0 1

/-- `Pipe_Close` up to `Pipe_CloseChkWr` for a path of mode `d0`: the reader's side. The PID of the
waiting writer is left in `d0`. -/
def World.closeRead (w : World) (d0 : Nat) : World × Nat :=
  if d0.testBit 0 ∧ w.rdOpn ≠ 0 then
    ({ World.wakeProcess { w with rdOpn := w.rdOpn - 1 } w.wrWat with wrWat := 0 }, w.wrWat)
  else (w, d0)

/-- `Pipe_CloseChkWr`. -/
def World.closeWrite (w : World) (d0 : Nat) : World :=
  if d0.testBit 1 ∧ w.wrOpn ≠ 0 then
    { World.wakeProcess { w with wrOpn := w.wrOpn - 1 } w.rdWat with rdWat := 0 }
  else w

/-- What `Pipe_Close` does to the end counts and the waiters. -/
def World.close (w : World) (mode : Nat) : World := (w.closeRead mode).1.closeWrite (w.closeRead mode).2

/-- The ring `Pipe_Create` sets up over a buffer of `size` bytes. -/
def Ring.create (buf size : Nat) (mem : Mem) : Ring :=
  { buf := buf, bufSz := size, bufEnd := buf + size, rdPtr := buf, rdByt := 0, wrPtr := buf, wrSpc := size, mem := mem }

end Q9OS.Pipe

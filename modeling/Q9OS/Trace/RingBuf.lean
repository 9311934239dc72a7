import Mathlib.Tactic
import Q9OS.Lib.Ring
import Q9OS.Lib.Word

/-!
# Ring buffer of records

`q9ringbuf.c`: records with their length in the second byte, kept in a ring. A full
ring either refuses new records or gives up old ones, and then a marker with their
number goes in front of the oldest record that is left.
-/

namespace Q9OS

/-- A record: its length stands in its second byte. -/
structure IsRecord (r : List UInt8) : Prop where
  two_le : 2 ≤ r.length
  le_255 : r.length ≤ 255
  tagged : r[1]? = some r.length.toUInt8

/-- The formatter of markers. The header demands one length for every count, at most
Q9RINGBUF_LOSTMARKER_MAX. -/
structure LostFormatter where
  len : Nat
  format : Nat → List UInt8
  fixed : ∀ n, (format n).length = len
  record : ∀ n, IsRecord (format n)
  len_le : len ≤ 24

inductive RingMode where
  | overwrite
  | halt
  deriving DecidableEq

structure RingBuf where
  data : Nat → UInt8
  size : Nat
  writeOff : Nat
  readOff : Nat
  used : Nat
  writtenCount : Nat
  lostCount : Nat
  lostFmt : Option LostFormatter
  mode : RingMode

/-! ### The marker of the trace (`q9trace.c`) -/

def tracePutHeader (recType recLen code flags : UInt8) (pid : UInt16) (tick : UInt32) (fineTime : UInt16) :
    List UInt8 :=
  [recType, recLen, code, flags, (pid >>> 8).toUInt8, pid.toUInt8, (tick >>> 24).toUInt8, (tick >>> 16).toUInt8,
    (tick >>> 8).toUInt8, tick.toUInt8, (fineTime >>> 8).toUInt8, fineTime.toUInt8]

def traceBuildLostRecord (pid : UInt16) (tick : UInt32) (fineTime : UInt16) (lostCount : UInt32) : List UInt8 :=
  tracePutHeader 5 16 0 0 pid tick fineTime ++
    [(lostCount >>> 24).toUInt8, (lostCount >>> 16).toUInt8, (lostCount >>> 8).toUInt8, lostCount.toUInt8]

def traceLostRecordFormatter : LostFormatter where
  len := 16
  format n := traceBuildLostRecord 0 0 0 n.toUInt32
  fixed _ := rfl
  record _ := ⟨by simp [traceBuildLostRecord, tracePutHeader], by simp [traceBuildLostRecord, tracePutHeader], rfl⟩
  len_le := by decide

namespace RingBuf

def init (data : Nat → UInt8) (size : Nat) (mode : RingMode) (fmt : Option LostFormatter) : RingBuf :=
  ⟨data, size, 0, 0, 0, 0, 0, fmt, mode⟩

/-- An offset that has left the buffer comes in again at its start. -/
def around (rb : RingBuf) (off : Nat) : Nat := if off ≥ rb.size then off - rb.size else off

def recLenAt (rb : RingBuf) (off : Nat) : Nat := (rb.data (rb.around (add32 off 1))).toNat

def setByte (rb : RingBuf) (pos : Nat) (b : UInt8) : RingBuf :=
  { rb with data := fun x => if x = pos then b else rb.data x }

def copyFrom (rb : RingBuf) (off : Nat) : Nat → List UInt8 → RingBuf
  | _, [] => rb
  | i, b :: rest => copyFrom (rb.setByte (rb.around (add32 off i)) b) off (i + 1) rest

def copyIn (rb : RingBuf) (off : Nat) (src : List UInt8) : RingBuf := rb.copyFrom off 0 src

/-- Passes over `len` bytes at the read offset. -/
def skip (rb : RingBuf) (len : Nat) : RingBuf :=
  { rb with readOff := rb.around (add32 rb.readOff len), used := sub32 rb.used len }

/-- Gives up `len` bytes at the read offset, a record. -/
def lose (rb : RingBuf) (len : Nat) : RingBuf := { rb.skip len with lostCount := add32 rb.lostCount 1 }

/-- Gives up records until `need` bytes are free: the ring, and how many were lost. -/
def dropLoop (need : Nat) : Nat → RingBuf → Nat → Nat → RingBuf × Nat
  | 0, rb, _, lost => (rb, lost)
  | fuel + 1, rb, free, lost =>
    if need ≤ free then (rb, lost)
    else
      let oldLen := rb.recLenAt rb.readOff
      -- A ring that holds no whole record is emptied.
      if oldLen = 0 ∨ oldLen > rb.used then ({ rb with readOff := rb.writeOff, used := 0 }, lost)
      else
        dropLoop need fuel (rb.lose oldLen) (add32 free oldLen) (add32 lost 1)

def markerLen (rb : RingBuf) : Nat :=
  match rb.lostFmt with
  | none => 0
  | some f => if (f.format 0).length > rb.size then 0 else (f.format 0).length

/-- The marker goes right before the read offset. -/
def putMarker (rb : RingBuf) (marker : List UInt8) : RingBuf :=
  let pos := rb.around (sub32 (add32 rb.readOff rb.size) rb.markerLen)
  { rb.copyIn pos marker with readOff := pos, used := add32 rb.used marker.length }

def mark (rb : RingBuf) (lost : Nat) : RingBuf :=
  match rb.lostFmt with
  | none => rb
  | some f => if lost > 0 ∧ rb.markerLen > 0 then rb.putMarker (f.format lost) else rb

def append (rb : RingBuf) (rec : List UInt8) : RingBuf :=
  { rb.copyIn rb.writeOff rec with
    writeOff := rb.around (add32 rb.writeOff rec.length),
    used := add32 rb.used rec.length,
    writtenCount := add32 rb.writtenCount 1 }

/-- What the overwriting branch gives up for a record. -/
def giveUp (rb : RingBuf) (recLen : Nat) : RingBuf × Nat :=
  dropLoop (add32 recLen rb.markerLen) (rb.used + 1) rb (sub32 rb.size rb.used) 0

def write (rb : RingBuf) (rec : List UInt8) : Bool × RingBuf :=
  if rec.length = 0 ∨ rec.length > rb.size then (false, rb)
  else if rec.length ≤ sub32 rb.size rb.used then (true, rb.append rec)
  else
    match rb.mode with
    | .halt => (false, { rb with lostCount := add32 rb.lostCount 1 })
    | .overwrite => (true, ((rb.giveUp rec.length).1.mark (rb.giveUp rec.length).2).append rec)

def copyOut (rb : RingBuf) (off len : Nat) : List UInt8 :=
  (List.range len).map fun i => rb.data (rb.around (add32 off i))

/-- Copies whole records out: the bytes, the offset behind them and what remains. -/
def readLoop (rb : RingBuf) (maxBytes : Nat) : Nat → Nat → Nat → List UInt8 → List UInt8 × Nat × Nat
  | 0, off, remaining, dst => (dst, off, remaining)
  | fuel + 1, off, remaining, dst =>
    if remaining = 0 then (dst, off, remaining)
    else
      let recLen := rb.recLenAt off
      if recLen = 0 ∨ recLen > remaining then (dst, off, remaining)
      else if add32 dst.length recLen > maxBytes then (dst, off, remaining)
      else
        readLoop rb maxBytes fuel (rb.around (add32 off recLen)) (remaining - recLen)
          (dst ++ rb.copyOut off recLen)

/-- The bytes read, the number of lost records so far, and the ring after. -/
def read (rb : RingBuf) (maxBytes : Nat) : (List UInt8 × Nat) × RingBuf :=
  let out := rb.readLoop maxBytes (rb.used + 1) rb.readOff rb.used []
  ((out.1, rb.lostCount), { rb with readOff := out.2.1, used := out.2.2 })

def clear (rb : RingBuf) : RingBuf := { rb with writeOff := 0, readOff := 0, used := 0 }

/-- The used bytes in reading order. -/
def content (rb : RingBuf) : List UInt8 := Ring.span rb.data rb.size rb.readOff rb.used

end RingBuf

end Q9OS

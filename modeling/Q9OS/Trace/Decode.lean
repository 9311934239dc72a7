import Mathlib.Tactic
import Q9OS.Trace.Records

/-!
# Recording and decoding system calls

`q9kernel_dbg.c` and `q9trace.c` write a record for every system call entry and
return, `q9trace_decode.py` takes a dump of the ring apart again.
-/

namespace Q9OS

namespace Trace

/-! ### Recording -/

/-- Registers of the caller. -/
structure Regs where
  d0 : UInt32
  d1 : UInt32
  d2 : UInt32
  a0 : UInt32
  a1 : UInt32
  deriving DecidableEq

inductive Kind where
  | entry
  | return
  deriving DecidableEq

/-- A logged call: what `LogCommon` gets and what it reads. There are no registers when the hook gave no
pointer to them. -/
structure Event where
  kind : Kind
  code : UInt8
  depth : Fin 16
  carry : Bool
  pid : UInt16
  tick : UInt32
  detail : Nat
  regs : Option Regs
  mem : Nat → UInt8

def maxName : Nat := 15
def maxRec : Nat := 64
def hdrLen : Nat := 12
def nameAddrLimit : Nat := 0xFF000000

def Kind.recType : Kind → UInt8
  | .entry => 1
  | .return => 2

/-- The calls whose a0 points to a name. -/
def dbgTakesName (code : UInt8) : Bool :=
  code ∈ ([0x00, 0x01, 0x03, 0x05, 0x10, 0x21, 0x80, 0x83, 0x84, 0x85, 0x86, 0x87] : List UInt8)

def be32 (x : UInt32) : List UInt8 := [(x >>> 24).toUInt8, (x >>> 16).toUInt8, (x >>> 8).toUInt8, x.toUInt8]

def Regs.bytes (r : Regs) : List UInt8 := be32 r.d0 ++ be32 r.d1 ++ be32 r.d2 ++ be32 r.a0 ++ be32 r.a1

/-- Up to `n` printable characters from `a` on. -/
def copyName (mem : Nat → UInt8) : Nat → Nat → List UInt8
  | 0, _ => []
  | n + 1, a => if mem a ≤ 0x20 ∨ mem a ≥ 0x7F then [] else mem a :: copyName mem n (a + 1)

/-- The name with its length, if a0 points to memory. -/
def namePayload (mem : Nat → UInt8) (a0 : Nat) : List UInt8 :=
  if a0 ≠ 0 ∧ a0 < nameAddrLimit then
    let name := copyName mem maxName a0
    name.length.toUInt8 :: name
  else []

def buildPayload (e : Event) : List UInt8 :=
  match e.regs with
  | none => []
  | some regs =>
    if e.detail < 2 then []
    else if e.kind = .entry ∧ dbgTakesName e.code then regs.bytes ++ namePayload e.mem regs.a0.toNat
    else regs.bytes

def flagsOf (depth : Fin 16) (carry trunc : Bool) : UInt8 :=
  (depth.val.toUInt8 ||| (if carry then 0x10 else 0)) ||| (if trunc then 0x20 else 0)

/-- `Q9TraceBuildRecord` for entries and returns. -/
def buildRecord (recType code : UInt8) (depth : Fin 16) (carry : Bool) (pid : UInt16) (tick : UInt32) (fineTime : UInt16)
    (payload : List UInt8) : List UInt8 :=
  let cut := payload.take (maxRec - hdrLen)
  tracePutHeader recType (hdrLen + cut.length).toUInt8 code
    (flagsOf depth carry (payload.length > maxRec - hdrLen)) pid tick fineTime ++ cut

def Event.record (e : Event) : List UInt8 :=
  buildRecord e.kind.recType e.code e.depth e.carry e.pid e.tick 0 (buildPayload e)

/-! ### Decoding -/

/-- What the dump says of a stretch of the stream. -/
inductive Chunk where
  | ok (rec : List UInt8)
  | broken
  deriving DecidableEq

/-- Records from the front of a stream, until it ends or one is broken. -/
def cutRecords : Nat → List UInt8 → List Chunk
  | 0, _ => []
  | _ + 1, [] => []
  | fuel + 1, stream =>
    if stream.length < 12 then [.broken]
    else
      let rlen := (stream[1]?.getD 0).toNat
      if rlen < 12 ∨ rlen > stream.length then [.broken]
      else .ok (stream.take rlen) :: cutRecords fuel (stream.drop rlen)

/-- `records` of a dumped ring. -/
def records (size rd used : Nat) (data : List UInt8) : List Chunk :=
  if size = 0 ∨ rd ≥ size ∨ used > size ∨ data.length < size then [.broken]
  else
    let stream := (List.range used).map fun i => data[(rd + i) % size]?.getD 0
    cutRecords (stream.length + 1) stream

/-- Big-endian value of `n` bytes at `i`. -/
def field (rec : List UInt8) (i : Nat) : Nat → Nat
  | 0 => 0
  | n + 1 => field rec i n * 256 + (rec[i + n]?.getD 0).toNat

/-- The record as `parse` returns it. -/
structure Parsed where
  type : Nat
  len : Nat
  code : Nat
  flags : Nat
  depth : Nat
  carry : Bool
  trunc : Bool
  pid : Nat
  tick : Nat
  lost : Option Nat
  user : Option Nat
  timeRaw : Option Nat
  regs : Option (List Nat)
  name : Option (List UInt8)
  deriving DecidableEq

def parse (rec : List UInt8) : Parsed :=
  let type := field rec 0 1
  let len := field rec 1 1
  let flags := field rec 3 1
  let hasRegs := (type = 1 ∨ type = 2) ∧ len ≥ 32
  { type := type, len := len, code := field rec 2 1, flags := flags
    depth := flags % 16, carry := flags / 16 % 2 = 1, trunc := flags / 32 % 2 = 1
    pid := field rec 4 2, tick := field rec 6 4
    lost := if type = 5 ∧ len ≥ 16 then some (field rec 12 4) else none
    user := if type = 6 ∧ len ≥ 14 then some (field rec 12 2) else none
    timeRaw := if type = 7 ∧ len ≥ 16 then some (field rec 12 4) else none
    regs := if hasRegs then some ((List.range 5).map fun i => field rec (12 + 4 * i) 4) else none
    name := if hasRegs ∧ len > 32 then some ((rec.drop 33).take (field rec 32 1)) else none }

/-- All the records of a ring, as the decoder reports them; none for a broken one. -/
def decode (rb : RingBuf) : List (Option Parsed) :=
  (records rb.size rb.readOff rb.used ((List.range rb.size).map rb.data)).map fun chunk =>
    match chunk with
    | .ok rec => some (parse rec)
    | .broken => none

/-! ### What should come out -/

/-- Up to `n` characters of the OS-9 name at `a`: it ends before a null, a carriage return or a space, or with
a character whose highest bit is set. -/
def osName (mem : Nat → UInt8) : Nat → Nat → List UInt8
  | 0, _ => []
  | n + 1, a =>
    if mem a = 0 ∨ mem a = 0x0D ∨ mem a = 0x20 then []
    else if mem a ≥ 0x80 then [mem a - 0x80] else mem a :: osName mem n (a + 1)

/-- A call as the decoder shows it. -/
structure Call where
  type : Nat
  code : Nat
  depth : Nat
  carry : Bool
  trunc : Bool
  pid : Nat
  tick : Nat
  regs : Option (List Nat)
  name : Option (List UInt8)
  deriving DecidableEq

def Parsed.call (p : Parsed) : Call := ⟨p.type, p.code, p.depth, p.carry, p.trunc, p.pid, p.tick, p.regs, p.name⟩

def Regs.values (r : Regs) : List Nat := [r.d0.toNat, r.d1.toNat, r.d2.toNat, r.a0.toNat, r.a1.toNat]

namespace Event

/-- The registers that go with a record. -/
def shown (e : Event) : Option Regs := if e.detail < 2 then none else e.regs

/-- Where the name of a call lies in memory, for a call that takes one. -/
def nameAddr (e : Event) : Option Nat :=
  match e.shown with
  | none => none
  | some regs =>
    if (e.kind = .entry ∧ dbgTakesName e.code) ∧ regs.a0.toNat ≠ 0 ∧ regs.a0.toNat < nameAddrLimit then some regs.a0.toNat
    else none

/-- The call with this name and mark. -/
def told (e : Event) (name : Option (List UInt8)) (trunc : Bool) : Call :=
  ⟨e.kind.recType.toNat, e.code.toNat, e.depth.val, e.carry, trunc, e.pid.toNat, e.tick.toNat, e.shown.map Regs.values, name⟩

/-- The call as it was made. -/
def call (e : Event) : Call :=
  e.told (e.nameAddr.map (osName e.mem maxName)) (e.nameAddr.any fun a => (osName e.mem (maxName + 1) a).length > maxName)

end Event

/-- A name of at most `n` printable characters, closed by a null, a carriage return or a space. -/
def Plain (mem : Nat → UInt8) : Nat → Nat → Prop
  | 0, a => mem a = 0 ∨ mem a = 0x0D ∨ mem a = 0x20
  | n + 1, a => (mem a = 0 ∨ mem a = 0x0D ∨ mem a = 0x20) ∨ (0x21 ≤ mem a ∧ mem a ≤ 0x7E ∧ Plain mem n (a + 1))

theorem printable_iff (c : UInt8) : (0x21 ≤ c ∧ c ≤ 0x7E) ↔ ¬ (c ≤ 0x20 ∨ c ≥ 0x7F) := by
  simp only [ge_iff_le, UInt8.le_iff_toNat_le, UInt8.reduceToNat]
  omega

/-- Exactly the plain names are copied whole. -/
theorem plain_iff (mem : Nat → UInt8) (n a : Nat) :
    Plain mem n a ↔ copyName mem n a = osName mem n a ∧ (osName mem (n + 1) a).length ≤ n := by
  induction n generalizing a with
  | zero =>
    unfold Plain osName copyName osName
    by_cases ends : mem a = 0 ∨ mem a = 0x0D ∨ mem a = 0x20
    · simp [ends]
    · simp only [ends, false_iff, if_false]
      split <;> simp
  | succ n ih =>
    have next := ih (a + 1)
    by_cases ends : mem a = 0 ∨ mem a = 0x0D ∨ mem a = 0x20
    · have low : mem a ≤ 0x20 := by
        rcases ends with same | same | same <;> rw [same] <;> decide
      simp [Plain, osName, copyName, ends, low]
    · by_cases inside : mem a ≤ 0x20 ∨ mem a ≥ 0x7F
      · -- the copy stops here, the name does not
        have other := mt (printable_iff (mem a)).mp (not_not.mpr inside)
        have stops : ¬ Plain mem (n + 1) a := by
          rintro (closed | ⟨low, high, -⟩)
          · exact ends closed
          · exact other ⟨low, high⟩
        refine iff_of_false stops ?_
        rintro ⟨same, -⟩
        rw [copyName, if_pos inside, osName, if_neg ends] at same
        split at same <;> cases same
      · have printable := (printable_iff (mem a)).mpr inside
        have plain : ¬ mem a ≥ 0x80 := by
          simp only [ge_iff_le, UInt8.le_iff_toNat_le, UInt8.reduceToNat] at *
          omega
        have step : Plain mem (n + 1) a ↔ Plain mem n (a + 1) := by
          simp [Plain, ends, printable]
        have copied : copyName mem (n + 1) a = mem a :: copyName mem n (a + 1) := if_neg inside
        have named (k : Nat) : osName mem (k + 1) a = mem a :: osName mem k (a + 1) := by
          rw [osName, if_neg ends, if_neg plain]
        rw [step, next, copied, named, named, List.cons.injEq, List.length_cons, Nat.add_le_add_iff_right]
        simp

/-! ### Taking a record apart -/

theorem field_append (pre l : List UInt8) (i n : Nat) : field (pre ++ l) (pre.length + i) n = field l i n := by
  induction n with
  | zero => rfl
  | succ n ih =>
    have byte : (pre ++ l)[pre.length + i + n]? = l[i + n]? := by
      rw [List.getElem?_append_right (by omega)]
      congr 1
      omega
    rw [field, field, ih, byte]

theorem field_be32 (x : UInt32) (l : List UInt8) : field (be32 x ++ l) 0 4 = x.toNat := by
  have bound := x.toNat_lt
  simp only [field, be32, List.cons_append, List.nil_append, Nat.zero_add, List.getElem?_cons_succ, List.getElem?_cons_zero,
    Option.getD_some, UInt32.toNat_toUInt8, UInt32.toNat_shiftRight, UInt32.reduceToNat, Nat.shiftRight_eq_div_pow,
    Nat.reduceMod, Nat.reducePow, Nat.zero_mul]
  omega

/-- The registers of a record. -/
theorem field_regs (pre l : List UInt8) (r : Regs) :
    (List.range 5).map (fun i => field (pre ++ (r.bytes ++ l)) (pre.length + 4 * i) 4) = r.values := by
  have fields : (List.range 5).map (fun i => field (r.bytes ++ l) (4 * i) 4) = r.values := by
    have skip (x : UInt32) (rest : List UInt8) (i : Nat) : field (be32 x ++ rest) (4 + i) 4 = field rest i 4 :=
      field_append (be32 x) rest i 4
    have parts : r.bytes ++ l = be32 r.d0 ++ (be32 r.d1 ++ (be32 r.d2 ++ (be32 r.a0 ++ (be32 r.a1 ++ l)))) := by
      simp [Regs.bytes]
    rw [parts]
    have second := (skip r.d0 _ 0).trans (field_be32 r.d1 (be32 r.d2 ++ (be32 r.a0 ++ (be32 r.a1 ++ l))))
    have third := (skip r.d0 _ 4).trans ((skip r.d1 _ 0).trans (field_be32 r.d2 (be32 r.a0 ++ (be32 r.a1 ++ l))))
    have fourth := (skip r.d0 _ 8).trans ((skip r.d1 _ 4).trans ((skip r.d2 _ 0).trans (field_be32 r.a0 (be32 r.a1 ++ l))))
    have fifth := (skip r.d0 _ 12).trans ((skip r.d1 _ 8).trans ((skip r.d2 _ 4).trans ((skip r.a0 _ 0).trans
      (field_be32 r.a1 l))))
    show [field _ 0 4, field _ 4 4, field _ 8 4, field _ 12 4, field _ 16 4] = _
    rw [field_be32, second, third, fourth, fifth]
    rfl
  simp only [field_append]
  exact fields

/-- The header of a record. -/
theorem parse_header (recType recLen code flags : UInt8) (pid : UInt16) (tick : UInt32) (l : List UInt8) :
    field (tracePutHeader recType recLen code flags pid tick 0 ++ l) 0 1 = recType.toNat ∧
    field (tracePutHeader recType recLen code flags pid tick 0 ++ l) 1 1 = recLen.toNat ∧
    field (tracePutHeader recType recLen code flags pid tick 0 ++ l) 2 1 = code.toNat ∧
    field (tracePutHeader recType recLen code flags pid tick 0 ++ l) 3 1 = flags.toNat ∧
    field (tracePutHeader recType recLen code flags pid tick 0 ++ l) 4 2 = pid.toNat ∧
    field (tracePutHeader recType recLen code flags pid tick 0 ++ l) 6 4 = tick.toNat := by
  have pidBound := pid.toNat_lt
  have tickBound := tick.toNat_lt
  simp only [field, tracePutHeader, List.cons_append, List.nil_append, Nat.reduceAdd, Nat.add_zero, List.getElem?_cons_succ,
    List.getElem?_cons_zero, Option.getD_some, UInt32.toNat_toUInt8, UInt32.toNat_shiftRight, UInt16.toNat_toUInt8,
    UInt16.toNat_shiftRight, UInt32.reduceToNat, UInt16.reduceToNat, Nat.shiftRight_eq_div_pow, Nat.reduceMod, Nat.reducePow,
    Nat.zero_mul, Nat.zero_add, true_and]
  omega

theorem flags_parse (depth : Fin 16) (carry trunc : Bool) :
    (flagsOf depth carry trunc).toNat % 16 = depth.val ∧
    decide ((flagsOf depth carry trunc).toNat / 16 % 2 = 1) = carry ∧
    decide ((flagsOf depth carry trunc).toNat / 32 % 2 = 1) = trunc := by
  revert depth carry trunc
  decide

theorem copyName_length (mem : Nat → UInt8) (n a : Nat) : (copyName mem n a).length ≤ n := by
  induction n generalizing a with
  | zero => exact Nat.zero_le 0
  | succ n ih =>
    unfold copyName
    split
    · exact Nat.zero_le _
    · exact Nat.succ_le_succ (ih (a + 1))

/-- The name part of a record. -/
def Event.nameBytes (e : Event) : List UInt8 :=
  match e.nameAddr with
  | none => []
  | some a => (copyName e.mem maxName a).length.toUInt8 :: copyName e.mem maxName a

theorem nameBytes_length (e : Event) : e.nameBytes.length ≤ 16 := by
  unfold Event.nameBytes
  cases e.nameAddr with
  | none => exact Nat.zero_le 16
  | some a => exact Nat.succ_le_succ (copyName_length e.mem maxName a)

theorem buildPayload_eq (e : Event) :
    buildPayload e =
      match e.shown with
      | none => []
      | some regs => regs.bytes ++ e.nameBytes := by
  unfold buildPayload Event.nameBytes Event.nameAddr Event.shown
  cases e.regs with
  | none => simp
  | some regs =>
    by_cases low : e.detail < 2
    · simp [low]
    · by_cases named : e.kind = .entry ∧ dbgTakesName e.code
      · by_cases placed : regs.a0.toNat ≠ 0 ∧ regs.a0.toNat < nameAddrLimit
        · simp [low, named, placed, namePayload]
        · simp [low, named, placed, namePayload]
      · simp [low, named]

theorem regs_length (r : Regs) : r.bytes.length = 20 := rfl

theorem payload_length (e : Event) : (buildPayload e).length ≤ 36 := by
  have short := nameBytes_length e
  rw [buildPayload_eq]
  cases e.shown with
  | none => exact Nat.zero_le 36
  | some regs =>
    show (regs.bytes ++ e.nameBytes).length ≤ 36
    rw [List.length_append, regs_length]
    omega

theorem record_eq (e : Event) :
    e.record = tracePutHeader e.kind.recType (12 + (buildPayload e).length).toUInt8 e.code (flagsOf e.depth e.carry false)
      e.pid e.tick 0 ++ buildPayload e := by
  have short := payload_length e
  have whole : (buildPayload e).take (maxRec - hdrLen) = buildPayload e := List.take_of_length_le (by unfold maxRec hdrLen; omega)
  have mark : decide ((buildPayload e).length > maxRec - hdrLen) = false := by
    rw [decide_eq_false_iff_not]
    unfold maxRec hdrLen
    omega
  unfold Event.record buildRecord
  dsimp only
  rw [whole, mark]
  rfl

theorem record_length (e : Event) : e.record.length = 12 + (buildPayload e).length := by
  rw [record_eq, List.length_append]
  rfl

theorem kind_type (kind : Kind) : kind.recType.toNat = 1 ∨ kind.recType.toNat = 2 := by
  cases kind
  · exact Or.inl rfl
  · exact Or.inr rfl

/-- What the decoder makes of the record of a call. -/
theorem parse_record (e : Event) :
    (parse e.record).call = e.told (e.nameAddr.map (copyName e.mem maxName)) false := by
  have short := payload_length e
  have kind := kind_type e.kind
  have flags := flags_parse e.depth e.carry false
  have header := parse_header e.kind.recType (12 + (buildPayload e).length).toUInt8 e.code (flagsOf e.depth e.carry false)
    e.pid e.tick (buildPayload e)
  rw [← record_eq] at header
  obtain ⟨type, len, code, flagsByte, pid, tick⟩ := header
  have len : field e.record 1 1 = 12 + (buildPayload e).length := by
    rw [len, Nat.toUInt8_eq, UInt8.toNat_ofNat']
    omega
  have regs (r : Regs) (shown : e.shown = some r) :
      (List.range 5).map (fun i => field e.record (12 + 4 * i) 4) = r.values := by
    have payload : buildPayload e = r.bytes ++ e.nameBytes := by rw [buildPayload_eq, shown]
    rw [record_eq, payload]
    exact field_regs (tracePutHeader _ _ _ _ _ _ _) e.nameBytes r
  unfold Parsed.call parse Event.told
  simp only [type, len, code, flagsByte, pid, tick, flags, kind, true_and, Call.mk.injEq]
  cases shown : e.shown with
  | none =>
    have payload : (buildPayload e).length = 0 := by rw [buildPayload_eq, shown]; rfl
    have addr : e.nameAddr = none := by unfold Event.nameAddr; rw [shown]
    simp [payload, addr]
  | some r =>
    have payload : buildPayload e = r.bytes ++ e.nameBytes := by rw [buildPayload_eq, shown]
    have size : (buildPayload e).length = 20 + e.nameBytes.length := by rw [payload, List.length_append, regs_length]
    rw [if_pos (by omega), regs r shown]
    refine ⟨rfl, ?_⟩
    cases addr : e.nameAddr with
    | none =>
      have bytes : e.nameBytes = [] := by unfold Event.nameBytes; rw [addr]
      rw [if_neg (by rw [size, bytes]; simp)]
      rfl
    | some a =>
      have bytes : e.nameBytes = (copyName e.mem maxName a).length.toUInt8 :: copyName e.mem maxName a := by
        unfold Event.nameBytes
        rw [addr]
      have count : (copyName e.mem maxName a).length ≤ 15 := copyName_length e.mem maxName a
      have parts : e.record = (tracePutHeader e.kind.recType (12 + (buildPayload e).length).toUInt8 e.code
          (flagsOf e.depth e.carry false) e.pid e.tick 0 ++ r.bytes) ++ e.nameBytes := by
        rw [record_eq, payload, List.append_assoc]
      have number : field e.record 32 1 = (copyName e.mem maxName a).length := by
        rw [parts]
        refine (field_append _ e.nameBytes 0 1).trans ?_
        rw [bytes]
        simp [field]
        omega
      have rest : e.record.drop 33 = copyName e.mem maxName a := by
        rw [parts, bytes]
        rfl
      rw [if_pos (by rw [size, bytes, List.length_cons]; omega), number, rest, List.take_length]
      rfl

/-- The call comes out as it was made exactly when its name is plain, if it has one. -/
theorem parse_record_iff (e : Event) :
    (parse e.record).call = e.call ↔ ∀ a, e.nameAddr = some a → Plain e.mem maxName a := by
  rw [parse_record]
  unfold Event.call
  cases addr : e.nameAddr with
  | none => simp
  | some a =>
    have mark : false = decide ((osName e.mem (maxName + 1) a).length > maxName) ↔
        (osName e.mem (maxName + 1) a).length ≤ maxName := by
      rw [eq_comm, decide_eq_false_iff_not, not_lt]
    simp only [Option.map_some, Option.any_some, Event.told, Call.mk.injEq, true_and, Option.some.injEq, forall_eq',
      plain_iff, mark]
    exact and_comm

/-! ### Taking the stream apart -/

theorem cutRecords_flatten (recs : List (List UInt8)) (whole : ∀ r ∈ recs, IsRecord r ∧ 12 ≤ r.length) {fuel : Nat}
    (enough : recs.flatten.length < fuel) : cutRecords fuel recs.flatten = recs.map Chunk.ok := by
  induction recs generalizing fuel with
  | nil =>
    cases fuel with
    | zero => omega
    | succ fuel => rfl
  | cons r rest ih =>
    obtain ⟨record, long⟩ := whole r List.mem_cons_self
    rw [List.flatten_cons, List.length_append] at enough
    cases fuel with
    | zero => omega
    | succ fuel =>
      have later := ih (fun r' member => whole r' (List.mem_cons_of_mem _ member)) (show rest.flatten.length < fuel by omega)
      have byte : ((r ++ rest.flatten)[1]?.getD 0).toNat = r.length := by
        have short := record.le_255
        rw [List.getElem?_append_left (by omega), record.tagged, Option.getD_some, Nat.toUInt8_eq, UInt8.toNat_ofNat']
        omega
      obtain ⟨first, others, parts⟩ := List.exists_cons_of_ne_nil (show r ++ rest.flatten ≠ [] by
        intro empty
        have none := congrArg List.length empty
        rw [List.length_append, List.length_nil] at none
        omega)
      rw [List.flatten_cons, parts, cutRecords, ← parts, byte, if_neg (by rw [List.length_append]; omega),
        if_neg (by rw [List.length_append]; omega), List.take_left, List.drop_left, later]
      · rfl
      · simp

/-- The decoder reads what the ring holds out of its dump. -/
theorem records_dump {rb : RingBuf} (inside : rb.readOff < rb.size) (used : rb.used ≤ rb.size) :
    records rb.size rb.readOff rb.used ((List.range rb.size).map rb.data) = cutRecords (rb.content.length + 1) rb.content := by
  have stream : (List.range rb.used).map (fun i => ((List.range rb.size).map rb.data)[(rb.readOff + i) % rb.size]?.getD 0) =
      rb.content := by
    refine List.map_congr_left (fun i _ => ?_)
    have low : (rb.readOff + i) % rb.size < rb.size := Nat.mod_lt _ (by omega)
    simp [low]
  unfold records
  rw [if_neg (by rw [List.length_map, List.length_range]; omega)]
  dsimp only
  rw [stream]

/-- A dump of the ring is taken apart into what the ring holds. -/
theorem decode_eq {rb : RingBuf} {recs : List (List UInt8)} (holds : RingBuf.Holding rb recs) (filled : 0 < rb.size)
    (long : ∀ r ∈ recs, 12 ≤ r.length) : decode rb = recs.map fun r => some (parse r) := by
  unfold decode
  rw [records_dump (holds.readOff_lt filled) holds.used_le, show rb.content = recs.flatten from holds.content,
    cutRecords_flatten recs (fun r member => ⟨holds.records r member, long r member⟩) (Nat.lt_succ_self _), List.map_map]
  rfl

/-! ### Runs -/

inductive TraceOp where
  | log (e : Event)
  | read (maxBytes : Nat)
  | clear

/-- The ring of the trace and the calls it took. -/
structure Traced where
  ring : RingBuf
  events : List Event

/-- The same with the records in bytes. -/
def Traced.logged (s : Traced) : RingBuf.Logged := ⟨s.ring, s.events.map Event.record⟩

def Traced.step (s : Traced) : TraceOp → Option Traced
  | .log e =>
    let out := s.ring.write e.record
    some ⟨out.2, if out.1 then s.events ++ [e] else s.events⟩
  | .read maxBytes => some { s with ring := (s.ring.read maxBytes).2 }
  | .clear => some { s with ring := s.ring.clear }

theorem record_isRecord (e : Event) : IsRecord e.record := by
  have short := payload_length e
  have length := record_length e
  refine ⟨by omega, by omega, ?_⟩
  rw [length, record_eq]
  rfl

/-- The ring of the kernel: at least what it asks for, with the markers of the trace. -/
structure Fitted (s : Traced) : Prop where
  kept : s.logged.Kept
  granted : 65536 ≤ s.ring.size
  fmt : s.ring.lostFmt = some traceLostRecordFormatter

theorem record_spacious {s : Traced} (fitted : Fitted s) (e : Event) : s.ring.Spacious e.record := by
  intro _ _ _
  have short := payload_length e
  have marker : s.ring.markerLen ≤ 16 := by
    unfold RingBuf.markerLen
    rw [fitted.fmt]
    dsimp only
    split
    · exact Nat.zero_le 16
    · exact (traceLostRecordFormatter.fixed 0).le
  rw [record_length]
  have granted := fitted.granted
  omega

/-- Logging a call is writing its record. -/
theorem logged_write (s : Traced) (e : Event) :
    s.logged.step (.write e.record (record_isRecord e)) = (s.step (.log e)).map Traced.logged := by
  show some _ = some _
  congr 1
  unfold Traced.logged
  dsimp only
  split <;> simp

theorem step_fitted {s s' : Traced} {op : TraceOp} (fitted : Fitted s) (stepped : s.step op = some s') : Fitted s' := by
  have keeps (setup : RingBuf.SameSetup s.ring s'.ring) (kept : s'.logged.Kept) : Fitted s' :=
    ⟨kept, setup.size ▸ fitted.granted, setup.lostFmt.trans fitted.fmt⟩
  obtain ⟨lead, recs, -, -, holds⟩ := fitted.kept
  cases op with
  | log e =>
    have spacious := record_spacious fitted e
    have setup : RingBuf.SameSetup s.ring (s.ring.write e.record).2 := by
      rcases RingBuf.write_cases holds (record_isRecord e) spacious with ⟨-, -, setup⟩ | ⟨-, taken, -⟩
      · exact setup
      · exact taken.setup
    have wrote := logged_write s e
    rw [stepped] at wrote
    obtain rfl := Option.some.inj stepped
    exact keeps setup (RingBuf.write_kept fitted.kept (record_isRecord e) spacious wrote)
  | read maxBytes =>
    obtain ⟨k, -, -, -, -, setup, -⟩ := RingBuf.read_holds holds maxBytes
    obtain rfl := Option.some.inj stepped
    have stepped : s.logged.step (.read maxBytes) = some ⟨(s.ring.read maxBytes).2, s.events.map Event.record⟩ := rfl
    exact keeps setup (RingBuf.read_kept fitted.kept stepped)
  | clear =>
    obtain rfl := Option.some.inj stepped
    exact keeps ⟨rfl, rfl, rfl⟩ (RingBuf.clear_kept fitted.kept rfl)

/-- The trace as the kernel sets it up. -/
def Traced.start (data : Nat → UInt8) (size : Nat) (mode : RingMode) : Traced :=
  ⟨RingBuf.init data size mode (some traceLostRecordFormatter), []⟩

theorem suffix_map {α β : Type} (f : α → β) {l : List α} {tail : List β} (suffix : tail <:+ l.map f) :
    ∃ rest, rest <:+ l ∧ tail = rest.map f := by
  obtain ⟨front, split⟩ := suffix
  refine ⟨l.drop front.length, List.drop_suffix _ _, ?_⟩
  rw [List.map_drop, ← split, List.drop_left]

/-- After any run of the trace, a dump of the ring comes apart into the calls it still holds, perhaps behind a
marker, and every call comes out as it was made if and only if all their names are plain. -/
theorem decode_undoes_record (data : Nat → UInt8) (size : Nat) (mode : RingMode) (granted : 65536 ≤ size)
    (small : size ≤ 2147483648) (ops : List TraceOp) (s : Traced) (ran : run Traced.step (Traced.start data size mode) ops = some s) :
    ∃ lead events, RingBuf.IsLead s.ring lead ∧ events <:+ s.events ∧
      s.ring.content = (lead ++ events.map Event.record).flatten ∧
      decode s.ring = (lead ++ events.map Event.record).map (fun r => some (parse r)) ∧
      ((decode s.ring).map (Option.map Parsed.call) =
          lead.map (fun r => some (parse r).call) ++ events.map (fun e => some e.call) ↔
        ∀ e ∈ events, ∀ a, e.nameAddr = some a → Plain e.mem maxName a) := by
  have start : Fitted (Traced.start data size mode) :=
    ⟨⟨[], [], Or.inl rfl, List.suffix_rfl, RingBuf.init_holds data small mode _⟩, granted, rfl⟩
  have fitted : Fitted s :=
    run_invariant (fun s op s' fitted _ stepped => step_fitted fitted stepped) start
      (runMeets_of_forall (fun _ _ => trivial) _ ops) ran
  obtain ⟨lead, recs, isLead, suffix, holds⟩ := fitted.kept
  obtain ⟨events, tail, rfl⟩ := suffix_map Event.record suffix
  have holds : RingBuf.Holding s.ring (lead ++ events.map Event.record) := holds
  have isLead : RingBuf.IsLead s.ring lead := isLead
  have long : ∀ r ∈ lead ++ events.map Event.record, 12 ≤ r.length := by
    intro r member
    rcases List.mem_append.mp member with marker | record
    · rcases isLead with rfl | ⟨f, n, fmt, rfl⟩
      · cases marker
      · obtain rfl := Option.some.inj (fitted.fmt.symm.trans fmt)
        rw [List.mem_singleton.mp marker]
        show 12 ≤ (traceLostRecordFormatter.format n).length
        rw [traceLostRecordFormatter.fixed]
        decide
    · obtain ⟨e, -, rfl⟩ := List.mem_map.mp record
      rw [record_length]
      omega
  have decoded := decode_eq holds (by have := fitted.granted; omega) long
  refine ⟨lead, events, isLead, tail, holds.content, decoded, ?_⟩
  have calls : (decode s.ring).map (Option.map Parsed.call) =
      lead.map (fun r => some (parse r).call) ++ events.map (fun e => some (parse e.record).call) := by
    rw [decoded, List.map_map, List.map_append, List.map_map]
    rfl
  rw [calls, List.append_cancel_left_eq, List.map_inj_left]
  refine forall₂_congr (fun e member => ?_)
  rw [Option.some.injEq, parse_record_iff]

/-- An `I$Open` of the name at 0x1000, at detail 2. -/
def openEvent (mem : Nat → UInt8) : Event :=
  ⟨.entry, 0x84, 0, false, 3, 100, 2, some ⟨1, 0, 0, 0x1000, 0⟩, mem⟩

/-- Memory with these bytes from 0x1000 on. -/
def memOf (bytes : List UInt8) (a : Nat) : UInt8 := bytes[a - 0x1000]?.getD 0

/-- The record of that call with the name that is stored in it. -/
def openRecord (name : List UInt8) : List UInt8 :=
  [1, 33 + name.length.toUInt8, 132, 0, 0, 3, 0, 0, 0, 100, 0, 0, 0, 0, 0, 1, 0, 0, 0, 0, 0, 0, 0, 0, 0, 0, 16, 0, 0, 0, 0, 0,
    name.length.toUInt8] ++ name

/-- The calls in a ring with nothing but that record. -/
theorem open_calls (mem : Nat → UInt8) (name : List UInt8) (calls : List (Option Call))
    (dumped : (run Traced.step (Traced.start (fun _ => 0) 65536 .overwrite) [.log (openEvent mem)]).map
      (fun s => (s.ring.size, s.ring.readOff, s.ring.used, s.ring.content)) =
        some (65536, 0, name.length + 33, openRecord name))
    (short : name.length ≤ maxName)
    (read : ∀ rb : RingBuf, records rb.size rb.readOff rb.used ((List.range rb.size).map rb.data) =
      cutRecords ((openRecord name).length + 1) (openRecord name) → (decode rb).map (Option.map Parsed.call) = calls) :
    (run Traced.step (Traced.start (fun _ => 0) 65536 .overwrite) [.log (openEvent mem)]).map
      (fun s => (decode s.ring).map (Option.map Parsed.call)) = some calls := by
  obtain ⟨s, ran⟩ : ∃ s, run Traced.step (Traced.start (fun _ => 0) 65536 .overwrite) [.log (openEvent mem)] = some s :=
    ⟨_, rfl⟩
  rw [ran, Option.map_some, Option.some.injEq, Prod.mk.injEq, Prod.mk.injEq, Prod.mk.injEq] at dumped
  obtain ⟨size, start, used, content⟩ := dumped
  unfold maxName at short
  have cut := records_dump (show s.ring.readOff < s.ring.size by omega) (by omega)
  rw [content] at cut
  rw [ran, Option.map_some, read s.ring cut]

/-- The name "nil" comes out as it was given. -/
theorem decode_undoes_record_open :
    ∃ s, run Traced.step (Traced.start (fun _ => 0) 65536 .overwrite) [.log (openEvent (memOf [0x6E, 0x69, 0x6C, 0x0D]))] = some s ∧
      (decode s.ring).map (Option.map Parsed.call) = [some (openEvent (memOf [0x6E, 0x69, 0x6C, 0x0D])).call] ∧
      ∃ lead events, RingBuf.IsLead s.ring lead ∧ events <:+ s.events ∧
        s.ring.content = (lead ++ events.map Event.record).flatten ∧
        decode s.ring = (lead ++ events.map Event.record).map (fun r => some (parse r)) ∧
        ((decode s.ring).map (Option.map Parsed.call) =
            lead.map (fun r => some (parse r).call) ++ events.map (fun e => some e.call) ↔
          ∀ e ∈ events, ∀ a, e.nameAddr = some a → Plain e.mem maxName a) := by
  have same : (openEvent (memOf [0x6E, 0x69, 0x6C, 0x0D])).told (some [0x6E, 0x69, 0x6C]) false =
      (openEvent (memOf [0x6E, 0x69, 0x6C, 0x0D])).call := by decide +kernel
  have calls := open_calls (memOf [0x6E, 0x69, 0x6C, 0x0D]) [0x6E, 0x69, 0x6C]
    [some ((openEvent (memOf [0x6E, 0x69, 0x6C, 0x0D])).told (some [0x6E, 0x69, 0x6C]) false)] (by decide +kernel)
    (by decide) (fun rb cut => by rw [decode, cut]; decide)
  rw [same] at calls
  obtain ⟨s, ran⟩ : ∃ s, run Traced.step (Traced.start (fun _ => 0) 65536 .overwrite)
      [.log (openEvent (memOf [0x6E, 0x69, 0x6C, 0x0D]))] = some s := ⟨_, rfl⟩
  rw [ran, Option.map_some] at calls
  exact ⟨s, ran, Option.some.inj calls,
    decode_undoes_record (fun _ => 0) 65536 .overwrite (by decide) (by decide) _ s ran⟩

/-- The name "nil" with the highest bit of its last character set comes out as "ni". -/
theorem decode_drops_last :
    (run Traced.step (Traced.start (fun _ => 0) 65536 .overwrite) [.log (openEvent (memOf [0x6E, 0x69, 0xEC]))]).map
        (fun s => (decode s.ring).map (Option.map Parsed.call)) =
      some [some ((openEvent (memOf [0x6E, 0x69, 0xEC])).told (some [0x6E, 0x69]) false)] ∧
    (openEvent (memOf [0x6E, 0x69, 0xEC])).told (some [0x6E, 0x69]) false ≠ (openEvent (memOf [0x6E, 0x69, 0xEC])).call :=
  ⟨open_calls _ [0x6E, 0x69] _ (by decide +kernel) (by decide) (fun rb cut => by rw [decode, cut]; decide), by decide⟩

end Trace

end Q9OS

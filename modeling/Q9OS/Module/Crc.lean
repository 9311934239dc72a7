import Mathlib.Tactic
import Q9OS.Lib.Crc
import Q9OS.Lib.Word

/-!
# The module CRC

The 24-bit CRC is written three times: bit by bit in F$VModul, byte-parallel
in F$CRC (both in `q9kernel_moddir.c`), and byte-parallel over byte variables in
the boot record tool (`mbr.c`).
-/

namespace Q9OS

/-! ### The loop of F$VModul -/

def vmodulBit (crc : UInt32) : UInt32 :=
  if crc &&& 0x800000 ≠ 0 then ((crc <<< 1) ^^^ 0x800063) &&& 0xFFFFFF
  else (crc <<< 1) &&& 0xFFFFFF

def vmodulBits : Nat → UInt32 → UInt32
  | 0, crc => crc
  | n + 1, crc => vmodulBit (vmodulBits n crc)

def vmodulByte (crc : UInt32) (b : UInt8) : UInt32 :=
  vmodulBits 8 ((crc ^^^ (b.toUInt32 <<< 16)) &&& 0xFFFFFF)

def vmodulCrc (crc : UInt32) (data : List UInt8) : UInt32 := data.foldl vmodulByte crc

/-! ### F$CRC -/

structure CrcAcc where
  c0 : UInt32
  c1 : UInt32
  c2 : UInt32
  deriving DecidableEq

def CrcAcc.byte (c : CrcAcc) (b : UInt8) : CrcAcc :=
  let a := (b.toUInt32 ^^^ c.c0) &&& 0xFF
  let c0 := c.c1
  let c1 := c.c2
  let c1 := c1 ^^^ ((a >>> 7) &&& 0xFF)
  let c2 := (a <<< 1) &&& 0xFF
  let c1 := c1 ^^^ ((a >>> 2) &&& 0xFF)
  let c2 := c2 ^^^ ((a <<< 6) &&& 0xFF)
  let a := a ^^^ ((a <<< 1) &&& 0xFF)
  let a := a ^^^ ((a <<< 2) &&& 0xFF)
  let a := a ^^^ ((a <<< 4) &&& 0xFF)
  let a := a &&& 0xFF
  if a &&& 0x80 ≠ 0 then ⟨c0 ^^^ 0x80, c1, c2 ^^^ 0x21⟩ else ⟨c0, c1, c2⟩

def CrcAcc.load (accum : UInt32) : CrcAcc :=
  ⟨(accum >>> 16) &&& 0xFF, (accum >>> 8) &&& 0xFF, accum &&& 0xFF⟩

def CrcAcc.store (c : CrcAcc) : UInt32 := (c.c0 <<< 16) ||| (c.c1 <<< 8) ||| c.c2

def crcAccumulate (accum : UInt32) (data : List UInt8) : UInt32 :=
  (data.foldl CrcAcc.byte (CrcAcc.load accum)).store

/-! ### The boot record tool -/

structure CrcBytes where
  b0 : UInt8
  b1 : UInt8
  b2 : UInt8
  deriving DecidableEq

-- `a` is wider than a byte here and cut only after the three shifts.
def CrcBytes.byte (crc : CrcBytes) (b : UInt8) : CrcBytes :=
  let a := (b ^^^ crc.b0).toUInt32
  let c0 := crc.b1
  let c1 := crc.b2
  let c1 := c1 ^^^ (a >>> 7).toUInt8
  let c2 := (a <<< 1).toUInt8
  let c1 := c1 ^^^ (a >>> 2).toUInt8
  let c2 := c2 ^^^ (a <<< 6).toUInt8
  let a := a ^^^ (a <<< 1)
  let a := a ^^^ (a <<< 2)
  let a := a ^^^ (a <<< 4)
  let a := a &&& 0xFF
  if a &&& 0x80 ≠ 0 then ⟨c0 ^^^ 0x80, c1, c2 ^^^ 0x21⟩ else ⟨c0, c1, c2⟩

def os9CrcFrom (crc : CrcBytes) (data : List UInt8) : CrcBytes := data.foldl CrcBytes.byte crc

def os9Crc (data : List UInt8) : CrcBytes :=
  let crc := os9CrcFrom ⟨0xFF, 0xFF, 0xFF⟩ data
  ⟨crc.b0 ^^^ 0xFF, crc.b1 ^^^ 0xFF, crc.b2 ^^^ 0xFF⟩

/-! ### One register -/

namespace CrcBytes

def wide (c : CrcBytes) : CrcAcc := ⟨c.b0.toUInt32, c.b1.toUInt32, c.b2.toUInt32⟩

/-- The three bytes as the word F$CRC hands back. -/
def word (c : CrcBytes) : UInt32 := c.wide.store

def register (c : CrcBytes) : BitVec 24 := c.b0.toBitVec ++ c.b1.toBitVec ++ c.b2.toBitVec

/-- What a byte feeds into an empty register. -/
def entry (a : UInt8) : CrcBytes := (CrcBytes.mk 0 0 0).byte a

theorem byte_entry (c : CrcBytes) (b : UInt8) :
    c.byte b = ⟨c.b1 ^^^ (entry (b ^^^ c.b0)).b0, c.b2 ^^^ (entry (b ^^^ c.b0)).b1, (entry (b ^^^ c.b0)).b2⟩ := by
  unfold entry byte
  simp only [UInt8.xor_zero, UInt8.zero_xor]
  split
  · simp [UInt8.xor_assoc]
  · simp [UInt8.xor_assoc]

theorem forall_uint8 {P : UInt8 → Prop} (each : ∀ n : Fin 256, P (UInt8.ofFin n)) (a : UInt8) : P a := by
  have value := each a.toFin
  rwa [UInt8.ofFin_toFin] at value

theorem wide_entry (a : UInt8) : (CrcAcc.mk 0 0 0).byte a = (entry a).wide := by
  revert a
  apply forall_uint8
  decide +kernel

theorem toUInt32_and_ff (a : UInt8) : a.toUInt32 &&& 0xFF = a.toUInt32 := by
  revert a
  apply forall_uint8
  decide +kernel

theorem byte_acc {c : CrcAcc} {a b : UInt8} (fed : (b.toUInt32 ^^^ c.c0) &&& 0xFF = a.toUInt32) :
    c.byte b = ⟨c.c1 ^^^ (entry a).wide.c0, c.c2 ^^^ (entry a).wide.c1, (entry a).wide.c2⟩ := by
  rw [← wide_entry]
  unfold CrcAcc.byte
  simp only [fed, UInt32.xor_zero, UInt32.zero_xor, toUInt32_and_ff]
  split
  · simp [UInt32.xor_assoc]
  · simp [UInt32.xor_assoc]

theorem wide_byte (c : CrcBytes) (b : UInt8) : c.wide.byte b = (c.byte b).wide := by
  have fed : (b.toUInt32 ^^^ c.wide.c0) &&& 0xFF = (b ^^^ c.b0).toUInt32 := by
    show (b.toUInt32 ^^^ c.b0.toUInt32) &&& 0xFF = _
    rw [← UInt8.toUInt32_xor, toUInt32_and_ff]
  rw [byte_acc fed, byte_entry]
  simp [wide, UInt8.toUInt32_xor]

theorem register_toNat (c : CrcBytes) :
    c.register.toNat = c.b0.toNat * 65536 + c.b1.toNat * 256 + c.b2.toNat := by
  have low := c.b2.toNat_lt
  have middle := c.b1.toNat_lt
  have upper : (c.b0.toBitVec ++ c.b1.toBitVec).toNat = c.b0.toNat * 256 + c.b1.toNat := by
    rw [BitVec.toNat_append]
    exact (Nat.shiftLeft_add_eq_or_of_lt middle _).symm.trans (by rw [Nat.shiftLeft_eq]; rfl)
  have whole : c.register.toNat = (c.b0.toBitVec ++ c.b1.toBitVec).toNat <<< 8 ||| c.b2.toNat :=
    BitVec.toNat_append ..
  rw [whole, upper, ← Nat.shiftLeft_add_eq_or_of_lt low, Nat.shiftLeft_eq]
  omega

theorem register_injective {c d : CrcBytes} (same : c.register = d.register) : c = d := by
  have value := congrArg BitVec.toNat same
  rw [register_toNat, register_toNat] at value
  have c0 := c.b0.toNat_lt
  have c1 := c.b1.toNat_lt
  have c2 := c.b2.toNat_lt
  have d0 := d.b0.toNat_lt
  have d1 := d.b1.toNat_lt
  have d2 := d.b2.toNat_lt
  cases c
  cases d
  simp only [mk.injEq, ← UInt8.toNat_inj] at *
  omega

theorem register_xor (c d : CrcBytes) :
    c.register ^^^ d.register = register ⟨c.b0 ^^^ d.b0, c.b1 ^^^ d.b1, c.b2 ^^^ d.b2⟩ := by
  have upper : (c.b0.toBitVec ++ c.b1.toBitVec ++ c.b2.toBitVec) ^^^ (d.b0.toBitVec ++ d.b1.toBitVec ++ d.b2.toBitVec) =
      ((c.b0.toBitVec ++ c.b1.toBitVec) ^^^ (d.b0.toBitVec ++ d.b1.toBitVec)) ++
        (c.b2.toBitVec ^^^ d.b2.toBitVec) := BitVec.xor_append
  have inner : (c.b0.toBitVec ++ c.b1.toBitVec) ^^^ (d.b0.toBitVec ++ d.b1.toBitVec) =
      (c.b0.toBitVec ^^^ d.b0.toBitVec) ++ (c.b1.toBitVec ^^^ d.b1.toBitVec) := BitVec.xor_append
  rw [inner] at upper
  exact upper

theorem register_shift (c1 c2 : UInt8) : register ⟨0, c1, c2⟩ <<< 8 = register ⟨c1, c2, 0⟩ := by
  have low := c2.toNat_lt
  have high := c1.toNat_lt
  apply BitVec.eq_of_toNat_eq
  rw [BitVec.toNat_shiftLeft, register_toNat, register_toNat, Nat.shiftLeft_eq]
  simp only [UInt8.toNat_zero]
  omega

theorem register_clear (c1 c2 : UInt8) : ∀ i, 24 ≤ i + 8 → (register ⟨0, c1, c2⟩).getLsbD i = false := by
  have low := c2.toNat_lt
  have high := c1.toNat_lt
  intro i above
  have small : (register ⟨0, c1, c2⟩).toNat < 2 ^ 16 := by
    rw [register_toNat]
    simp only [UInt8.toNat_zero]
    omega
  exact Nat.testBit_lt_two_pow (small.trans_le (Nat.pow_le_pow_right (by decide) (by omega)))

theorem register_entry (a : UInt8) :
    Crc.shifts 0x800063#24 8 (register ⟨a, 0, 0⟩) = (entry a).register := by
  revert a
  apply forall_uint8
  decide +kernel

/-- Eight shifts of the register are one byte of the byte-parallel form. -/
theorem shifts_register (c : CrcBytes) (b : UInt8) :
    Crc.shifts 0x800063#24 8 (register ⟨b ^^^ c.b0, c.b1, c.b2⟩) = (c.byte b).register := by
  have parts : register ⟨b ^^^ c.b0, c.b1, c.b2⟩ =
      register ⟨b ^^^ c.b0, 0, 0⟩ ^^^ register ⟨0, c.b1, c.b2⟩ := by
    rw [register_xor]
    simp
  rw [parts, Crc.shifts_xor, register_entry, Crc.shifts_low _ _ _ (register_clear _ _), register_shift,
    register_xor, byte_entry]
  simp [UInt8.xor_comm]

theorem word_register (c : CrcBytes) : c.word = UInt32.ofBitVec (c.register.setWidth 32) := by
  apply UInt32.toBitVec_inj.mp
  have spread : c.register.setWidth 32 = c.b0.toBitVec.setWidth 32 <<< (8 + 8) |||
      c.b1.toBitVec.setWidth 32 <<< 8 ||| c.b2.toBitVec.setWidth 32 :=
    BitVec.setWidth_append_append_eq_shiftLeft_setWidth_or
  show _ = c.register.setWidth 32
  rw [spread]
  simp [word, wide, CrcAcc.store]

theorem xor_masked {w : Nat} (x : BitVec w) {p m : BitVec w} (inside : p &&& m = p) :
    (x ^^^ p) &&& m = (x &&& m) ^^^ p := by
  ext i
  have bit := congrArg (fun y : BitVec w => y[i]) inside
  simp only [BitVec.getElem_and, BitVec.getElem_xor] at bit ⊢
  cases x[i] <;> cases inP : p[i] <;> cases inM : m[i] <;> simp_all

theorem high_bit (c : BitVec 24) : UInt32.ofBitVec (c.setWidth 32) &&& 0x800000 ≠ 0 ↔ c.msb = true := by
  have word : (UInt32.ofBitVec (c.setWidth 32) &&& 0x800000).toBitVec = if c.msb then 0x800000#32 else 0 := by
    show c.setWidth 32 &&& BitVec.twoPow 32 23 = _
    rw [BitVec.and_twoPow, BitVec.getLsbD_setWidth, BitVec.msb_eq_getLsbD_last]
    rfl
  rw [ne_eq, ← UInt32.toBitVec_inj, word]
  cases c.msb <;> decide

theorem shift_masked (c : BitVec 24) :
    (UInt32.ofBitVec (c.setWidth 32) <<< 1) &&& (0xFFFFFF : UInt32) =
      UInt32.ofBitVec ((c <<< 1).setWidth 32) := by
  apply UInt32.toBitVec_inj.mp
  show (c.setWidth 32 <<< (1 : Nat)) &&& 0xFFFFFF#32 = (c <<< (1 : Nat)).setWidth 32
  apply BitVec.eq_of_toNat_eq
  have bound := c.isLt
  have mask : (0xFFFFFF#32).toNat = 2 ^ 24 - 1 := rfl
  rw [BitVec.toNat_and, BitVec.toNat_shiftLeft, BitVec.toNat_setWidth, BitVec.toNat_setWidth,
    BitVec.toNat_shiftLeft, mask, Nat.and_two_pow_sub_one_eq_mod, Nat.shiftLeft_eq, Nat.shiftLeft_eq]
  omega

theorem vmodulBit_register (c : BitVec 24) :
    vmodulBit (UInt32.ofBitVec (c.setWidth 32)) =
      UInt32.ofBitVec ((Crc.shift 0x800063#24 c).setWidth 32) := by
  have reduced (x : UInt32) : (x ^^^ 0x800063) &&& 0xFFFFFF = (x &&& 0xFFFFFF) ^^^ 0x800063 :=
    UInt32.toBitVec_inj.mp (xor_masked x.toBitVec (by decide))
  unfold vmodulBit Crc.shift
  by_cases top : c.msb = true
  · rw [if_pos ((high_bit c).mpr top), if_pos top, reduced, shift_masked, BitVec.setWidth_xor]
    rfl
  · rw [if_neg (fun is => top ((high_bit c).mp is)), if_neg top, shift_masked]

theorem vmodulBits_register (n : Nat) (c : BitVec 24) :
    vmodulBits n (UInt32.ofBitVec (c.setWidth 32)) =
      UInt32.ofBitVec ((Crc.shifts 0x800063#24 n c).setWidth 32) := by
  induction n with
  | zero => rfl
  | succ n ih => simp only [vmodulBits, Crc.shifts, ih, vmodulBit_register]

theorem word_xor (c d : CrcBytes) :
    c.word ^^^ d.word = word ⟨c.b0 ^^^ d.b0, c.b1 ^^^ d.b1, c.b2 ^^^ d.b2⟩ := by
  rw [word_register, word_register, word_register, ← register_xor, BitVec.setWidth_xor]
  rfl

theorem word_masked (c : CrcBytes) : c.word &&& 0xFFFFFF = c.word := by
  have bound := c.register.isLt
  rw [word_register, ← UInt32.toNat_inj, UInt32.toNat_and]
  exact (Nat.and_two_pow_sub_one_eq_mod _ 24).trans
    (Nat.mod_eq_of_lt (by rw [UInt32.toNat_ofBitVec, BitVec.toNat_setWidth]; omega))

theorem fed_word (c : CrcBytes) (b : UInt8) :
    (c.word ^^^ (b.toUInt32 <<< 16)) &&& 0xFFFFFF = word ⟨b ^^^ c.b0, c.b1, c.b2⟩ := by
  have placed : b.toUInt32 <<< 16 = word ⟨b, 0, 0⟩ := by
    simp [word, wide, CrcAcc.store]
  rw [placed, word_xor, word_masked]
  simp [UInt8.xor_comm]

/-- A byte of F$VModul's loop is a byte of the byte-parallel form. -/
theorem vmodulByte_word (c : CrcBytes) (b : UInt8) : vmodulByte c.word b = (c.byte b).word := by
  unfold vmodulByte
  rw [fed_word, word_register, vmodulBits_register, shifts_register, word_register]

theorem load_word (c : CrcBytes) : CrcAcc.load c.word = c.wide := by
  have high := c.b0.toNat_lt
  have middle := c.b1.toNat_lt
  have low := c.b2.toNat_lt
  obtain ⟨-, second, third⟩ := Word.fields_packed (a := c.b0.toUInt32) (b := c.b1.toUInt32)
    (c := c.b2.toUInt32) (by simp; omega) (by simpa using middle) (by simpa using low)
  have first := Word.high_packed (a := c.b0.toUInt32) (b := c.b1.toUInt32)
    (c := c.b2.toUInt32) (by simpa using high) (by simpa using middle) (by simpa using low)
  unfold CrcAcc.load word CrcAcc.store
  simp only [wide]
  rw [first, second, third]

end CrcBytes

/-! ### The three agree -/

/-- A 24-bit start value as three bytes. -/
def crcBytes (start : BitVec 24) : CrcBytes :=
  ⟨UInt8.ofBitVec (start.extractLsb' 16 8), UInt8.ofBitVec (start.extractLsb' 8 8),
    UInt8.ofBitVec (start.extractLsb' 0 8)⟩

theorem crcBytes_word (start : BitVec 24) : (crcBytes start).word = UInt32.ofBitVec (start.setWidth 32) := by
  have register : (crcBytes start).register = start := by
    apply BitVec.eq_of_toNat_eq
    have bound := start.isLt
    rw [CrcBytes.register_toNat]
    simp only [crcBytes, UInt8.toNat_ofBitVec, BitVec.extractLsb'_toNat, Nat.shiftRight_eq_div_pow]
    omega
  rw [CrcBytes.word_register, register]

theorem vmodulCrc_word (c : CrcBytes) (data : List UInt8) :
    vmodulCrc c.word data = (os9CrcFrom c data).word := by
  induction data generalizing c with
  | nil => rfl
  | cons b rest ih =>
    show vmodulCrc (vmodulByte c.word b) rest = _
    rw [c.vmodulByte_word, ih]
    rfl

theorem foldl_wide (c : CrcBytes) (data : List UInt8) :
    data.foldl CrcAcc.byte c.wide = (os9CrcFrom c data).wide := by
  induction data generalizing c with
  | nil => rfl
  | cons b rest ih =>
    rw [List.foldl_cons, c.wide_byte, ih]
    rfl

theorem crcAccumulate_word (c : CrcBytes) (data : List UInt8) :
    crcAccumulate c.word data = (os9CrcFrom c data).word := by
  unfold crcAccumulate
  rw [c.load_word, foldl_wide]
  rfl

/-- F$CRC reads the low three bytes of its accumulator. -/
theorem load_low (accum : UInt32) : ∃ c : CrcBytes, CrcAcc.load accum = c.wide := by
  have low (x : UInt32) : x &&& 0xFF = x.toUInt8.toUInt32 := by
    rw [← UInt32.toNat_inj, Word.toNat_lowByte, UInt8.toNat_toUInt32, UInt32.toNat_toUInt8]
  refine ⟨⟨(accum >>> 16).toUInt8, (accum >>> 8).toUInt8, accum.toUInt8⟩, ?_⟩
  unfold CrcAcc.load CrcBytes.wide
  rw [low, low, low]

theorem crcAccumulate_append (accum : UInt32) (a b : List UInt8) :
    crcAccumulate accum (a ++ b) = crcAccumulate (crcAccumulate accum a) b := by
  obtain ⟨c, loaded⟩ := load_low accum
  unfold crcAccumulate
  rw [loaded, List.foldl_append, foldl_wide]
  rw [show (os9CrcFrom c a).wide.store = (os9CrcFrom c a).word from rfl, (os9CrcFrom c a).load_word]

/-- The three CRC loops compute one function of start value and data, and F$CRC
can be continued where it stopped. -/
theorem crc_in_three_places (start : BitVec 24) (a b : List UInt8) (accum : UInt32) :
    vmodulCrc (UInt32.ofBitVec (start.setWidth 32)) a = crcAccumulate (UInt32.ofBitVec (start.setWidth 32)) a ∧
      (os9CrcFrom (crcBytes start) a).word = crcAccumulate (UInt32.ofBitVec (start.setWidth 32)) a ∧
      (os9Crc a).word = crcAccumulate 0xFFFFFF a ^^^ 0xFFFFFF ∧
      crcAccumulate accum (a ++ b) = crcAccumulate (crcAccumulate accum a) b := by
  refine ⟨?_, ?_, ?_, crcAccumulate_append accum a b⟩
  · rw [← crcBytes_word, vmodulCrc_word, crcAccumulate_word]
  · rw [← crcBytes_word, crcAccumulate_word]
  · have whole : (0xFFFFFF : UInt32) = CrcBytes.word ⟨0xFF, 0xFF, 0xFF⟩ := by decide
    rw [whole, crcAccumulate_word, CrcBytes.word_xor]
    rfl

/-! ### The residue -/

namespace CrcBytes

theorem byte_register (c : CrcBytes) (b : UInt8) :
    (c.byte b).register = Crc.shifts 0x800063#24 8 (c.register ^^^ register ⟨b, 0, 0⟩) := by
  rw [← shifts_register, register_xor]
  simp [UInt8.xor_comm]

/-- Three bytes can enter a register at once. -/
theorem three_register (c : CrcBytes) (x y z : UInt8) :
    (os9CrcFrom c [x, y, z]).register = Crc.shifts 0x800063#24 24 (c.register ^^^ register ⟨x, y, z⟩) := by
  have second : (os9CrcFrom c [x, y]).register = Crc.shifts 0x800063#24 16 (c.register ^^^ register ⟨x, y, 0⟩) := by
    show ((c.byte x).byte y).register = _
    rw [byte_register, byte_register, ← register_shift y 0, Crc.shifts_absorb _ _ _ _ (register_clear y 0),
      ← Crc.shifts_add, BitVec.xor_assoc, register_xor]
    simp
  have third : register ⟨z, 0, 0⟩ = register ⟨0, 0, z⟩ <<< 16 := by
    rw [← register_shift z 0, ← register_shift 0 z, ← BitVec.shiftLeft_add]
  have clear : ∀ i, 24 ≤ i + 16 → (register ⟨0, 0, z⟩).getLsbD i = false := by
    intro i above
    apply Nat.testBit_lt_two_pow
    rw [register_toNat]
    exact lt_of_lt_of_le (by simpa using z.toNat_lt) (Nat.pow_le_pow_right (by decide) (by omega : 8 ≤ i))
  show ((os9CrcFrom c [x, y]).byte z).register = _
  rw [byte_register, second, third, Crc.shifts_absorb _ _ _ _ clear, ← Crc.shifts_add, BitVec.xor_assoc,
    register_xor]
  simp

/-- A register that is fed its own complement holds a constant afterwards. -/
theorem complement_residue (c : CrcBytes) :
    os9CrcFrom c [c.b0 ^^^ 0xFF, c.b1 ^^^ 0xFF, c.b2 ^^^ 0xFF] = ⟨0x80, 0x0F, 0xE3⟩ := by
  have cancel (x : UInt8) : x ^^^ (x ^^^ 0xFF) = 0xFF := by
    rw [← UInt8.xor_assoc, UInt8.xor_self, UInt8.zero_xor]
  apply register_injective
  rw [three_register, register_xor]
  simp only [cancel]
  decide +kernel

end CrcBytes

end Q9OS

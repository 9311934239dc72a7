import Mathlib.Tactic
import Q9OS.Module.Directory

/-!
# Sealing a module

F$SetCRC writes header parity and CRC so that F$VModul accepts the module: the
parity word lies inside the CRC range, and the complemented CRC at the end leaves
the residue that F$VModul tests for.
-/

namespace Q9OS

theorem headerXor_congr {m m' : Mem} {a : Nat} (n : Nat) (same : ∀ x, a ≤ x → x < a + 2 * n → m x = m' x) :
    headerXor m a n = headerXor m' a n := by
  induction n with
  | zero => rfl
  | succ n ih =>
    unfold headerXor
    rw [ih (fun x low high => same x low (by omega)),
      Mem.getU16_congr (fun x low high => same x (by omega) (by omega))]

theorem headerXor_lt (m : Mem) (a n : Nat) : headerXor m a n < 65536 := by
  induction n with
  | zero => exact Nat.zero_lt_succ _
  | succ n ih => exact Nat.xor_lt_two_pow (n := 16) ih (m.getU16_lt _)

/-- With the parity word stored the header words cancel to $FFFF. -/
theorem headerXor_parity (m : Mem) (a : Nat) :
    headerXor (m.setU16 (a + Mh.parity) (0xFFFF ^^^ headerXor m a 23)) a 24 = 0xFFFF := by
  have before : headerXor (m.setU16 (a + Mh.parity) (0xFFFF ^^^ headerXor m a 23)) a 23 = headerXor m a 23 :=
    headerXor_congr 23 (fun x low high => Mem.setU16_outside _ _ (Or.inl (by unfold Mh.parity; omega)))
  have small : 0xFFFF ^^^ headerXor m a 23 < 65536 :=
    Nat.xor_lt_two_pow (n := 16) (by decide) (headerXor_lt m a 23)
  rw [headerXor, before]
  show _ ^^^ (m.setU16 (a + Mh.parity) _).getU16 (a + Mh.parity) = _
  rw [Mem.getU16_setU16, Nat.mod_eq_of_lt small, Nat.xor_comm 0xFFFF, ← Nat.xor_assoc, Nat.xor_self,
    Nat.zero_xor]

/-! ### The three CRC bytes -/

theorem storeCrc_outside (m : Mem) (crc : UInt32) {a x : Nat} (apart : x < a ∨ a + 3 ≤ x) :
    storeCrc m a crc x = m x := by
  unfold storeCrc
  rw [Mem.setU8_of_ne _ _ (by omega), Mem.setU8_of_ne _ _ (by omega), Mem.setU8_of_ne _ _ (by omega)]

theorem storeCrc_bytes (m : Mem) (a : Nat) (c : CrcBytes) :
    (storeCrc m a c.word).bytes a 3 = [c.b0 ^^^ 0xFF, c.b1 ^^^ 0xFF, c.b2 ^^^ 0xFF] := by
  have loaded := c.load_word
  unfold CrcAcc.load CrcBytes.wide at loaded
  obtain ⟨first, second, third⟩ := CrcAcc.mk.inj loaded
  unfold storeCrc
  rw [first, second, third]
  simp [Mem.bytes, List.range_succ, Mem.setU8]

/-- A CRC over everything before it, stored complemented, leaves the residue. -/
theorem vmodulCrc_sealed (m : Mem) (a n : Nat) :
    vmodulCrc 0xFFFFFF ((storeCrc m (a + n) (crcAccumulate 0xFFFFFFFF (m.bytes a n))).bytes a (n + 3)) =
      0x800FE3 := by
  have start : (0xFFFFFF : UInt32) = CrcBytes.word ⟨0xFF, 0xFF, 0xFF⟩ := by decide
  have crc : crcAccumulate 0xFFFFFFFF (m.bytes a n) = (os9CrcFrom ⟨0xFF, 0xFF, 0xFF⟩ (m.bytes a n)).word := by
    rw [← crcAccumulate_word]
    rfl
  have before : (storeCrc m (a + n) (crcAccumulate 0xFFFFFFFF (m.bytes a n))).bytes a n = m.bytes a n :=
    Mem.bytes_congr (fun x low high => storeCrc_outside _ _ (Or.inl high))
  rw [Mem.bytes_add, before, crc, storeCrc_bytes, start, vmodulCrc_word]
  unfold os9CrcFrom
  rw [List.foldl_append]
  have residue := (os9CrcFrom ⟨0xFF, 0xFF, 0xFF⟩ (m.bytes a n)).complement_residue
  unfold os9CrcFrom at residue
  rw [residue]
  decide

/-! ### F$SetCRC and F$VModul -/

/-- A module image that F$SetCRC takes: an even address, the sync word and room
for header and CRC. -/
structure Sealable (m : Mem) (a : Nat) : Prop where
  placed : a ≠ 0
  even : a % 2 = 0
  sync : m.getU16 a = 0x4AFC
  size : 0x33 ≤ m.getU32 (a + Mh.size)

theorem sync_bytes {m : Mem} {a : Nat} (sync : m.getU16 a = 0x4AFC) :
    m.getU8 a = 0x4A ∧ m.getU8 (a + 1) = 0xFC := by
  have high := m.getU8_lt a
  have low := m.getU8_lt (a + 1)
  unfold Mem.getU16 at sync
  omega

theorem modSetCRC_sealable {m : Mem} {a : Nat} (image : Sealable m a) :
    modSetCRC m a =
      let parity := m.setU16 (a + Mh.parity) (0xFFFF ^^^ headerXor m a 23)
      let n := m.getU32 (a + Mh.size) - 3
      (.ok (), storeCrc parity (a + n) (crcAccumulate 0xFFFFFFFF (parity.bytes a n))) := by
  have size := image.size
  obtain ⟨first, second⟩ := sync_bytes image.sync
  unfold modSetCRC
  rw [if_neg (by simp [image.placed, image.even]), if_neg (by simp [first, second])]
  simp only
  rw [if_neg (by omega), Nat.add_sub_assoc (by omega)]

theorem modSetCRC_outside {m : Mem} {a x : Nat} (image : Sealable m a) (parity : x < a + 0x2E ∨ a + 0x30 ≤ x)
    (crc : x < a + (m.getU32 (a + Mh.size) - 3) ∨ a + m.getU32 (a + Mh.size) ≤ x) :
    (modSetCRC m a).2 x = m x := by
  have size := image.size
  rw [modSetCRC_sealable image]
  simp only
  rw [storeCrc_outside _ _ (by omega), Mem.setU16_outside _ _ (by unfold Mh.parity; omega)]

theorem modSetCRC_header {m : Mem} {a : Nat} (image : Sealable m a) :
    headerXor (modSetCRC m a).2 a 24 = 0xFFFF := by
  have size := image.size
  rw [← headerXor_parity m a, modSetCRC_sealable image]
  exact headerXor_congr 24 (fun x low high => storeCrc_outside _ _ (Or.inl (by omega)))

theorem modSetCRC_residue {m : Mem} {a : Nat} (image : Sealable m a) :
    vmodulCrc 0xFFFFFF ((modSetCRC m a).2.bytes a (m.getU32 (a + Mh.size))) = 0x800FE3 := by
  have size := image.size
  have whole : m.getU32 (a + Mh.size) = m.getU32 (a + Mh.size) - 3 + 3 := by omega
  rw [modSetCRC_sealable image]
  simp only
  rw [whole]
  exact vmodulCrc_sealed _ a (m.getU32 (a + Mh.size) - 3)

theorem modSetCRC_size {m : Mem} {a : Nat} (image : Sealable m a) :
    (modSetCRC m a).2.getU32 (a + Mh.size) = m.getU32 (a + Mh.size) := by
  have size := image.size
  apply Mem.getU32_congr
  intro x low high
  unfold Mh.size at low high
  exact modSetCRC_outside image (by omega) (by omega)

theorem modSetCRC_sync {m : Mem} {a : Nat} (image : Sealable m a) : (modSetCRC m a).2.getU16 a = 0x4AFC := by
  have size := image.size
  rw [← image.sync]
  apply Mem.getU16_congr
  intro x low high
  exact modSetCRC_outside image (by omega) (by omega)

/-- A pool with a free entry takes a module that passes the checks. -/
theorem validateAndAdd_ok {d : ModDir} {m : Mem} {hdr size : Nat} (placed : hdr ≠ 0)
    (sync : m.getU16 hdr = 0x4AFC) (parity : headerXor m hdr 24 = 0xFFFF)
    (header : 0x30 ≤ m.getU32 (hdr + Mh.size)) (fits : m.getU32 (hdr + Mh.size) ≤ size)
    (residue : vmodulCrc 0xFFFFFF (m.bytes hdr (m.getU32 (hdr + Mh.size))) = 0x800FE3) (free : d.free ≠ 0) :
    d.validateAndAdd m hdr size = (.ok ⟨hdr, 0, m.getU16 (hdr + Mh.tyLang)⟩, (d.add m hdr).2) := by
  have long : 0x30 ≤ size := header.trans fits
  have synced : checkSyncWord m hdr size = true := by
    simp [checkSyncWord, placed, sync]
    omega
  have valid : validModuleHeader m hdr size = true := by
    simp [validModuleHeader, synced, parity, long]
  have slot : (d.add m hdr).1 ≠ 0 := by
    unfold ModDir.add ModDir.poolAlloc
    rw [if_neg free]
    simp only
    rw [if_neg free]
    exact free
  unfold ModDir.validateAndAdd
  rw [if_neg (by omega), if_neg (by simp [synced]), if_neg (by simp [valid])]
  simp only
  rw [if_neg (by omega), if_neg (by simp [residue]), if_neg slot]

/-- After F$SetCRC the header parity and the CRC residue are right, F$VModul
enters the module, and only parity word and CRC bytes have changed. -/
theorem setCRC_seals (m : Mem) (a : Nat) (image : Sealable m a) :
    let size := m.getU32 (a + Mh.size)
    let m' := (modSetCRC m a).2
    (modSetCRC m a).1 = .ok () ∧ validModuleHeader m' a size = true ∧
      vmodulCrc 0xFFFFFF (m'.bytes a size) = 0x800FE3 ∧
      (∀ (d : ModDir) (len : Nat), d.free ≠ 0 → size ≤ len →
        (d.validateAndAdd m' a len).1 = .ok ⟨a, 0, m.getU16 (a + Mh.tyLang)⟩) ∧
      ∀ x, x ≠ a + 0x2E → x ≠ a + 0x2F → x ≠ a + size - 3 → x ≠ a + size - 2 → x ≠ a + size - 1 →
        m' x = m x := by
  have large := image.size
  intro size m'
  have synced : checkSyncWord m' a size = true := by
    simp [checkSyncWord, image.placed, modSetCRC_sync image, m', size]
    omega
  have tyLang : m'.getU16 (a + Mh.tyLang) = m.getU16 (a + Mh.tyLang) := by
    apply Mem.getU16_congr
    intro x low high
    unfold Mh.tyLang at low high
    exact modSetCRC_outside image (by omega) (by omega)
  refine ⟨?_, ?_, modSetCRC_residue image, ?_, ?_⟩
  · rw [modSetCRC_sealable image]
  · simp [validModuleHeader, synced, m', modSetCRC_header image]
    omega
  · intro d len free fits
    have sized := modSetCRC_size image
    rw [validateAndAdd_ok image.placed (modSetCRC_sync image) (modSetCRC_header image)
      (by rw [sized]; omega) (by rw [sized]; exact fits) (by rw [sized]; exact modSetCRC_residue image) free,
      tyLang]
  · intro x high low first second third
    exact modSetCRC_outside image (by omega) (by omega)

/-- A module of 52 bytes at address $100 with nothing in it but sync word and size. -/
def bareModule : Mem := (Mem.setU32 (fun _ => 0) 0x104 0x34).setU16 0x100 0x4AFC

theorem setCRC_seals_bareModule :
    Sealable bareModule 0x100 ∧ (modSetCRC bareModule 0x100).1 = .ok () ∧
      vmodulCrc 0xFFFFFF ((modSetCRC bareModule 0x100).2.bytes 0x100 0x34) = 0x800FE3 := by
  have image : Sealable bareModule 0x100 := ⟨by decide, by decide, by decide, by decide⟩
  have seals := setCRC_seals bareModule 0x100 image
  have size : bareModule.getU32 (0x100 + Mh.size) = 0x34 := by decide
  rw [size] at seals
  exact ⟨image, seals.1, seals.2.2.1⟩

end Q9OS

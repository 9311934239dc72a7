import Q9OS.Lib.Mem
import Q9OS.Lib.Word
import Q9OS.Rbf.Sector

/-!
# Files of the block file manager

`rbf_fs.a`, `rbf_ops.a` and `rbf_write.a` on the sectors of one drive whose
driver reports no error: `Rbf_ReadSector` is then the sector itself and
`Rbf_WriteSector` replaces it. The static buffers are values of the routine
that fills them.
-/

namespace Q9OS.Rbf

abbrev Disk := Nat → Sector

def Disk.put (disk : Disk) (lsn : Nat) (bytes : Sector) : Disk := Function.update disk lsn bytes

def errBmod : Nat := 0xC9
def errEof : Nat := 0xD3
def errDirFul : Nat := 0xD9
def errDkFul : Nat := 0xDA
def errPnnf : Nat := 0xD8

/-! ### Sector 0 and descriptors -/

def ddTot : Nat := 0
def ddMap : Nat := 4
def ddBit : Nat := 6
def ddDir : Nat := 8
def ddMapLsn : Nat := 100
def ddLsnSize : Nat := 104

def fdAtt : Nat := 0
def fdLnk : Nat := 8
def fdSiz : Nat := 9
def fdSeg : Nat := 16
def fdslB : Nat := 3
def fdslS : Nat := 5
def maxSegs : Nat := 48

/-- Three bytes, as sector numbers are kept. -/
def getU24 (m : Mem) (a : Nat) : Nat := m.getU8 a * 65536 + m.getU16 (a + 1)

def setU24 (m : Mem) (a v : Nat) : Mem := ((m.setU8 (a + 2) v).setU8 (a + 1) (v / 256)).setU8 a (v / 65536)

/-- A word extended to a long with its sign. -/
def extL (w : Nat) : Nat := if w < 32768 then w else w + 0xFFFF0000

structure Lsn0 where
  tot : Nat
  lsnSize : Nat
  dir : Nat
  mapLsn : Nat
  bit : Nat
  deriving DecidableEq

/-- `Rbf_ParseLSN0`. -/
def parseLSN0 (m : Sector) : Option Lsn0 :=
  if getU24 m ddTot = 0 then none
  else
    some
      { tot := getU24 m ddTot
        lsnSize := if m.getU16 ddLsnSize = 0 then 512 else m.getU16 ddLsnSize
        dir := getU24 m ddDir
        mapLsn := if m.getU32 ddMapLsn = 0 then 1 else m.getU32 ddMapLsn
        bit := m.getU16 ddBit }

/-- The fields of a path descriptor that file operations use. -/
structure Path where
  fd : Nat
  dfd : Nat
  cp : Nat
  siz : Nat
  att : Nat
  sctSiz : Nat
  deriving DecidableEq, Repr

/-- The sector size, 512 where the descriptor has none. -/
def Path.size (p : Path) : Nat := if p.sctSiz = 0 then 512 else p.sctSiz

/-! ### Rbf_MapOffsetToLSN -/

/-- `divu.w`: quotient and remainder. A quotient of more than 16 bits leaves the dividend, whose
halves are then taken for them. -/
def divu (d5 d1 : Nat) : Nat × Nat :=
  if d5 / d1 < 65536 then (d5 / d1, d5 % d1) else (d5 % 65536, d5 / 65536)

/-- `Rbf_MapLoop` at the segment entry `a1` with `n` entries to go, for the sector with number `d5`
from there on. -/
def mapLoop (fd : Sector) : Nat → Nat → Nat → Option Nat
  | 0, _, _ => none
  | n + 1, a1, d5 =>
    let d2 := getU24 fd a1
    let d6 := extL (fd.getU16 (a1 + fdslB))
    if d2 = 0 ∧ d6 = 0 then none
    else if d5 < d6 then some (add32 d2 d5)
    else mapLoop fd n (a1 + fdslS) (d5 - d6)

/-- `Rbf_MapOffsetToLSN`: the sector of an offset and the offset inside; nothing is E_EOF. -/
def mapOffsetToLSN (fd : Sector) (d0 d1 : Nat) : Option (Nat × Nat) :=
  if fd.getU32 fdSiz ≤ d0 then none
  else (mapLoop fd maxSegs fdSeg (divu d0 d1).1).map fun lsn => (lsn, (divu d0 d1).2)

/-! ### Rbf_AllocCluster -/

/-- `Rbf_BMapBitLoop` below bit `n`: the highest clear bit and the index of its cluster. -/
def bitLoop (byte : Nat) : Nat → Nat → Option (Nat × Nat)
  | 0, _ => none
  | n + 1, d5 => if byte.testBit n then bitLoop byte n (d5 + 1) else some (n, d5)

/-- A free bit of the bitmap: the sector, the byte in it, the bit and the index of the cluster. -/
structure FreeBit where
  lsn : Nat
  off : Nat
  bit : Nat
  cluster : Nat

/-- `Rbf_BMapByteLoop` over `n` bytes from `a0` on. -/
def byteLoop (buf : Sector) (lsn : Nat) : Nat → Nat → Nat → Option FreeBit
  | 0, _, _ => none
  | n + 1, a0, d5 =>
    if buf.getU8 a0 = 0xFF then byteLoop buf lsn n (a0 + 1) (d5 + 8)
    else
      match bitLoop (buf.getU8 a0) 8 d5 with
      | some (bit, cluster) => some ⟨lsn, a0, bit, cluster⟩
      | none => byteLoop buf lsn n (a0 + 1) (d5 + 8)

/-- `Rbf_BMapSctLoop` with `bytes` bytes of the bitmap left, of which each sector has 512. -/
def sctLoop (disk : Disk) : Nat → Nat → Nat → Nat → Option FreeBit
  | 0, _, _, _ => none
  | fuel + 1, bytes, d7, d5 =>
    if bytes = 0 then none
    else
      match byteLoop (disk d7) d7 (min 512 bytes) 0 d5 with
      | some found => some found
      | none => sctLoop disk fuel (bytes - min 512 bytes) (d7 + 1) (d5 + 8 * min 512 bytes)

def mapBytes (m : Sector) : Nat := if m.getU16 ddMap = 0 then 512 else m.getU16 ddMap

/-- `Rbf_AllocCluster`: the disk with the bit set, the first sector of the cluster and its size. The
product takes the lower words of its factors. -/
def allocCluster (disk : Disk) : Except Nat (Disk × Nat × Nat) :=
  match parseLSN0 (disk 0) with
  | none => .error errBmod
  | some l =>
    match sctLoop disk (mapBytes (disk 0)) (mapBytes (disk 0)) l.mapLsn 0 with
    | none => .error errDkFul
    | some found =>
      let byte := (disk found.lsn).getU8 found.off
      .ok (disk.put found.lsn ((disk found.lsn).setU8 found.off (byte ||| 2 ^ found.bit)),
        found.cluster % 65536 * l.bit, l.bit)

/-! ### Rbf_Write -/

/-- `Rbf_FindFreeSeg`. -/
def findFreeSeg (fd : Sector) : Nat → Nat → Option Nat
  | 0, _ => none
  | n + 1, a3 => if getU24 fd a3 = 0 then some a3 else findFreeSeg fd n (a3 + fdslS)

/-- The registers and buffers of a write: the descriptor buffer, what is left to write, the
position, the bytes written and the source. -/
structure Wr where
  disk : Disk
  fd : Sector
  d4 : Nat
  d5 : Nat
  d7 : Nat
  a2 : Nat

/-- The cluster goes to the first free entry of the segment list. -/
def Wr.append (w : Wr) (d2 d4 : Nat) : Except (Nat × Wr) Wr :=
  match findFreeSeg w.fd maxSegs fdSeg with
  | none => .error (errDkFul, w)
  | some a3 => .ok { w with fd := (setU24 w.fd a3 d2).setU16 (a3 + fdslB) d4 }

/-- A new cluster at the end of the segment list. `Rbf_AllocCluster` brings its size back in the
lower half of `d4`, where the number of bytes left is kept. -/
def Wr.extend (w : Wr) : Except (Nat × Wr) Wr :=
  match allocCluster w.disk with
  | .error code => .error (code, w)
  | .ok (disk, d2, d4) => Wr.append { w with disk := disk, d4 := w.d4 / 65536 * 65536 + d4 } d2 d4

def Wr.find (w : Wr) (size : Nat) : Option (Wr × Nat × Nat) := (mapOffsetToLSN w.fd w.d5 size).map fun r => (w, r)

/-- The sector the next bytes go to and the offset in it: what the segment list says, or says with
one more segment. -/
def Wr.place (w : Wr) (size : Nat) : Except (Nat × Wr) (Wr × Nat × Nat) :=
  (w.find size).elim (w.extend.bind fun w => (w.find size).elim (.error (errEof, w)) .ok) .ok

/-- The bytes that are left in the sector behind `d3`, a word. -/
def roomFrom (size d3 : Nat) : Nat := (size + 65536 - d3) % 65536

/-- The copy loop and the commit of the sector. -/
def Wr.put (w : Wr) (user : Mem) (lsn d3 n : Nat) : Wr :=
  { w with
    disk := w.disk.put lsn ((w.disk lsn).blit d3 user w.a2 n)
    d4 := w.d4 - n
    d5 := (w.d5 + n) % 4294967296
    d7 := (w.d7 + n) % 4294967296
    a2 := w.a2 + n }

/-- `Rbf_WriteLoop`; no result where it never ends or leaves the sector buffer. -/
def writeLoop (user : Mem) (size : Nat) : Nat → Wr → Option (Option Nat × Wr)
  | 0, _ => none
  | fuel + 1, w =>
    if w.d4 = 0 then some (none, w)
    else
      match w.place size with
      | .error (code, w) => some (some code, w)
      | .ok (w, lsn, d3) =>
        let n := min w.d4 (roomFrom size d3)
        if 512 < d3 + n then none else writeLoop user size fuel (w.put user lsn d3 n)

/-- More rounds than there are positions are a loop without end. -/
def loopBound : Nat := 4294967296

/-- What a call leaves: the disk, the path, the caller's memory, its error and its count. -/
structure Out where
  disk : Disk
  path : Path
  user : Mem
  err : Option Nat
  d1 : Nat

/-- The caller's registers; `d5` and `d7` are what the call finds in them. -/
structure Regs where
  a0 : Nat
  d1 : Nat
  d5 : Nat
  d7 : Nat

/-- `Rbf_WriteFlushFD`. -/
def flushFD (p : Path) (user : Mem) (w : Wr) : Out :=
  let grown := w.fd.getU32 fdSiz ≤ w.d5
  let fd := if grown then w.fd.setU32 fdSiz w.d5 else w.fd
  { disk := w.disk.put p.fd fd
    path := { p with siz := if grown then w.d5 else p.siz, cp := w.d5 }
    user := user, err := none, d1 := w.d7 }

/-- `Rbf_Write`. A write of no bytes is done at once, with what `d5` and `d7` happen to hold. -/
def write (disk : Disk) (p : Path) (user : Mem) (q : Regs) : Option Out :=
  if q.d1 = 0 then some { disk := disk, path := { p with cp := q.d5 }, user := user, err := none, d1 := q.d7 }
  else
    let size := p.size
    let p := { p with sctSiz := size }
    let w : Wr := { disk := disk, fd := disk p.fd, d4 := q.d1, d5 := p.cp, d7 := 0, a2 := q.a0 }
    match writeLoop user size loopBound w with
    | none => none
    | some (none, w) => some (flushFD p user w)
    | some (some code, w) => some { disk := w.disk, path := p, user := user, err := some code, d1 := w.d7 }

/-! ### Rbf_Read -/

structure Rd where
  user : Mem
  d4 : Nat
  d5 : Nat
  d7 : Nat
  a2 : Nat

/-- The bytes up to the end of a line, which `Rbf_ReadLn` stops at. -/
def lineEnd (bytes : List UInt8) : Option Nat :=
  (bytes.findIdx? fun c => c == 0x0D || c == 0x0A).map (· + 1)

def Rd.take (r : Rd) (sector : Sector) (d3 n : Nat) : Rd :=
  { user := r.user.blit r.a2 sector d3 n, d4 := r.d4 - n, d5 := r.d5 + n, d7 := r.d7 + n, a2 := r.a2 + n }

/-- `Rbf_ReadLoop`. -/
def readLoop (disk : Disk) (fd : Sector) (size : Nat) (line : Bool) : Nat → Rd → Option Rd
  | 0, _ => none
  | fuel + 1, r =>
    if r.d4 = 0 then some r
    else
      match mapOffsetToLSN fd r.d5 size with
      | none => some r
      | some (lsn, d3) =>
        let n := min r.d4 (roomFrom size d3)
        if 512 < d3 + n then none
        else
          match if line then lineEnd ((disk lsn).bytes d3 n) else none with
          | some k => some (r.take (disk lsn) d3 k)
          | none => readLoop disk fd size line fuel (r.take (disk lsn) d3 n)

/-- `Rbf_ReadCommon`: `Rbf_ReadLn` where `line` is set, else `Rbf_Read`. -/
def readCommon (disk : Disk) (p : Path) (user : Mem) (q : Regs) (line : Bool) : Option Out :=
  let p := { p with sctSiz := p.size }
  let d4 := if q.d1 < p.siz - p.cp then q.d1 else p.siz - p.cp
  if p.siz ≤ p.cp ∨ d4 = 0 then some { disk := disk, path := p, user := user, err := some errEof, d1 := 0 }
  else
    match readLoop disk (disk p.fd) p.sctSiz line loopBound { user := user, d4 := d4, d5 := p.cp, d7 := 0, a2 := q.a0 } with
    | none => none
    | some r => some { disk := disk, path := { p with cp := r.d5 }, user := r.user, err := none, d1 := r.d7 }

def read (disk : Disk) (p : Path) (user : Mem) (q : Regs) : Option Out := readCommon disk p user q false

end Q9OS.Rbf

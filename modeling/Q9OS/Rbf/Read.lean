import Mathlib.Tactic
import Q9OS.Rbf.Write

/-!
# Reading, with a driver that may fail

`Rbf_ReadCommon` once more, with what the driver answers to each sector it is
asked for: position, count and bytes on every way out.
-/

namespace Q9OS.Rbf

/-- What the driver answers to the sector reads of a call, one after the other: nothing, or its error. -/
abbrev Answers := Nat → Option Nat

/-- `Rbf_ReadLoop` from the read with number `c` on. -/
def readLoopOn (ans : Answers) (disk : Disk) (fd : Sector) (size : Nat) (line : Bool) : Nat → Nat → Rd → Option (Rd × Option Nat)
  | 0, _, _ => none
  | fuel + 1, c, r =>
    if r.d4 = 0 then some (r, none)
    else
      match mapOffsetToLSN fd r.d5 size with
      | none => some (r, none)
      | some (lsn, d3) =>
        match ans c with
        | some code => some (r, some code)
        | none =>
          let n := min r.d4 (roomFrom size d3)
          if 512 < d3 + n then none
          else
            match if line then lineEnd ((disk lsn).bytes d3 n) else none with
            | some k => some (r.take (disk lsn) d3 k, none)
            | none => readLoopOn ans disk fd size line fuel (c + 1) (r.take (disk lsn) d3 n)

/-- The bytes a call asks for, at most those up to the end of the file. -/
def wanted (p : Path) (q : Regs) : Nat := if q.d1 < p.siz - p.cp then q.d1 else p.siz - p.cp

/-- `Rbf_ReadCommon`: the descriptor is the first sector to be read. An error of the driver leaves the position where
it was, and reports the bytes read so far. -/
def readCommonOn (ans : Answers) (disk : Disk) (p : Path) (user : Mem) (q : Regs) (line : Bool) : Option Out :=
  let path := { p with sctSiz := p.size }
  if p.siz ≤ p.cp ∨ wanted p q = 0 then some { disk := disk, path := path, user := user, err := some errEof, d1 := 0 }
  else
    match ans 0 with
    | some code => some { disk := disk, path := path, user := user, err := some code, d1 := 0 }
    | none =>
      match readLoopOn ans disk (disk p.fd) p.size line loopBound 1
        { user := user, d4 := wanted p q, d5 := p.cp, d7 := 0, a2 := q.a0 } with
      | none => none
      | some (r, none) => some { disk := disk, path := { path with cp := r.d5 }, user := r.user, err := none, d1 := r.d7 }
      | some (r, some code) => some { disk := disk, path := path, user := r.user, err := some code, d1 := r.d7 }

/-! ### Without errors -/

section
variable {ans : Answers} (quiet : ∀ k, ans k = none)
include quiet

theorem readLoopOn_quiet (disk : Disk) (fd : Sector) (size : Nat) (line : Bool) (fuel c : Nat) (r : Rd) :
    readLoopOn ans disk fd size line fuel c r = (readLoop disk fd size line fuel r).map fun r => (r, none) := by
  induction fuel generalizing c r with
  | zero => rfl
  | succ fuel ih =>
    rw [readLoopOn, readLoop, quiet c]
    by_cases done : r.d4 = 0
    · rw [if_pos done, if_pos done]
      rfl
    rw [if_neg done, if_neg done]
    cases mapOffsetToLSN fd r.d5 size with
    | none => rfl
    | some place =>
      obtain ⟨lsn, d3⟩ := place
      dsimp only
      generalize min r.d4 (roomFrom size d3) = n
      generalize (if line then lineEnd ((disk lsn).bytes d3 n) else none) = stop
      by_cases far : 512 < d3 + n
      · rw [if_pos far, if_pos far]
        rfl
      · rw [if_neg far, if_neg far]
        cases stop with
        | some k => rfl
        | none => exact ih (c + 1) (r.take (disk lsn) d3 n)

/-- A driver that never fails gives the read of the other operations. -/
theorem readCommonOn_quiet (disk : Disk) (p : Path) (user : Mem) (q : Regs) (line : Bool) :
    readCommonOn ans disk p user q line = readCommon disk p user q line := by
  unfold readCommonOn readCommon
  dsimp only
  rw [show (if q.d1 < p.siz - p.cp then q.d1 else p.siz - p.cp) = wanted p q from rfl, quiet 0]
  by_cases atEnd : p.siz ≤ p.cp ∨ wanted p q = 0
  · rw [if_pos atEnd, if_pos atEnd]
  · rw [if_neg atEnd, if_neg atEnd, readLoopOn_quiet quiet]
    cases readLoop disk (disk p.fd) p.size line loopBound { user := user, d4 := wanted p q, d5 := p.cp, d7 := 0, a2 := q.a0 } <;>
      rfl

end

/-! ### The bytes of a file -/

def byteIn (disk : Disk) : Option Nat → Nat → UInt8
  | some lsn, i => disk lsn i
  | none, _ => 0

/-- The file as one row of bytes. -/
def fileBytes (disk : Disk) (p : Path) : Mem := fun off => byteIn disk (sectors (disk p.fd))[off / p.size]? (off % p.size)

theorem fileBytes_sector {disk : Disk} {p : Path} {off lsn : Nat} (named : (sectors (disk p.fd))[off / p.size]? = some lsn) :
    fileBytes disk p off = disk lsn (off % p.size) := by
  rw [fileBytes, named, byteIn]

/-- How many of the `m` bytes from `off` on a call delivers: a line, or all. -/
def amount (file : Mem) (line : Bool) (off m : Nat) : Nat := if line then (lineEnd (file.bytes off m)).getD m else m

theorem lineEnd_append (l l' : List UInt8) : lineEnd (l ++ l') = (lineEnd l).or ((lineEnd l').map (l.length + ·)) := by
  unfold lineEnd
  rw [List.findIdx?_append]
  cases l.findIdx? fun c => c == 0x0D || c == 0x0A with
  | some i => rfl
  | none =>
    cases l'.findIdx? fun c => c == 0x0D || c == 0x0A with
    | none => rfl
    | some i =>
      show some (i + l.length + 1) = some (l.length + (i + 1))
      rw [Nat.add_right_comm, Nat.add_comm]

theorem lineEnd_bounds {l : List UInt8} {k : Nat} (ends : lineEnd l = some k) : 0 < k ∧ k ≤ l.length := by
  obtain ⟨i, found, rfl⟩ := Option.map_eq_some_iff.mp ends
  obtain ⟨inside, -⟩ := List.findIdx?_eq_some_iff_getElem.mp found
  omega

theorem amount_le (file : Mem) (line : Bool) (off m : Nat) : amount file line off m ≤ m := by
  unfold amount
  split
  · cases ends : lineEnd (file.bytes off m) with
    | none => exact Nat.le_refl m
    | some k =>
      have bounds := lineEnd_bounds ends
      rw [Mem.length_bytes] at bounds
      exact bounds.2
  · exact Nat.le_refl m

theorem amount_pos (file : Mem) (line : Bool) (off : Nat) {m : Nat} (some : 0 < m) : 0 < amount file line off m := by
  unfold amount
  split
  · cases ends : lineEnd (file.bytes off m) with
    | none => exact some
    | some k => exact (lineEnd_bounds ends).1
  · exact some

theorem bytes_split (file : Mem) (off : Nat) {j m : Nat} (le : j ≤ m) :
    file.bytes off m = file.bytes off j ++ file.bytes (off + j) (m - j) := by
  rw [← Mem.bytes_add, Nat.add_sub_cancel' le]

/-- A line that ends in the first `j` bytes. -/
theorem amount_stop {file : Mem} {line : Bool} {off j k m : Nat} (le : j ≤ m)
    (stop : (if line then lineEnd (file.bytes off j) else none) = some k) : amount file line off m = k := by
  cases line with
  | false => cases stop
  | true =>
    unfold amount
    rw [if_pos rfl] at stop ⊢
    rw [bytes_split file off le, lineEnd_append, stop]
    rfl

/-- Without an end of a line in the first `j` bytes the call goes on behind them. -/
theorem amount_skip {file : Mem} {line : Bool} {off j m : Nat} (le : j ≤ m)
    (skip : (if line then lineEnd (file.bytes off j) else none) = none) :
    amount file line off m = j + amount file line (off + j) (m - j) := by
  unfold amount
  cases line with
  | false =>
    rw [if_neg (by decide), if_neg (by decide)]
    omega
  | true =>
    rw [if_pos rfl] at skip ⊢
    rw [if_pos rfl, bytes_split file off le, lineEnd_append, skip, Option.none_or, Mem.length_bytes]
    cases lineEnd (file.bytes (off + j) (m - j)) with
    | none => exact (Nat.add_sub_cancel' le).symm
    | some k => rfl

/-! ### The loop -/

/-- An open file: the segments cover the size the path knows, and the descriptor has no smaller one. -/
structure OpenFile (disk : Disk) (p : Path) : Prop where
  big : 256 ≤ p.size
  fits : p.size ≤ 512
  known : p.siz ≤ (disk p.fd).getU32 fdSiz
  covers : p.siz ≤ p.size * (sectors (disk p.fd)).length

section Loop
variable {disk : Disk} {p : Path} {n : Nat} (file : OpenFile disk p) (mapped : Mapped disk p n)
include file mapped

theorem place_read {k : Nat} (before : k < n) (inside : p.cp + n ≤ p.siz) :
    ∃ lsn, mapOffsetToLSN (disk p.fd) (p.cp + k) p.size = some (lsn, (p.cp + k) % p.size) ∧
      ∀ i, (p.cp + k) % p.size + i < p.size →
        disk lsn ((p.cp + k) % p.size + i) = fileBytes disk p (p.cp + k + i) := by
  have number := number_le p before
  have known := file.known
  have listed : (p.cp + k) / p.size < (sectors (disk p.fd)).length := by
    have covers := file.covers
    exact Nat.div_lt_of_lt_mul (by omega)
  have named := List.getElem?_eq_getElem listed
  generalize (sectors (disk p.fd))[(p.cp + k) / p.size] = lsn at named
  refine ⟨lsn, ?_, fun i room => ?_⟩
  · rw [mapOffsetToLSN_sectors (mapped.short.mono number) (by have := mapped.small; omega) (by omega), named,
      Option.map_some]
  · obtain ⟨sector, offset⟩ := within_sector room
    rw [fileBytes_sector (by rw [sector]; exact named), offset]

variable (user : Mem) (a0 : Nat) {total : Nat} {line : Bool}

/-- The registers behind `k` bytes. -/
def rdAt (disk : Disk) (p : Path) (user : Mem) (a0 total k : Nat) : Rd where
  user := user.blit a0 (fileBytes disk p) p.cp k
  d4 := total - k
  d5 := p.cp + k
  d7 := k
  a2 := a0 + k

omit file mapped in
theorem take_rdAt {lsn k j : Nat} (same : ∀ i < j, disk lsn ((p.cp + k) % p.size + i) = fileBytes disk p (p.cp + k + i)) :
    (rdAt disk p user a0 total k).take (disk lsn) ((p.cp + k) % p.size) j = rdAt disk p user a0 total (k + j) := by
  have bytes : (user.blit a0 (fileBytes disk p) p.cp k).blit (a0 + k) (disk lsn) ((p.cp + k) % p.size) j =
      user.blit a0 (fileBytes disk p) p.cp (k + j) := by
    rw [← Mem.blit_blit]
    funext x
    unfold Mem.blit
    split
    · next new =>
      have value := same (x - (a0 + k)) (by omega)
      rw [Nat.add_comm _ ((p.cp + k) % p.size), value, Nat.add_comm (p.cp + k)]
    · rfl
  unfold rdAt Rd.take
  dsimp only
  rw [bytes, Nat.sub_sub, Nat.add_assoc, Nat.add_assoc]

/-- The sectors from the byte with number `k` to the last byte. -/
def rounds (p : Path) (n k : Nat) : Nat := if k < n then lastSector p n + 1 - (p.cp + k) / p.size else 0

/-- The loop at `k` delivers the bytes up to `n`. -/
structure Due (disk : Disk) (p : Path) (line : Bool) (total n k : Nat) : Prop where
  le : k ≤ total
  up : k + amount (fileBytes disk p) line (p.cp + k) (total - k) = n

theorem read_fails {ans : Answers} {c k code : Nat} (before : k < n) (left : k < total) (inside : p.cp + n ≤ p.siz)
    (failed : ans c = some code) (fuel : Nat) :
    readLoopOn ans disk (disk p.fd) p.size line (fuel + 1) c (rdAt disk p user a0 total k) =
      some (rdAt disk p user a0 total k, some code) := by
  obtain ⟨lsn, found, -⟩ := place_read file mapped before inside
  have more : (rdAt disk p user a0 total k).d4 ≠ 0 := by
    show total - k ≠ 0
    omega
  have position : (rdAt disk p user a0 total k).d5 = p.cp + k := rfl
  rw [readLoopOn, if_neg more, position, found]
  dsimp only
  rw [failed]

/-- One sector: the bytes up to the end of a line in it, or all there are, and then the next one. -/
theorem read_sector (line : Bool) {ans : Answers} {c k j : Nat} (before : k < n) (left : k < total) (inside : p.cp + n ≤ p.siz)
    (answered : ans c = none) (part : min (total - k) (p.size - (p.cp + k) % p.size) = j) (fuel : Nat) :
    readLoopOn ans disk (disk p.fd) p.size line (fuel + 1) c (rdAt disk p user a0 total k) =
      match if line then lineEnd ((fileBytes disk p).bytes (p.cp + k) j) else none with
      | some e => some (rdAt disk p user a0 total (k + e), none)
      | none => readLoopOn ans disk (disk p.fd) p.size line fuel (c + 1) (rdAt disk p user a0 total (k + j)) := by
  have big := file.big
  have fits := file.fits
  obtain ⟨lsn, found, bytes⟩ := place_read file mapped before inside
  have below := Nat.mod_lt (p.cp + k) (show 0 < p.size by omega)
  have room := roomFrom_eq fits below
  have more : (rdAt disk p user a0 total k).d4 ≠ 0 := by
    show total - k ≠ 0
    omega
  have position : (rdAt disk p user a0 total k).d5 = p.cp + k := rfl
  have remaining : (rdAt disk p user a0 total k).d4 = total - k := rfl
  have row : (disk lsn).bytes ((p.cp + k) % p.size) j = (fileBytes disk p).bytes (p.cp + k) j :=
    Mem.bytes_eq (fun i low => bytes i (by omega))
  rw [readLoopOn, if_neg more, position, found]
  dsimp only
  rw [answered]
  dsimp only
  rw [room, remaining, part, if_neg (by omega), row, take_rdAt user a0 (fun i low => bytes i (by omega))]
  cases stop : if line then lineEnd ((fileBytes disk p).bytes (p.cp + k) j) else none with
  | none => rfl
  | some e =>
    have short : e ≤ j := by
      have bounds := amount_le (fileBytes disk p) line (p.cp + k) j
      rw [amount_stop (Nat.le_refl j) stop] at bounds
      exact bounds
    dsimp only
    rw [take_rdAt user a0 (fun i low => bytes i (by omega))]

omit file mapped in
/-- The last byte lies in the sector of the byte `k`. -/
theorem rounds_last {k : Nat} (before : k < n) (room : (p.cp + k) % p.size + (n - k) ≤ p.size) : rounds p n k = 1 := by
  have same : lastSector p n = (p.cp + k) / p.size := by
    unfold lastSector
    rw [show p.cp + n - 1 = p.cp + k + (n - k - 1) by omega]
    exact (within_sector (by omega)).1
  unfold rounds
  rw [if_pos before, same]
  omega

omit mapped in
/-- The byte `k'` starts the sector behind that of the byte `k`. -/
theorem rounds_next {k k' : Nat} (before : k' < n) (next : k' = k + (p.size - (p.cp + k) % p.size)) :
    rounds p n k = rounds p n k' + 1 := by
  have big := file.big
  have below := Nat.mod_lt (p.cp + k) (show 0 < p.size by omega)
  have number := number_le p before
  have sector := (next_sector (q := p.cp + k) (show 0 < p.size by omega)).1
  unfold rounds
  rw [if_pos (by omega), if_pos before]
  rw [next, ← Nat.add_assoc, sector] at number ⊢
  omega

/-- The call ends in the sector, or the loop goes on in the next one. -/
theorem read_round {ans : Answers} {c k : Nat} (due : Due disk p line total n k) (before : k < n)
    (inside : p.cp + n ≤ p.siz) (answered : ans c = none) (fuel : Nat) :
    (rounds p n k = 1 ∧ readLoopOn ans disk (disk p.fd) p.size line (fuel + 1) c (rdAt disk p user a0 total k) =
        some (rdAt disk p user a0 total n, none)) ∨
      ∃ k', k < k' ∧ k' ≤ n ∧ Due disk p line total n k' ∧ rounds p n k = rounds p n k' + 1 ∧
        readLoopOn ans disk (disk p.fd) p.size line (fuel + 1) c (rdAt disk p user a0 total k) =
          readLoopOn ans disk (disk p.fd) p.size line fuel (c + 1) (rdAt disk p user a0 total k') := by
  obtain ⟨le, up⟩ := due
  have big := file.big
  have below := Nat.mod_lt (p.cp + k) (show 0 < p.size by omega)
  have within := amount_le (fileBytes disk p) line (p.cp + k) (total - k)
  have step := read_sector file mapped user a0 line before (show k < total by omega) inside answered rfl fuel
  generalize part : min (total - k) (p.size - (p.cp + k) % p.size) = j at step
  cases stop : if line then lineEnd ((fileBytes disk p).bytes (p.cp + k) j) else none with
  | some e =>
    rw [stop] at step
    have whole := amount_stop (by omega : j ≤ total - k) stop
    have short := amount_le (fileBytes disk p) line (p.cp + k) j
    rw [amount_stop (Nat.le_refl j) stop] at short
    have last : k + e = n := by omega
    dsimp only at step
    rw [last] at step
    exact .inl ⟨rounds_last before (by omega), step⟩
  | none =>
    rw [stop] at step
    have whole := amount_skip (by omega : j ≤ total - k) stop
    have later := amount_le (fileBytes disk p) line (p.cp + k + j) (total - k - j)
    refine .inr ⟨k + j, by omega, by omega, ⟨by omega, ?_⟩, ?_, step⟩
    · rw [← Nat.add_assoc, Nat.sub_add_eq]
      omega
    · by_cases ends : total - k ≤ p.size - (p.cp + k) % p.size
      · have finished : ¬ k + j < n := by omega
        rw [rounds_last before (by omega), rounds, if_neg finished]
      · have some_later := amount_pos (fileBytes disk p) line (p.cp + k + j) (show 0 < total - k - j by omega)
        exact rounds_next file (by omega) (by omega)

/-- The loop delivers everything, unless the driver fails on one of the sectors. -/
theorem readLoopOn_spec (ans : Answers) (c : Nat) (inside : p.cp + n ≤ p.siz) {fuel k : Nat} (due : Due disk p line total n k)
    (fueled : rounds p n k < fuel) :
    ((∀ i < rounds p n k, ans (c + i) = none) →
      readLoopOn ans disk (disk p.fd) p.size line fuel c (rdAt disk p user a0 total k) =
        some (rdAt disk p user a0 total n, none)) ∧
      ∀ i < rounds p n k, ∀ code, ans (c + i) = some code → (∀ j < i, ans (c + j) = none) →
        ∃ k', k ≤ k' ∧ k' ≤ n ∧ (0 < i → k < k') ∧ (i = 0 → k' = k) ∧
          readLoopOn ans disk (disk p.fd) p.size line fuel c (rdAt disk p user a0 total k) =
            some (rdAt disk p user a0 total k', some code) := by
  have within := amount_le (fileBytes disk p) line (p.cp + k) (total - k)
  induction fuel generalizing c k with
  | zero => omega
  | succ fuel ih =>
    have up := due.up
    have le := due.le
    by_cases before : k < n
    · constructor
      · intro quiet
        have first : 0 < rounds p n k := by
          have number := number_le p before
          unfold rounds
          rw [if_pos before]
          omega
        have answered : ans c = none := quiet 0 first
        obtain ⟨-, done⟩ | ⟨k', further, -, due', count, same⟩ := read_round file mapped user a0 due before inside answered fuel
        · exact done
        · rw [same]
          refine (ih (c + 1) due' (by omega) (amount_le _ _ _ _)).1 (fun i low => ?_)
          have answer := quiet (i + 1) (by omega)
          rw [Nat.add_right_comm]
          exact answer
      · intro i low code failed earlier
        cases i with
        | zero =>
          refine ⟨k, Nat.le_refl k, by omega, fun none => absurd none (Nat.lt_irrefl 0), fun _ => rfl, ?_⟩
          exact read_fails file mapped user a0 before (by omega) inside failed fuel
        | succ i =>
          have answered : ans c = none := earlier 0 (Nat.zero_lt_succ i)
          obtain ⟨one, -⟩ | ⟨k', further, short, due', count, same⟩ := read_round file mapped user a0 due before inside answered
            fuel
          · omega
          · obtain ⟨k'', low', high', -, -, ran⟩ := (ih (c + 1) due' (by omega) (amount_le _ _ _ _)).2 i (by omega) code
              (by rw [Nat.add_right_comm]; exact failed)
              (fun j before' => by rw [Nat.add_right_comm]; exact earlier (j + 1) (by omega))
            exact ⟨k'', by omega, high', fun _ => by omega, fun none => by omega, same.trans ran⟩
    · have none : rounds p n k = 0 := if_neg before
      rw [none]
      refine ⟨fun _ => ?_, fun i low => absurd low (Nat.not_lt_zero i)⟩
      obtain rfl : n = k := by omega
      have finished : total - n = 0 := by
        by_contra some_left
        have more := amount_pos (fileBytes disk p) line (p.cp + n) (Nat.pos_of_ne_zero some_left)
        omega
      have left : (rdAt disk p user a0 total n).d4 = 0 := finished
      rw [readLoopOn, if_pos left]

end Loop

/-! ### The calls -/

/-- At or behind the end of the file, or nothing asked for. -/
def AtEnd (p : Path) (q : Regs) : Prop := p.siz ≤ p.cp ∨ q.d1 = 0

/-- The bytes of the file that a call is to deliver. -/
def deliverable (disk : Disk) (p : Path) (q : Regs) (line : Bool) : Nat := amount (fileBytes disk p) line p.cp (wanted p q)

/-- What a call does when it is right: the position goes with the count and the bytes are those of the file; nothing and
E_EOF at the end, and else everything or the error of the driver on the descriptor or on a sector of the transfer. -/
structure ReadRight (ans : Answers) (disk : Disk) (p : Path) (user : Mem) (q : Regs) (line : Bool) (out : Out) : Prop where
  advanced : out.path.cp = p.cp + out.d1
  bytes : out.user = user.blit q.a0 (fileBytes disk p) p.cp out.d1
  atEnd : AtEnd p q → out.err = some errEof ∧ out.d1 = 0
  whole : ¬ AtEnd p q → out.err = none → out.d1 = deliverable disk p q line
  failed : ¬ AtEnd p q → ∀ code, out.err = some code → ∃ k ≤ rounds p (deliverable disk p q line) 0, ans k = some code

/-- The driver fails on none of the sectors of the transfer, or at once on the descriptor or the first of them. -/
def Undisturbed (ans : Answers) (disk : Disk) (p : Path) (q : Regs) (line : Bool) : Prop :=
  ans 0 ≠ none ∨ ans 1 ≠ none ∨ ∀ i, 2 ≤ i → i ≤ rounds p (deliverable disk p q line) 0 → ans i = none

theorem wanted_le (p : Path) (q : Regs) : wanted p q ≤ p.siz - p.cp := by
  unfold wanted
  split <;> omega

theorem atEnd_iff (p : Path) (q : Regs) : AtEnd p q ↔ p.siz ≤ p.cp ∨ wanted p q = 0 := by
  unfold AtEnd wanted
  split <;> omega

section Call
variable {ans : Answers} {disk : Disk} {p : Path} {user : Mem} {q : Regs} {line : Bool}

theorem rdAt_zero (disk : Disk) (p : Path) (user : Mem) (a0 total : Nat) :
    rdAt disk p user a0 total 0 = { user := user, d4 := total, d5 := p.cp, d7 := 0, a2 := a0 } := by
  unfold rdAt
  rw [Mem.blit_zero, Nat.sub_zero]
  rfl

/-- A call that ends before the loop. -/
theorem readRight_nothing {out : Out} (cp : out.path.cp = p.cp) (d1 : out.d1 = 0) (same : out.user = user)
    (atEnd : AtEnd p q → out.err = some errEof) (failed : ¬ AtEnd p q → ∃ k ≤ rounds p (deliverable disk p q line) 0, ans k ≠ none ∧ out.err = ans k) :
    ReadRight ans disk p user q line out := by
  refine ⟨by rw [cp, d1, Nat.add_zero], by rw [same, d1, Mem.blit_zero], fun ends => ⟨atEnd ends, d1⟩, ?_, ?_⟩
  · intro inside none
    obtain ⟨k, -, wrong, err⟩ := failed inside
    exact absurd (err.symm.trans none) wrong
  · intro inside code err
    obtain ⟨k, low, -, same⟩ := failed inside
    exact ⟨k, low, same.symm.trans err⟩

/-- `Rbf_Read` and `Rbf_ReadLn` are right exactly when the driver does not fail behind the first sector of the data. -/
theorem read_right_iff (file : OpenFile disk p) (mapped : ¬ AtEnd p q → Mapped disk p (deliverable disk p q line))
    (ans : Answers) (user : Mem) :
    ∃ out, readCommonOn ans disk p user q line = some out ∧
      (ReadRight ans disk p user q line out ↔ AtEnd p q ∨ Undisturbed ans disk p q line) := by
  unfold readCommonOn
  dsimp only
  by_cases ends : p.siz ≤ p.cp ∨ wanted p q = 0
  · have atEnd := (atEnd_iff p q).mpr ends
    rw [if_pos ends]
    exact ⟨_, rfl, iff_of_true (readRight_nothing rfl rfl rfl (fun _ => rfl) (fun inside => absurd atEnd inside)) (.inl atEnd)⟩
  rw [if_neg ends]
  have inside : ¬ AtEnd p q := fun atEnd => ends ((atEnd_iff p q).mp atEnd)
  cases descriptor : ans 0 with
  | some code =>
    have wrong : ans 0 ≠ none := by simp [descriptor]
    refine ⟨_, rfl, iff_of_true (readRight_nothing rfl rfl rfl (fun atEnd => absurd atEnd inside) (fun _ => ?_)) ?_⟩
    · exact ⟨0, Nat.zero_le _, wrong, descriptor.symm⟩
    · exact .inr (.inl wrong)
  | none =>
    dsimp only
    have le := wanted_le p q
    have amounts := amount_le (fileBytes disk p) line p.cp (wanted p q)
    have positive : 0 < deliverable disk p q line := amount_pos _ _ _ (by omega)
    have within : p.cp + deliverable disk p q line ≤ p.siz := by
      unfold deliverable
      omega
    have due : Due disk p line (wanted p q) (deliverable disk p q line) 0 :=
      ⟨Nat.zero_le _, by rw [Nat.zero_add, Nat.add_zero, Nat.sub_zero]; rfl⟩
    have few : rounds p (deliverable disk p q line) 0 ≤ 65536 := by
      have small := (mapped inside).small
      rw [rounds, if_pos positive]
      exact (Nat.sub_le _ _).trans small
    have fueled : rounds p (deliverable disk p q line) 0 < loopBound := lt_of_le_of_lt few (by decide)
    obtain ⟨quiet, disturbed⟩ := readLoopOn_spec file (mapped inside) user q.a0 ans 1 within due fueled
    rw [rdAt_zero] at quiet disturbed
    by_cases all : ∀ i < rounds p (deliverable disk p q line) 0, ans (1 + i) = none
    · rw [quiet all]
      refine ⟨_, rfl, iff_of_true ⟨rfl, rfl, fun atEnd => absurd atEnd inside, fun _ _ => rfl, fun _ code err => by cases err⟩ ?_⟩
      refine .inr (.inr (.inr (fun i two low => ?_)))
      have answer := all (i - 1) (by omega)
      rw [show 1 + (i - 1) = i by omega] at answer
      exact answer
    · -- the first sector of the transfer that the driver fails on
      have some_wrong : ∃ i, i < rounds p (deliverable disk p q line) 0 ∧ ans (1 + i) ≠ none := by
        by_contra none
        exact all (fun i low => by_contra (fun wrong => none ⟨i, low, wrong⟩))
      obtain ⟨i, ⟨low, wrong⟩, first⟩ : ∃ i, (i < rounds p (deliverable disk p q line) 0 ∧ ans (1 + i) ≠ none) ∧
          ∀ j < i, ans (1 + j) = none := by
        refine ⟨Nat.find some_wrong, Nat.find_spec some_wrong, fun j before => ?_⟩
        have spec := Nat.find_spec some_wrong
        exact by_contra (fun wrong => Nat.find_min some_wrong before ⟨by omega, wrong⟩)
      obtain ⟨code, failed⟩ := Option.ne_none_iff_exists'.mp wrong
      obtain ⟨k', -, -, further, start, ran⟩ := disturbed i low code failed first
      rw [ran]
      refine ⟨_, rfl, ?_⟩
      cases i with
      | zero =>
        obtain rfl := start rfl
        refine iff_of_true (readRight_nothing rfl rfl ?_ (fun atEnd => absurd atEnd inside) (fun _ => ⟨1, low, wrong, failed.symm⟩))
          (.inr (.inr (.inl wrong)))
        exact Mem.blit_zero _ _ _ _
      | succ i =>
        have more := further (Nat.zero_lt_succ i)
        refine iff_of_false (fun right => ?_) ?_
        · have advanced : p.cp = p.cp + k' := right.advanced
          omega
        · rintro (atEnd | head | second | rest)
          · exact inside atEnd
          · exact head descriptor
          · exact second (first 0 (Nat.zero_lt_succ i))
          · exact wrong (rest (1 + (i + 1)) (by omega) (by omega))

end Call

theorem smallDisk_open : OpenFile (smallDisk 1000) (smallPath 0 1000) where
  big := by decide
  fits := by decide
  known := by decide
  covers := by
    have wf : WellFormed (smallDisk 1000) (smallPath 0 1000) := smallDisk_wellFormed (by decide)
    have known : 1000 = (smallDisk 1000 2).getU32 fdSiz := by decide
    exact known.le.trans wf.covers

theorem smallDisk_mapped : Mapped (smallDisk 1000) (smallPath 0 1000) (deliverable (smallDisk 1000) (smallPath 0 1000) ⟨0, 900, 0, 0⟩ false) := by
  have inside : 1 < (smallDisk 1000 2).getU16 (fdSeg + fdslB) := by decide
  exact ⟨by decide, .inr (.inl inside)⟩

/-- Nine hundred bytes over two sectors. -/
theorem read_right_quiet : ∃ out,
    readCommonOn (fun _ => none) (smallDisk 1000) (smallPath 0 1000) (fun _ => 0) ⟨0, 900, 0, 0⟩ false = some out ∧
      ReadRight (fun _ => none) (smallDisk 1000) (smallPath 0 1000) (fun _ => 0) ⟨0, 900, 0, 0⟩ false out := by
  obtain ⟨out, ran, right⟩ := read_right_iff smallDisk_open (fun _ => smallDisk_mapped) (fun _ => none) (fun _ => 0)
  exact ⟨out, ran, right.mpr (.inr (.inr (.inr (fun _ _ _ => rfl))))⟩

/-- The driver fails on the second sector: 512 bytes are reported, and the position stays at 0. -/
theorem read_error_position : (readCommonOn (fun k => if k = 2 then some 0xF4 else none) (smallDisk 1000) (smallPath 0 1000)
    (fun _ => 0) ⟨0, 900, 0, 0⟩ false).map (fun out => (out.d1, out.path.cp, out.err)) = some (512, 0, some 0xF4) := by
  decide

end Q9OS.Rbf

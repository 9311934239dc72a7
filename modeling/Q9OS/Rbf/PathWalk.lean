import Mathlib.Tactic
import Q9OS.Rbf.Names

/-!
# The way to a descriptor

`Rbf_ScanDir` and `Rbf_ParsePath`: from a path and a start directory to the
descriptor of a file. The driver may fail on every sector.
-/

namespace Q9OS.Rbf

/-! ### The drive -/

/-- The sectors, and what the driver answers to the calls to come. -/
structure Drive where
  disk : Disk
  answers : Nat → Answer

/-- How a routine fails: with an error, or out of what the code says: it does not end, or leaves its buffers. -/
inductive Failure
  | error (code : Nat)
  | lost
  deriving DecidableEq

/-- A routine that uses the drive. -/
abbrev Drv := EStateM Failure Drive

namespace Drive

def later (v : Drive) : Drive := { v with answers := fun k => v.answers (k + 1) }

/-- `Rbf_ReadSector` into one of the buffers. -/
def readSector (lsn : Nat) : Drv Sector := fun v =>
  match v.answers 0 with
  | .done => .ok (v.disk lsn) v.later
  | .failed code _ => .error (.error code) v.later

/-- `Rbf_WriteSector`. A driver that fails may leave anything in the sector. -/
def writeSector (lsn : Nat) (bytes : Sector) : Drv Unit := fun v =>
  match v.answers 0 with
  | .done => .ok () { v.later with disk := v.disk.put lsn bytes }
  | .failed code left => .error (.error code) { v.later with disk := v.disk.put lsn left }

/-- A drive whose driver never fails. -/
def quiet (disk : Disk) : Drive := ⟨disk, fun _ => .done⟩

@[simp] theorem readSector_quiet (disk : Disk) (lsn : Nat) : readSector lsn (quiet disk) = .ok (disk lsn) (quiet disk) := rfl

end Drive

/-! ### Runs -/

section Runs
variable {α β : Type} {x : Drv α} {f : α → Drv β} {v v' : Drive}

/-- A routine goes on where its first part ended. -/
theorem bind_ok {a : α} (ok : x v = .ok a v') : (x >>= f) v = f a v' := by
  show EStateM.bind x f v = f a v'
  unfold EStateM.bind
  rw [ok]

theorem bind_error {e : Failure} (error : x v = .error e v') : (x >>= f) v = .error e v' := by
  show EStateM.bind x f v = .error e v'
  unfold EStateM.bind
  rw [error]

theorem ran_ok {b : β} (ran : (x >>= f) v = .ok b v') : ∃ a v1, x v = .ok a v1 ∧ f a v1 = .ok b v' := by
  cases first : x v with
  | ok a v1 => exact ⟨a, v1, rfl, (bind_ok first).symm.trans ran⟩
  | error e v1 => exact nomatch (bind_error first).symm.trans ran

/-- The drive a routine leaves. -/
def left : EStateM.Result Failure Drive α → Drive
  | .ok _ v => v
  | .error _ v => v

/-- The drive after `n` more calls of the driver that wrote nothing. -/
def Drive.after (v : Drive) (n : Nat) : Drive := { v with answers := fun k => v.answers (k + n) }

/-- A routine that writes no sector. -/
def Reads (x : Drv α) : Prop := ∀ v, ∃ n, left (x v) = v.after n

theorem Reads.left_ok (reads : Reads x) {a : α} (ran : x v = .ok a v') : ∃ n, v' = v.after n := by
  have same := reads v
  rwa [ran] at same

theorem Reads.left_error (reads : Reads x) {e : Failure} (ran : x v = .error e v') : ∃ n, v' = v.after n := by
  have same := reads v
  rwa [ran] at same

theorem Reads.ok (reads : Reads x) {a : α} (ran : x v = .ok a v') : v'.disk = v.disk := by
  obtain ⟨n, rfl⟩ := reads.left_ok ran
  rfl

theorem Reads.error (reads : Reads x) {e : Failure} (ran : x v = .error e v') : v'.disk = v.disk := by
  obtain ⟨n, rfl⟩ := reads.left_error ran
  rfl

theorem Reads.quiet (reads : Reads x) {disk : Disk} {a : α} (ran : x (Drive.quiet disk) = .ok a v') : v' = Drive.quiet disk := by
  obtain ⟨n, rfl⟩ := reads.left_ok ran
  rfl

theorem Reads.quiet_error (reads : Reads x) {disk : Disk} {e : Failure} (ran : x (Drive.quiet disk) = .error e v') :
    v' = Drive.quiet disk := by
  obtain ⟨n, rfl⟩ := reads.left_error ran
  rfl

theorem Reads.pure (a : α) : Reads (pure a) := fun _ => ⟨0, rfl⟩

theorem Reads.throw (e : Failure) : Reads (throw e : Drv α) := fun _ => ⟨0, rfl⟩

theorem Reads.bind (reads : Reads x) (rest : ∀ a, Reads (f a)) : Reads (x >>= f) := by
  intro v
  cases first : x v with
  | ok a v1 =>
    obtain ⟨n, rfl⟩ := reads.left_ok first
    obtain ⟨m, last⟩ := rest a (v.after n)
    refine ⟨m + n, ?_⟩
    rw [bind_ok first, last]
    unfold Drive.after
    simp only [Nat.add_assoc]
  | error e v1 =>
    rw [bind_error first]
    exact reads.left_error first

theorem readSector_reads (lsn : Nat) : Reads (Drive.readSector lsn) := by
  intro v
  unfold Drive.readSector
  cases v.answers 0 <;> exact ⟨1, rfl⟩

theorem readSector_ok {lsn : Nat} {bytes : Sector} (ran : Drive.readSector lsn v = .ok bytes v') : bytes = v.disk lsn := by
  unfold Drive.readSector at ran
  split at ran
  · cases ran
    rfl
  · cases ran

/-- A routine that writes a sector writes no other. -/
theorem writeSector_others {lsn other : Nat} (bytes : Sector) (v : Drive) (apart : other ≠ lsn) :
    (left (Drive.writeSector lsn bytes v)).disk other = v.disk other := by
  unfold Drive.writeSector
  split <;> exact Function.update_of_ne apart _ _

theorem writeSector_ok {lsn : Nat} {bytes : Sector} {a : Unit} (ran : Drive.writeSector lsn bytes v = .ok a v') :
    v'.disk = v.disk.put lsn bytes := by
  unfold Drive.writeSector at ran
  split at ran
  · cases ran
    rfl
  · cases ran

end Runs

/-! ### Rbf_ScanDir -/

/-- `Rbf_ScanEntryLoop`: the descriptor of the first of the `n` entries from `a0` on that has the name. -/
def scanEntries (sector : Sector) (a2 : Chars) : Nat → Nat → Option Nat
  | 0, _ => none
  | n + 1, a0 =>
    if sector (a0 + dirNm) = 0 then scanEntries sector a2 n (a0 + dirSz)
    else if compareFilename sector 28 (a0 + dirNm) a2 then some (sector.getU32 (a0 + dirFd))
    else scanEntries sector a2 n (a0 + dirSz)

/-- `Rbf_ScanSctLoop` over the `d3` sectors from `d4` on. -/
def scanSectors (a2 : Chars) : Nat → Nat → Drv (Option Nat)
  | 0, _ => pure none
  | d3 + 1, d4 => do
    let sector ← Drive.readSector d4
    match scanEntries sector a2 16 0 with
    | some d2 => pure (some d2)
    | none => scanSectors a2 d3 (d4 + 1)

/-- `Rbf_ScanSegLoop`: an entry of the segment list without sectors ends it. -/
def scanSegs (fd : Sector) (a2 : Chars) : Nat → Nat → Drv (Option Nat)
  | 0, _ => pure none
  | n + 1, a3 =>
    if fd.getU16 (a3 + fdslB) = 0 then pure none
    else do
      match ← scanSectors a2 (fd.getU16 (a3 + fdslB)) (getU24 fd a3) with
      | some d2 => pure (some d2)
      | none => scanSegs fd a2 n (a3 + fdslS)

/-- The bit of FD_ATT that makes a directory. -/
def isDirectory (fd : Sector) : Bool := (fd.getU8 fdAtt).testBit 7

/-- `Rbf_ScanDir`. -/
def scanDir (d2 : Nat) (a2 : Chars) : Drv Nat := do
  let fd ← Drive.readSector d2
  if isDirectory fd then
    match ← scanSegs fd a2 maxSegs fdSeg with
    | some d2 => pure d2
    | none => throw (.error errPnnf)
  else throw (.error errPnnf)

/-! ### Rbf_ParsePath -/

/-- What the caller brings: the path, the name of the device if the path descriptor has one, whether the execution
directory is meant, and the two directories of the process if there is one. -/
structure Caller where
  path : Chars
  device : Option (List UInt8)
  exec : Bool
  dirs : Option (Nat × Nat)

/-- `.tryMatchDev`. -/
def Caller.tryMatchDev (c : Caller) (a2 : Chars) : Option Chars := c.device.bind fun name => matchDevName name a2

/-- `Rbf_P_IsRel`: the directory a relative path starts in. -/
def Caller.relative (c : Caller) (root : Nat) : Nat :=
  match c.dirs with
  | none => root
  | some (data, exec) =>
    let d2 := if c.exec then exec else data
    if d2 = 0 then root else d2

/-- The directory a path starts in, and the path from there. -/
def Caller.origin (c : Caller) (root : Nat) : Nat × Chars :=
  let a2 := c.path.dropWhile (· == space)
  if cur a2 = slash then (root, (c.tryMatchDev a2.tail).getD a2.tail)
  else
    match c.tryMatchDev a2 with
    | some a2 => (root, a2)
    | none => (c.relative root, a2)

/-- `Rbf_P_SkipSlashes` and `Rbf_P_SkipSubSlash`. -/
def skipSlashes (a2 : Chars) : Chars := a2.dropWhile fun c => c == slash || c == space

/-- Where `Rbf_P_CheckSpecial` goes on. -/
inductive Special
  | dirSelf (a2 : Chars)
  | walk (a2 : Chars)
  | lost

/-- `Rbf_P_SkipSlashes` and `Rbf_P_CheckSpecial`, which passes "./" at the start. -/
def checkSpecial : Nat → Chars → Special
  | 0, _ => .lost
  | n + 1, a2 =>
    let a2 := skipSlashes a2
    if cur a2 = 0 ∨ cur a2 = carriageReturn ∨ cur a2 = atSign then .dirSelf a2
    else if cur a2 ≠ dot then .walk a2
    else if cur a2.tail = 0 ∨ cur a2.tail = carriageReturn ∨ cur a2.tail = space then .dirSelf a2
    else if cur a2.tail ≠ slash then .walk a2
    else checkSpecial n a2.tail

/-- What `Rbf_ParsePath` brings back: Z for a directory itself, the descriptor in `d2`, its directory in `d7` and the
last component. -/
structure Found where
  z : Bool
  d2 : Nat
  d7 : Nat
  a2 : Chars

/-- `Rbf_P_FinalComp`: with `create` every failure of the lookup stands for a new file. -/
def finalComp (create : Bool) (d7 : Nat) (a2 : Chars) : Drv Found := fun v =>
  match scanDir d7 a2 v with
  | .ok d2 v => .ok ⟨false, d2, d7, a2⟩ v
  | .error e v => if create then .ok ⟨false, 0, d7, a2⟩ v else .error e v

/-- What is done with the last component. -/
abbrev Final := Nat → Chars → Drv Found

/-- `Rbf_P_WalkComponents`. A component of no bytes is copied on and on. -/
def walkComponents (final : Final) : Nat → Nat → Chars → Drv Found
  | 0, _, _ => throw .lost
  | n + 1, d7, a2 =>
    match parseComponent a2 with
    | .error code => throw (.error code)
    | .ok c =>
      if c.length = 0 then throw .lost
      else if c.delim = slash then do
        let d2 ← scanDir d7 (c.start.take c.length)
        let a3 := skipSlashes c.next
        if cur a3 = 0 ∨ cur a3 = carriageReturn then pure ⟨true, d2, d2, c.start.take c.length⟩
        else walkComponents final n d2 a3
      else final d7 (c.start.take c.length)

/-- Where the path goes on from a directory. -/
def goOn (final : Final) (n d2 : Nat) : Special → Drv Found
  | .dirSelf a2 => pure ⟨true, d2, d2, a2⟩
  | .walk a2 => walkComponents final n d2 a2
  | .lost => throw .lost

/-- `Rbf_P_SkipSlashes` and what follows, from the start directory, with `n` rounds for each of the loops. -/
def resolveFrom (final : Final) (n d2 : Nat) (a2 : Chars) : Drv Found := goOn final n d2 (checkSpecial n a2)

/-- The way to the last component. A path takes no more rounds than it has bytes. -/
def parsePathWith (final : Final) (c : Caller) : Drv Found := do
  match parseLSN0 (← Drive.readSector 0) with
  | none => throw (.error errBmod)
  | some l => resolveFrom final (c.path.length + 1) (c.origin l.dir).1 (c.origin l.dir).2

/-- `Rbf_ParsePathCommon`. -/
def parsePathCommon (create : Bool) (c : Caller) : Drv Found := parsePathWith (finalComp create) c

def parsePath (c : Caller) : Drv Found := parsePathCommon false c

def parsePathCreate (c : Caller) : Drv Found := parsePathCommon true c

/-! ### A walk writes nothing -/

theorem scanSectors_reads (a2 : Chars) (d3 d4 : Nat) : Reads (scanSectors a2 d3 d4) := by
  induction d3 generalizing d4 with
  | zero => exact Reads.pure none
  | succ d3 ih =>
    refine (readSector_reads d4).bind (fun sector => ?_)
    cases scanEntries sector a2 16 0 with
    | some d2 => exact Reads.pure _
    | none => exact ih (d4 + 1)

theorem scanSegs_reads (fd : Sector) (a2 : Chars) (n a3 : Nat) : Reads (scanSegs fd a2 n a3) := by
  induction n generalizing a3 with
  | zero => exact Reads.pure none
  | succ n ih =>
    unfold scanSegs
    split
    · exact Reads.pure none
    · refine (scanSectors_reads a2 _ _).bind (fun found => ?_)
      cases found with
      | some d2 => exact Reads.pure _
      | none => exact ih (a3 + fdslS)

theorem scanDir_reads (d2 : Nat) (a2 : Chars) : Reads (scanDir d2 a2) := by
  refine (readSector_reads d2).bind (fun fd => ?_)
  split
  · refine (scanSegs_reads fd a2 _ _).bind (fun found => ?_)
    cases found with
    | some d2 => exact Reads.pure _
    | none => exact Reads.throw _
  · exact Reads.throw _

theorem finalComp_reads (create : Bool) (d7 : Nat) (a2 : Chars) : Reads (finalComp create d7 a2) := by
  intro v
  unfold finalComp
  cases found : scanDir d7 a2 v with
  | ok d2 v' => exact (scanDir_reads d7 a2).left_ok found
  | error e v' =>
    have same := (scanDir_reads d7 a2).left_error found
    cases create <;> exact same

section Walk
variable {final : Final} (reads : ∀ d7 a2, Reads (final d7 a2))
include reads

theorem walkComponents_reads (n d7 : Nat) (a2 : Chars) : Reads (walkComponents final n d7 a2) := by
  induction n generalizing d7 a2 with
  | zero => exact Reads.throw _
  | succ n ih =>
    unfold walkComponents
    cases parseComponent a2 with
    | error code => exact Reads.throw _
    | ok c =>
      dsimp only
      split
      · exact Reads.throw _
      split
      · refine (scanDir_reads _ _).bind (fun d2 => ?_)
        split
        · exact Reads.pure _
        · exact ih d2 _
      · exact reads _ _

theorem parsePathWith_reads (c : Caller) : Reads (parsePathWith final c) := by
  refine (readSector_reads 0).bind (fun head => ?_)
  cases parseLSN0 head with
  | none => exact Reads.throw _
  | some l =>
    show Reads (goOn final _ _ (checkSpecial _ _))
    cases checkSpecial (c.path.length + 1) (c.origin l.dir).2 with
    | dirSelf a2 => exact Reads.pure _
    | walk a2 => exact walkComponents_reads reads _ _ _
    | lost => exact Reads.throw _

end Walk

/-! ### Directories as tables -/

/-- The entries of a sector in use, with their names. -/
def entriesFrom (sector : Sector) : Nat → Nat → List (List UInt8 × Nat)
  | 0, _ => []
  | n + 1, a0 =>
    if sector (a0 + dirNm) = 0 then entriesFrom sector n (a0 + dirSz)
    else (entryName sector 28 (a0 + dirNm), sector.getU32 (a0 + dirFd)) :: entriesFrom sector n (a0 + dirSz)

/-- The sectors the segment entries from `a3` on name, up to the first without sectors. -/
def tableFrom (fd : Sector) : Nat → Nat → List Nat
  | 0, _ => []
  | n + 1, a3 =>
    if fd.getU16 (a3 + fdslB) = 0 then []
    else (List.range (fd.getU16 (a3 + fdslB))).map (getU24 fd a3 + ·) ++ tableFrom fd n (a3 + fdslS)

/-- The sectors of a directory. -/
def table (fd : Sector) : List Nat := tableFrom fd maxSegs fdSeg

/-- All entries of a directory. -/
def entries (disk : Disk) (d : Nat) : List (List UInt8 × Nat) := (table (disk d)).flatMap fun lsn => entriesFrom (disk lsn) 16 0

/-- The first entry of some that has the name. -/
def pick (list : List (List UInt8 × Nat)) (name : List UInt8) : Option Nat :=
  (list.find? fun entry => SameName entry.1 name).map Prod.snd

/-- The descriptor a name stands for in a directory; none in anything else. -/
def lookup (disk : Disk) (d : Nat) (name : List UInt8) : Option Nat :=
  if isDirectory (disk d) then pick (entries disk d) name else none

/-- A name as it stands in a path: nothing in it ends a name. -/
structure Plain (name : Chars) : Prop where
  short : name.length ≤ 28
  inner : ∀ c ∈ name, endsName c = false

section Scan
variable {disk : Disk} {name : Chars} (plain : Plain name)
include plain

theorem scanEntries_pick (sector : Sector) (n a0 : Nat) : scanEntries sector name n a0 = pick (entriesFrom sector n a0) name := by
  induction n generalizing a0 with
  | zero => rfl
  | succ n ih =>
    have compared : compareFilename sector 28 (a0 + dirNm) (name ++ []) = _ :=
      compareFilename_same sector plain.inner rfl plain.short
    rw [List.append_nil] at compared
    rw [scanEntries, entriesFrom, ih, compared]
    split
    · rfl
    · unfold pick
      rw [List.find?_cons]
      by_cases same : SameName (entryName sector 28 (a0 + dirNm)) name
      · simp [same]
      · simp [same]

omit plain in
theorem pick_append (l l' : List (List UInt8 × Nat)) (name : List UInt8) : pick (l ++ l') name = (pick l name).or (pick l' name) := by
  unfold pick
  rw [List.find?_append, Option.map_or]

theorem scanSectors_quiet (d3 d4 : Nat) : scanSectors name d3 d4 (Drive.quiet disk) =
    .ok (pick (((List.range d3).map (d4 + ·)).flatMap fun lsn => entriesFrom (disk lsn) 16 0) name) (Drive.quiet disk) := by
  induction d3 generalizing d4 with
  | zero => rfl
  | succ d3 ih =>
    have first : ((List.range (d3 + 1)).map (d4 + ·)).flatMap (fun lsn => entriesFrom (disk lsn) 16 0) =
        entriesFrom (disk d4) 16 0 ++ ((List.range d3).map (d4 + 1 + ·)).flatMap (fun lsn => entriesFrom (disk lsn) 16 0) := by
      rw [List.range_succ_eq_map, List.map_cons, List.flatMap_cons, List.map_map]
      simp only [Nat.add_zero, Function.comp_def, Nat.succ_eq_add_one, Nat.add_right_comm d4 1, Nat.add_assoc]
    rw [first, pick_append, ← scanEntries_pick plain]
    unfold scanSectors
    simp only [bind, EStateM.bind, Drive.readSector_quiet]
    cases scanEntries (disk d4) name 16 0 with
    | some d2 => rfl
    | none => exact ih (d4 + 1)

theorem scanSegs_quiet (fd : Sector) (n a3 : Nat) : scanSegs fd name n a3 (Drive.quiet disk) =
    .ok (pick ((tableFrom fd n a3).flatMap fun lsn => entriesFrom (disk lsn) 16 0) name) (Drive.quiet disk) := by
  induction n generalizing a3 with
  | zero => rfl
  | succ n ih =>
    unfold scanSegs tableFrom
    split
    · rfl
    · rw [List.flatMap_append, pick_append]
      simp only [bind, EStateM.bind, scanSectors_quiet plain]
      cases pick (((List.range (fd.getU16 (a3 + fdslB))).map (getU24 fd a3 + ·)).flatMap fun lsn => entriesFrom (disk lsn) 16 0)
        name with
      | some d2 => rfl
      | none => exact ih (a3 + fdslS)

/-- `Rbf_ScanDir` is a lookup. -/
theorem scanDir_quiet (d : Nat) : scanDir d name (Drive.quiet disk) =
    match lookup disk d name with
    | some d2 => .ok d2 (Drive.quiet disk)
    | none => .error (.error errPnnf) (Drive.quiet disk) := by
  unfold scanDir lookup
  rw [bind_ok (Drive.readSector_quiet disk d)]
  by_cases directory : isDirectory (disk d) = true
  · rw [if_pos directory, if_pos directory, bind_ok (scanSegs_quiet plain _ _ _)]
    unfold entries table
    cases pick ((tableFrom (disk d) maxSegs fdSeg).flatMap fun lsn => entriesFrom (disk lsn) 16 0) name <;> rfl
  · rw [if_neg directory, if_neg directory]
    rfl

end Scan

/-! ### Where a path leads -/

theorem scanEntries_mem {sector : Sector} {a2 : Chars} {n a0 d2 : Nat} (found : scanEntries sector a2 n a0 = some d2) :
    ∃ entry ∈ entriesFrom sector n a0, entry.2 = d2 := by
  induction n generalizing a0 with
  | zero => cases found
  | succ n ih =>
    unfold scanEntries at found
    unfold entriesFrom
    split at found
    · next unused =>
      rw [if_pos unused]
      exact ih found
    next used =>
    rw [if_neg used]
    split at found
    · cases found
      exact ⟨_, List.mem_cons_self, rfl⟩
    · obtain ⟨entry, member, same⟩ := ih found
      exact ⟨entry, List.mem_cons_of_mem _ member, same⟩

theorem scanSectors_mem {a2 : Chars} {d3 d4 d2 : Nat} {v v' : Drive} (ran : scanSectors a2 d3 d4 v = .ok (some d2) v') :
    ∃ lsn ∈ (List.range d3).map (d4 + ·), ∃ entry ∈ entriesFrom (v.disk lsn) 16 0, entry.2 = d2 := by
  induction d3 generalizing d4 v with
  | zero => cases ran
  | succ d3 ih =>
    obtain ⟨sector, v1, read, ran⟩ := ran_ok ran
    obtain rfl := readSector_ok read
    rw [List.range_succ_eq_map, List.map_cons, List.map_map]
    cases found : scanEntries (v.disk d4) a2 16 0 with
    | some d =>
      rw [found] at ran
      cases ran
      exact ⟨d4 + 0, List.mem_cons_self, scanEntries_mem found⟩
    | none =>
      rw [found] at ran
      obtain ⟨lsn, inside, entry, member, same⟩ := ih ran
      rw [(readSector_reads d4).ok read] at member
      obtain ⟨k, low, rfl⟩ := List.mem_map.mp inside
      refine ⟨d4 + 1 + k, List.mem_cons_of_mem _ (List.mem_map.mpr ⟨k, low, ?_⟩), entry, member, same⟩
      rw [Function.comp_apply]
      omega

theorem scanSegs_mem {fd : Sector} {a2 : Chars} {n a3 d2 : Nat} {v v' : Drive} (ran : scanSegs fd a2 n a3 v = .ok (some d2) v') :
    ∃ lsn ∈ tableFrom fd n a3, ∃ entry ∈ entriesFrom (v.disk lsn) 16 0, entry.2 = d2 := by
  induction n generalizing a3 v with
  | zero => cases ran
  | succ n ih =>
    unfold scanSegs at ran
    unfold tableFrom
    split at ran
    · cases ran
    next some =>
    rw [if_neg some]
    obtain ⟨found, v1, scan, ran⟩ := ran_ok ran
    cases found with
    | some d =>
      cases ran
      obtain ⟨lsn, inside, rest⟩ := scanSectors_mem scan
      exact ⟨lsn, List.mem_append_left _ inside, rest⟩
    | none =>
      obtain ⟨lsn, inside, rest⟩ := ih ran
      rw [(scanSectors_reads _ _ _).ok scan] at rest
      exact ⟨lsn, List.mem_append_right _ inside, rest⟩

/-- A lookup that succeeds is one in a directory, and leads where one of its entries does. -/
theorem scanDir_mem {d d2 : Nat} {a2 : Chars} {v v' : Drive} (ran : scanDir d a2 v = .ok d2 v') :
    isDirectory (v.disk d) = true ∧ ∃ entry ∈ entries v.disk d, entry.2 = d2 := by
  obtain ⟨fd, v1, read, ran⟩ := ran_ok ran
  obtain rfl := readSector_ok read
  split at ran
  · next directory =>
    obtain ⟨found, v2, scan, ran⟩ := ran_ok ran
    cases found with
    | none => cases ran
    | some d =>
      cases ran
      obtain ⟨lsn, inside, entry, member, same⟩ := scanSegs_mem scan
      rw [(readSector_reads d).ok read] at member
      exact ⟨directory, entry, List.mem_flatMap.mpr ⟨lsn, inside, member⟩, same⟩
  · cases ran

section Good
variable {disk : Disk} {live : Nat → Prop}
  (kept : ∀ d, live d → isDirectory (disk d) = true → ∀ entry ∈ entries disk d, live entry.2)
include kept

theorem scanDir_live {d d2 : Nat} {a2 : Chars} {v v' : Drive} (same : v.disk = disk) (start : live d)
    (ran : scanDir d a2 v = .ok d2 v') : live d2 := by
  obtain ⟨directory, entry, member, rfl⟩ := scanDir_mem ran
  rw [same] at directory member
  exact kept d start directory entry member

variable (good : Found → Prop) {final : Final} (self : ∀ d a2, live d → good ⟨true, d, d, a2⟩)
  (last : ∀ d a2 v f v', v.disk = disk → live d → final d a2 v = .ok f v' → good f)
include self last

/-- What holds of every file and of what the last component makes of one holds where a walk ends. -/
theorem walkComponents_good {n d7 : Nat} {a2 : Chars} {v v' : Drive} {f : Found} (same : v.disk = disk) (start : live d7)
    (ran : walkComponents final n d7 a2 v = .ok f v') : good f := by
  induction n generalizing d7 a2 v with
  | zero => cases ran
  | succ n ih =>
    unfold walkComponents at ran
    cases parsed : parseComponent a2 with
    | error code =>
      rw [parsed] at ran
      cases ran
    | ok c =>
      rw [parsed] at ran
      dsimp only at ran
      split at ran
      · cases ran
      split at ran
      · obtain ⟨d2, v1, scan, ran⟩ := ran_ok ran
        have next := scanDir_live kept same start scan
        split at ran
        · cases ran
          exact self d2 _ next
        · exact ih (((scanDir_reads _ _).ok scan).trans same) next ran
      · exact last d7 _ v f v' same start ran

theorem parsePathWith_good {c : Caller} {v v' : Drive} {f : Found} (same : v.disk = disk)
    (start : ∀ l, parseLSN0 (disk 0) = some l → live (c.origin l.dir).1) (ran : parsePathWith final c v = .ok f v') :
    good f := by
  obtain ⟨head, v1, read, ran⟩ := ran_ok ran
  obtain rfl := readSector_ok read
  rw [same] at ran
  cases valid : parseLSN0 (disk 0) with
  | none =>
    rw [valid] at ran
    cases ran
  | some l =>
    rw [valid] at ran
    replace ran : goOn final (c.path.length + 1) (c.origin l.dir).1
        (checkSpecial (c.path.length + 1) (c.origin l.dir).2) v1 = .ok f v' := ran
    cases special : checkSpecial (c.path.length + 1) (c.origin l.dir).2 with
    | dirSelf a2 =>
      rw [special] at ran
      cases ran
      exact self _ _ (start l valid)
    | walk a2 =>
      rw [special] at ran
      exact walkComponents_good kept good self last (((readSector_reads 0).ok read).trans same) (start l valid) ran
    | lost =>
      rw [special] at ran
      cases ran

end Good

end Q9OS.Rbf

import Mathlib.Tactic
import Q9OS.Rbf.Create

/-!
# The directory of a new name

The path to a new name ends with a lookup that is expected to fail. Why it
failed is not asked: a name that is absent, a parent that is no directory and a
sector that cannot be read are one.
-/

namespace Q9OS.Rbf

/-! ### The way to the last component -/

/-- The root directory, the directory a path starts in, and the files that the entries of directories lead to. -/
inductive OnVolume (c : Caller) (disk : Disk) : Nat → Prop
  | root {l : Lsn0} (valid : parseLSN0 (disk 0) = some l) : OnVolume c disk l.dir
  | start {l : Lsn0} (valid : parseLSN0 (disk 0) = some l) : OnVolume c disk (c.origin l.dir).1
  | entry {d : Nat} (file : OnVolume c disk d) (directory : isDirectory (disk d) = true) {entry : List UInt8 × Nat}
      (member : entry ∈ entries disk d) : OnVolume c disk entry.2

/-- The clusters that a call takes are in no file, nor is the bitmap. -/
def Spare (kind : Kind) (c : Caller) (disk : Disk) : Prop :=
  ∀ file, OnVolume c disk file → ∀ lsn ∈ file :: table (disk file), ¬ Handed kind.clusters disk lsn

theorem parsePathCreate_reads (c : Caller) : Reads (parsePathCreate c) :=
  parsePathWith_reads (finalComp_reads true) c

/-- A call without a slot fails as the search for it does. -/
theorem createCommon_late {kind : Kind} {c : Caller} {v v1 v2 v3 : Drive} {f : Found} {d7 : Nat} {e : Failure}
    (path : parsePathCreate c v = .ok f v1) (new : f.z = false) (made : kind.make f.d7 v1 = .ok d7 v2)
    (slot : freeSlot f.d7 v2 = .error e v3) : createCommon kind c v = .error e v3 := by
  refine bind_error ?_
  unfold findPlace
  rw [bind_ok path, if_neg (by simp [new]), bind_ok made, bind_error slot]

/-- A root directory in sector 2 with a file in sector 4, which has one sector. Clusters from 7 on are free. -/
def fileTree : Disk
  | 0 => fun k => if k = 2 then 9 else if k = 5 then 2 else if k = 7 then 1 else if k = 10 then 2 else 0
  | 1 => fun k => if k = 0 then 0xFE else 0
  | 2 => fun k => if k = 0 then 0xBF else if k = 18 then 3 else if k = 20 then 1 else 0
  | 3 => fun k => if k = 0 then 0x64 else if k = 1 then 0xE4 else if k = 31 then 4 else 0
  | 4 => fun k => if k = 0 then 3 else if k = 18 then 5 else if k = 20 then 1 else 0
  | _ => fun _ => 0

theorem fileTree_kept (d : Nat) (file : d = 2 ∨ d = 4) (directory : isDirectory (fileTree d) = true) :
    ∀ entry ∈ entries fileTree d, entry.2 = 2 ∨ entry.2 = 4 := by
  rcases file with rfl | rfl
  · have all : entries fileTree 2 = [([0x64, 0x64], 4)] := by decide
    rw [all]
    simp
  · exact absurd directory (by decide)

/-- A process that makes "x" in the root directory. -/
def inRoot : Caller := ⟨[0x78], none, false, none⟩

/-- A process that makes "dd/x". -/
def inFile : Caller := ⟨[0x64, 0x64, slash, 0x78], none, false, none⟩

/-- The place for a new entry, as numbers: the file, the sector and the offset. -/
def placed (r : EStateM.Result Failure Drive Place) : Option (Nat × Nat × Nat) :=
  match r with
  | .ok p _ => some (p.d3, p.slot.lsn, p.slot.off)
  | .error _ _ => none

/-- Where the way to the last component stops, as the number of the file and the name. -/
def reached (r : EStateM.Result Failure Drive Found) : Option (Nat × Chars) :=
  match r with
  | .ok f _ => some (f.d7, f.a2)
  | .error _ _ => none

end Q9OS.Rbf

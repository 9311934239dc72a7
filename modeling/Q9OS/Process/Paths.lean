import Mathlib.Tactic
import Q9OS.Ioman.BlockTable
import Q9OS.Names.Pathname
import Q9OS.Process.End

/-!
# Native paths

The native part of `q9kernel_iopath.c`. I$Open takes a descriptor from the path
pool and names it in P$Path of its caller, I$Close and the end of a process give
it back with its last user. The free list is linked through the word that holds
the number of a used descriptor.
-/

namespace Q9OS

namespace PathPool

def num : Nat := 0x00
def modeOff : Nat := 0x02
def kindOff : Nat := 0x06
def pos : Nat := 0x08
def objectOff : Nat := 0x0C

def eBmode : Nat := 0xCB

/-- A descriptor from the free list, 0 when there is none. -/
def pathPoolAlloc (t : PathPool) : Nat × PathPool :=
  if t.free = 0 then (0, t) else (t.free, { t with free := t.descs.get32 t.free 0 })

def pathPoolFree (t : PathPool) (desc : Nat) : PathPool :=
  { t with descs := t.descs.set32 desc 0 t.free, free := desc }

/-- F$AllPD takes descriptors from the same pool in the same way. -/
theorem pathPoolAlloc_blockTable (t : PathPool) (addr : Nat) (table : Mem) :
    Pd.BlockTable.pathPoolAlloc ⟨addr, table, t.free, t.descs⟩ =
      (t.pathPoolAlloc.1, ⟨addr, table, t.pathPoolAlloc.2.free, t.pathPoolAlloc.2.descs⟩) := by
  unfold Pd.BlockTable.pathPoolAlloc pathPoolAlloc
  by_cases none : t.free = 0
  · rw [if_pos none, if_pos none]
  · rw [if_neg none, if_neg none]

theorem pathPoolFree_blockTable (t : PathPool) (addr : Nat) (table : Mem) (desc : Nat) :
    Pd.BlockTable.pathPoolFree ⟨addr, table, t.free, t.descs⟩ desc =
      ⟨addr, table, (t.pathPoolFree desc).free, (t.pathPoolFree desc).descs⟩ := rfl

/-- A descriptor of an opened path, with one user. -/
def enter (t : PathPool) (slot number kind object mode : Nat) : PathPool :=
  let h := t.descs.set16 slot num number
  let h := h.set16 slot kindOff kind
  let h := h.set16 slot objectOff object
  let h := h.set16 slot ref 1
  let h := h.set32 slot pos 0
  { t with descs := h.set8 slot modeOff (if mode % 256 = 0 then 3 else mode) }

end PathPool

/-! ### Native objects -/

namespace NativePath

inductive Kind where
  | unresolved
  | console
  | filesystem
  | directory
  deriving DecidableEq

inductive Object where
  | none
  | term
  | dd
  | sys
  | motd
  deriving DecidableEq

def Kind.code : Kind → Nat
  | unresolved => 0
  | console => 1
  | filesystem => 2
  | directory => 3

def Object.code : Object → Nat
  | none => 0
  | term => 1
  | dd => 2
  | sys => 3
  | motd => 4

/-- Whether the NUL-terminated text at `pathnamePtr` is the expected one. -/
def nativePathEquals (m : Mem) (pathnamePtr : Nat) (expected : List UInt8) : Bool :=
  pathnamePtr ≠ 0 && m.bytes pathnamePtr expected.length == expected && m (pathnamePtr + expected.length) == 0

/-- "/dd" -/
def ddName : List UInt8 := [0x2F, 0x64, 0x64]

/-- "/dd/SYS" -/
def sysName : List UInt8 := ddName ++ [0x2F, 0x53, 0x59, 0x53]

/-- "/dd/SYS/motd" -/
def motdName : List UInt8 := sysName ++ [0x2F, 0x6D, 0x6F, 0x74, 0x64]

/-- "/term" -/
def termName : List UInt8 := [0x2F, 0x74, 0x65, 0x72, 0x6D]

/-- The object behind a valid path; bit 7 of the mode asks for a directory. -/
def nativeObject (m : Mem) (pathnamePtr mode : Nat) : Except Nat (Kind × Object) :=
  if mode.testBit 7 then
    if nativePathEquals m pathnamePtr ddName then .ok (.directory, .dd)
    else if nativePathEquals m pathnamePtr sysName then .ok (.directory, .sys)
    else .error eMnf
  else if nativePathEquals m pathnamePtr termName then .ok (.console, .term)
  else if nativePathEquals m pathnamePtr motdName then .ok (.filesystem, .motd)
  else .error eMnf

/-- The object of a path, with the address behind the path when it is valid. -/
def nativeClassifyPathname (m : Mem) (pathnamePtr mode : Nat) : Except Nat (Kind × Object) × Nat :=
  match Pathname.nativeValidatePathname m pathnamePtr with
  | .error code => (.error code, pathnamePtr)
  | .ok past => (nativeObject m pathnamePtr mode, past)

end NativePath

namespace Kernel

open PathPool NativePath
open Pd (ePthFul eBpNum)

/-- The descriptor number under a path number of a process. -/
def pathEntry (k : Kernel) (desc i : Nat) : Nat := k.desc.get16 desc (Desc.path + i * 2)

def setPathEntry (k : Kernel) (desc i v : Nat) : Kernel := { k with desc := k.desc.set16 desc (Desc.path + i * 2) v }

/-- The lowest path number from 3 on that a process does not use. -/
def freePathIndex (k : Kernel) (desc : Nat) : Option Nat :=
  (List.range' 3 (Desc.pathCount - 3)).find? fun i => k.pathEntry desc i = 0

/-- The part of I$Open behind the name. -/
def openObject (k : Kernel) (mode : Nat) (kind : Kind) (object : Object) : Except Nat Nat × Kernel :=
  match k.paths.pathPoolAlloc with
  | (slot, paths) =>
    if slot = 0 then (.error ePthFul, k)
    else
      -- the number in the pool, not the one the caller gets
      let descriptorNum := (slot - paths.base) / descSize + 3
      let opened := { k with paths := paths.enter slot descriptorNum kind.code object.code mode }
      if k.proc = 0 then (.ok descriptorNum, opened)
      else
        match k.freePathIndex k.proc with
        | none => (.error ePthFul, { k with paths := paths.pathPoolFree slot })
        | some pathIndex => (.ok pathIndex, opened.setPathEntry k.proc pathIndex descriptorNum)

/-- I$Open: the path number and the address behind the path. -/
def procIOpen (k : Kernel) (mode pathnamePtr : Nat) : Except Nat Nat × Nat × Kernel :=
  if mode &&& 0xFFFFFF28 ≠ 0 then (.error eBmode, pathnamePtr, k)
  else
    match nativeClassifyPathname k.ram pathnamePtr mode with
    | (.error code, past) => (.error code, past, k)
    | (.ok found, past) =>
      match k.openObject mode found.1 found.2 with
      | (result, k) => (result, past, k)

/-- The descriptor of a path number of the running process. -/
def procPathDesc (k : Kernel) (pathNum : Nat) : Except Nat Nat :=
  if pathNum < 3 ∨ pathNum ≥ Desc.pathCount then .error eBpNum
  else if k.proc = 0 then .error eBpNum
  else
    let descriptorNum := k.pathEntry k.proc pathNum
    if descriptorNum < 3 then .error eBpNum
    else if k.paths.base = 0 then .error eBpNum
    else
      let pathDesc := k.paths.descAddr descriptorNum
      -- the descriptor repeats its number
      if k.paths.descs.get16 pathDesc num ≠ descriptorNum then .error eBpNum else .ok pathDesc

/-- I$Close of a native path. -/
def procNativeClose (k : Kernel) (pathNum : Nat) : Except Nat Unit × Kernel :=
  match k.procPathDesc pathNum with
  | .error code => (.error code, k)
  | .ok pathDesc =>
    if k.proc = 0 then (.error eBpNum, k)
    else
      let descriptorNum := k.paths.descs.get16 pathDesc num
      let refs := k.paths.descs.get16 pathDesc ref
      if descriptorNum < 3 ∨ refs = 0 then (.error eBpNum, k)
      else
        let k := k.setPathEntry k.proc pathNum 0
        let paths := { k.paths with descs := k.paths.descs.set16 pathDesc ref (refs - 1) }
        (.ok (), { k with paths := if refs - 1 = 0 then paths.pathPoolFree pathDesc else paths })

end Kernel

end Q9OS

import Mathlib.Tactic
import Q9OS.Rbf.Parent

/-!
# Opening and deleting files

`Rbf_Open` and `Rbf_Delete`. A delete goes on where the driver fails, and
leaves the bitmap alone.
-/

namespace Q9OS.Rbf

def errBmode : Nat := 0xD6

/-! ### Rbf_Open -/

/-- What `Rbf_Open` leaves in the path descriptor. -/
structure Opened where
  fd : Nat
  dfd : Nat
  siz : Nat
  att : Nat

/-- `Rbf_Open`. PD_MOD must ask for a directory where the path leads to one, and for a file else. -/
def openOn (mod : Nat) (c : Caller) : Drv Opened := do
  let f ← parsePath c
  let fd ← Drive.readSector f.d2
  if (f.z || isDirectory fd) = mod.testBit 7 then pure ⟨f.d2, f.d7, fd.getU32 fdSiz, fd.getU8 fdAtt⟩
  else throw (.error errBmode)

/-! ### Rbf_Delete -/

/-- A routine whose failure is not looked at. -/
def Drive.attempt {α : Type} (x : Drv α) : Drv (Option α) := fun v =>
  match x v with
  | .ok a v => .ok (some a) v
  | .error _ v => .ok none v

/-- `.delScanLoop`: the first of `n` entries from `a0` on with the descriptor `fd`, whether it is in use or not. -/
def entryOf (fd : Nat) (sector : Sector) : Nat → Nat → Option Nat
  | 0, _ => none
  | n + 1, a0 => if sector.getU32 (a0 + dirFd) = fd then some a0 else entryOf fd sector n (a0 + dirSz)

/-- The sector of a slot without its entry. -/
def Slot.cleared (slot : Slot) : Sector := (slot.bytes.setU8 (slot.off + dirNm) 0).setU32 (slot.off + dirFd) 0

/-- The entry for the descriptor in its directory. A sector that cannot be read ends the search. -/
def findEntry (fd dfd : Nat) : Drv (Option Slot) := do
  let dir ← Drive.readSector dfd
  slotSegs (entryOf fd · 16 0) dir maxSegs fdSeg 0

/-- The entry is cleared if it is found. -/
def removeEntry (fd dfd : Nat) : Drv Unit := do
  match ← Drive.attempt (findEntry fd dfd) with
  | some (some slot) => do
    let _ ← Drive.attempt (Drive.writeSector slot.lsn slot.cleared)
    pure ()
  | _ => pure ()

/-- `Rbf_Delete`. The segments stay taken: only the descriptor is made void. -/
def delete (mod : Nat) (c : Caller) : Drv Unit := do
  let p ← openOn mod c
  let fd ← Drive.readSector p.fd
  let _ ← Drive.attempt (Drive.writeSector p.fd ((fd.setU8 fdAtt 0).setU32 fdSiz 0))
  if p.dfd = 0 then pure () else removeEntry p.fd p.dfd

/-! ### What a delete changes -/

theorem attempt_ok {α : Type} {x : Drv α} {r : Option α} {v v' : Drive} (ran : Drive.attempt x v = .ok r v') :
    left (x v) = v' ∧ ∀ a, r = some a → x v = .ok a v' := by
  unfold Drive.attempt at ran
  split at ran
  · cases ran
    next ok => exact ⟨by rw [ok]; rfl, fun a same => by cases same; exact ok⟩
  · cases ran
    next error => exact ⟨by rw [error]; rfl, fun a same => by cases same⟩

theorem findEntry_reads (fd dfd : Nat) : Reads (findEntry fd dfd) :=
  (readSector_reads dfd).bind (fun dir => slotSegs_reads _ dir _ _ _)

theorem openOn_reads (mod : Nat) (c : Caller) : Reads (openOn mod c) := by
  refine (parsePathWith_reads (finalComp_reads false) c).bind (fun f => ?_)
  refine (readSector_reads f.d2).bind (fun fd => ?_)
  split
  · exact Reads.pure _
  · exact Reads.throw _

theorem findEntry_lsn {fd dfd : Nat} {v v' : Drive} {slot : Slot} (ran : findEntry fd dfd v = .ok (some slot) v') :
    slot.lsn ∈ table (v.disk dfd) := by
  obtain ⟨dir, v1, read, ran⟩ := ran_ok ran
  rw [← readSector_ok read]
  exact slotSegs_lsn ran

theorem removeEntry_others {fd dfd : Nat} {v v' : Drive} {r : Unit} (ran : removeEntry fd dfd v = .ok r v') {lsn : Nat}
    (apart : lsn ∉ table (v.disk dfd)) : v'.disk lsn = v.disk lsn := by
  obtain ⟨found, v1, search, ran⟩ := ran_ok ran
  obtain ⟨last, ended⟩ := attempt_ok search
  have same : v1.disk = v.disk := by
    obtain ⟨n, same⟩ := findEntry_reads fd dfd v
    rw [← last, same]
    rfl
  rw [← same]
  match found, ended, ran with
  | none, _, ran => cases ran; rfl
  | some none, _, ran => cases ran; rfl
  | some (some slot), ended, ran =>
    obtain ⟨_, v2, write, ran⟩ := ran_ok ran
    cases ran
    obtain ⟨last, _⟩ := attempt_ok write
    rw [← last]
    refine writeSector_others _ v1 (fun here => apart ?_)
    rw [here]
    exact findEntry_lsn (ended _ rfl)

/-- The attributes and the size stand in front of the segments. -/
theorem table_head (m : Sector) (att siz : Nat) : table ((m.setU8 fdAtt att).setU32 fdSiz siz) = table m := by
  have byte (a : Nat) (behind : fdSeg ≤ a) : ((m.setU8 fdAtt att).setU32 fdSiz siz).getU8 a = m.getU8 a := by
    unfold fdSeg at behind
    unfold fdAtt fdSiz
    rw [Mem.getU8_setU32_apart _ _ (by omega), Mem.getU8_setU8_apart _ _ (by omega)]
  have word (a : Nat) (behind : fdSeg ≤ a) : ((m.setU8 fdAtt att).setU32 fdSiz siz).getU16 a = m.getU16 a := by
    unfold fdSeg at behind
    unfold fdAtt fdSiz
    rw [Mem.getU16_setU32_apart _ _ (by omega), Mem.getU16_setU8_apart _ _ (by omega)]
  have same (n a3 : Nat) (behind : fdSeg ≤ a3) : tableFrom ((m.setU8 fdAtt att).setU32 fdSiz siz) n a3 = tableFrom m n a3 := by
    induction n generalizing a3 with
    | zero => rfl
    | succ n ih =>
      unfold tableFrom getU24
      rw [word _ (by omega), word _ (by omega), byte _ behind, ih _ (by omega)]
  exact same maxSegs fdSeg (Nat.le_refl _)

/-- On a drive that never fails a delete changes the descriptor and a sector of the directory, and no other. -/
theorem delete_others {mod : Nat} {c : Caller} {disk : Disk} {v1 v' : Drive} {p : Opened} {r : Unit}
    (opened : openOn mod c (Drive.quiet disk) = .ok p v1)
    (ran : delete mod c (Drive.quiet disk) = .ok r v') {lsn : Nat} (head : lsn ≠ p.fd) (apart : lsn ∉ table (disk p.dfd)) :
    v'.disk lsn = disk lsn := by
  obtain rfl := (openOn_reads mod c).quiet opened
  unfold delete at ran
  rw [bind_ok opened, bind_ok (Drive.readSector_quiet disk p.fd)] at ran
  obtain ⟨_, v2, write, ran⟩ := ran_ok ran
  cases write
  have other : disk.put p.fd (((disk p.fd).setU8 fdAtt 0).setU32 fdSiz 0) lsn = disk lsn := Function.update_of_ne head _ _
  by_cases none : p.dfd = 0
  · rw [if_pos none] at ran
    cases ran
    exact other
  rw [if_neg none] at ran
  refine (removeEntry_others ran ?_).trans other
  show lsn ∉ table (disk.put p.fd _ p.dfd)
  unfold Disk.put
  by_cases self : p.dfd = p.fd
  · rw [self, Function.update_self, table_head, ← self]
    exact apart
  · rw [Function.update_of_ne self]
    exact apart

/-! ### Where a path leads -/

/-- A path leads from file to file. -/
theorem parsePath_live {disk : Disk} {live : Nat → Prop}
    (kept : ∀ d, live d → isDirectory (disk d) = true → ∀ entry ∈ entries disk d, live entry.2)
    {c : Caller} {v v' : Drive} {f : Found} {l : Lsn0} (same : v.disk = disk) (valid : parseLSN0 (disk 0) = some l)
    (start : live (c.origin l.dir).1) (ran : parsePath c v = .ok f v') : live f.d2 ∧ live f.d7 := by
  have first : ∀ l, parseLSN0 (disk 0) = some l → live (c.origin l.dir).1 := by
    intro l' valid'
    rw [valid] at valid'
    cases valid'
    exact start
  refine parsePathWith_good kept (fun f => live f.d2 ∧ live f.d7) (fun d a2 alive => ⟨alive, alive⟩) ?_ same first ran
  intro d a2 v f v' same alive last
  unfold finalComp at last
  split at last
  · next scan =>
    cases last
    exact ⟨scanDir_live kept same alive scan, alive⟩
  · rw [if_neg (by decide)] at last
    cases last

end Q9OS.Rbf

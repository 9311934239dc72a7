import Q9OS.Pipe.Io

/-!
# Opening and closing pipes

`pipe_open.a` with the device lock and the directory search of `pipe_sub.a`,
on the memory the path descriptors, the device table and the static storage of
the device lie in. Kernel services are answers that come with the call.
-/

namespace Q9OS.Pipe

def errBmode : Nat := 0xD6
def errBpnam : Nat := 0xD7
def errPnnf : Nat := 0xD8
def errCerr : Nat := 0xDA
def errShare : Nat := 0xFD

def pipeDefSz : Nat := 90
def pipeMaxNam : Nat := 28

/-! ### Offsets -/

def pdMod : Nat := 2
def pdDev : Nat := 4
def pdBuf : Nat := 14
def pdCount : Nat := 26
def pdRdPtr : Nat := 44
def pdRdByt : Nat := 48
def pdRdWat : Nat := 56
def pdRdOpn : Nat := 58
def pdWrOpn : Nat := 60
def pdFlags : Nat := 62
def pdWrPtr : Nat := 68
def pdWrSpc : Nat := 72
def pdWrWat : Nat := 80
def pdWrWat2 : Nat := 84
def pdXmask : Nat := 92
def pdBufEnd : Nat := 96
def pdHead : Nat := 100
def pdPrev : Nat := 104
def pdNext : Nat := 108
def pdDel : Nat := 112
def pdPerm : Nat := 113
def pdOwn : Nat := 114
def pdGrp : Nat := 115
def pdRdSig : Nat := 118
def pdWrSig : Nat := 122
def pdErr : Nat := 126
def pdBufSz : Nat := 130
def pdEmbBuf : Nat := 134
def pdName : Nat := 224
def pdSelf : Nat := 252

def dtStat : Nat := 4
def vBusy : Nat := 6
def vWake : Nat := 8

/-- Where the static storage keeps the head of its list of named pipes. -/
def vPipes : Nat := 104

/-! ### Calls and answers -/

/-- `F$PrsNam`: the character behind the name, the length and the address behind it. -/
structure Prs where
  d0 : Nat
  d1 : Nat
  a1 : Nat

/-- The registers of one call and the answers of the kernel it meets: names are parsed by `prsNam`,
`grant` answers `F$SRqMem`. `d3` is what the caller left in the register. -/
structure Req where
  a1 : Nat
  pid : Nat
  user : Nat
  name : Nat
  size : Nat
  perm : Nat
  d3 : Nat
  prsNam : Mem → Nat → Except Nat Prs
  grant : Except Nat (Nat × Nat)

/-- What a call leaves: memory, its error, the signals sent and the blocks given back. -/
structure Left where
  mem : Mem
  err : Option Nat
  sent : List (Nat × Nat)
  freed : List (Nat × Nat)

/-! ### pipe_sub.a -/

/-- `Pipe_LockDev`. With the lock held by another process the loop sleeps and tries again; no
result is the case that it goes on doing so. -/
def lockDev (m : Mem) (a2 pid : Nat) : Option Mem :=
  if m.getU16 (a2 + vBusy) = 0 ∨ m.getU16 (a2 + vBusy) = pid then some (m.setU16 (a2 + vBusy) pid) else none

/-- `Pipe_UnlockDev`: frees the lock and wakes whom `V_WAKE` names. -/
def unlockDev (m : Mem) (a2 : Nat) : Mem × List (Nat × Nat) :=
  let m := m.setU16 (a2 + vBusy) 0
  if m.getU16 (a2 + vWake) = 0 then (m, []) else (m.setU16 (a2 + vWake) 0, [(m.getU16 (a2 + vWake), 1)])

/-- `Pipe_PrsNamOne`. -/
def prsNamOne (q : Req) (m : Mem) (a0 : Nat) : Except Nat Prs :=
  match q.prsNam m a0 with
  | .error code => .error code
  | .ok p => if p.d0 = 0 ∨ p.d0 = 0x2F ∨ p.d0 = 0x0D ∨ p.d0 = 0x20 then .ok p else .error errBpnam

/-- `Pipe_ParseName`: where the name of the pipe is and its length, 0 for an anonymous pipe. -/
def parseName (q : Req) (m : Mem) (a0 : Nat) : Except Nat (Nat × Nat) :=
  match prsNamOne q m a0 with
  | .error code => .error code
  | .ok p =>
    if p.d0 ≠ 0x2F then .ok (a0, 0)
    else
      match prsNamOne q m (p.a1 + 1) with
      | .error code => .error code
      | .ok p' =>
        if p'.d0 = 0x2F ∨ pipeMaxNam < p'.d1 then .error errBpnam
        else if p'.d1 = 0 then .ok (p.a1 + 1, 0)
        else .ok (p.a1 + 1, p'.d1)

/-- Upper case, as the compare loop folds. -/
def fold (c : Nat) : Nat := if 0x61 ≤ c ∧ c ≤ 0x7A then c - 0x20 else c

/-- `Pipe_CmpLoop` with `n + 1` characters to go: whether they all agree, and where `a2` is left. -/
def cmpLoop (m : Mem) (a0 a2 : Nat) : Nat → Bool × Nat
  | 0 => (fold (m.getU8 a0) == fold (m.getU8 a2), a2 + 1)
  | n + 1 => if fold (m.getU8 a0) = fold (m.getU8 a2) then cmpLoop m (a0 + 1) (a2 + 1) n else (false, a2 + 1)

/-- How the search ends: at a pipe, or with `a2` wherever the last comparison left it. -/
inductive Found
  | pipe (a1 : Nat)
  | nothing (a2 : Nat)
  deriving DecidableEq, Repr

/-- `Pipe_FindLoop` from the entry `a1` on; no result if the chain does not end within `fuel`. -/
def findLoop (m : Mem) (name len : Nat) : Nat → Nat → Nat → Option Found
  | 0, _, _ => none
  | fuel + 1, a1, a2 =>
    if a1 = 0 then some (.nothing a2)
    else if a1 = a2 then some (.nothing a2)
    else
      let cmp := cmpLoop m name (a1 + pdName) ((len + 65535) % 65536)
      if cmp.1 = true ∧ (m.getU8 cmp.2 = 0 ∨ 0x80 ≤ m.getU8 cmp.2) then some (.pipe a1)
      else findLoop m name len fuel (m.getU32 (a1 + pdNext)) cmp.2

/-- Every chain without a cycle is shorter: there are not more addresses. -/
def chainBound : Nat := 4294967296

/-- `Pipe_FindNamed`. -/
def findNamed (m : Mem) (name len stat : Nat) : Option Found :=
  findLoop m name len chainBound (m.getU32 (stat + vPipes)) stat

/-! ### Pipe_CopyMem inside one memory -/

def moveBytes (m : Mem) (a0 a2 : Nat) : Nat → Mem × Nat × Nat
  | 0 => (m, a0, a2)
  | n + 1 => moveBytes (m.setU8 a2 (m.getU8 a0)) (a0 + 1) (a2 + 1) n

def moveLongs (m : Mem) (a0 a2 : Nat) : Nat → Mem × Nat × Nat
  | 0 => (m, a0, a2)
  | n + 1 => moveLongs (m.setU32 a2 (m.getU32 a0)) (a0 + 4) (a2 + 4) n

def moveWords (m : Mem) (a0 a2 d1 : Nat) : Mem × Nat × Nat :=
  if d1 < 2 then moveBytes m a0 a2 d1
  else moveBytes (m.setU16 a2 (m.getU16 a0)) (a0 + 2) (a2 + 2) (d1 - 2)

/-- From `Pipe_CopyChkDst` on. -/
def moveAligned (m : Mem) (a0 a2 d1 : Nat) : Mem × Nat × Nat :=
  if a2 % 2 = 1 then moveBytes m a0 a2 d1
  else
    let (m, a0, a2) := moveLongs m a0 a2 (d1 / 4)
    moveWords m a0 a2 (d1 % 4)

/-- `Pipe_CopyMem` where source and target may overlap. -/
def moveMem (m : Mem) (a0 a2 d1 : Nat) : Mem × Nat × Nat :=
  if d1 = 0 ∨ 0x80000000 ≤ d1 then (m, a0, a2)
  else if d1 < 12 then moveBytes m a0 a2 d1
  else if a0 % 2 = 1 then moveAligned (m.setU8 a2 (m.getU8 a0)) (a0 + 1) (a2 + 1) (d1 - 1)
  else moveAligned m a0 a2 d1

/-! ### Pipe_Create -/

/-- `DT_STAT` of the path's device. -/
def statOf (m : Mem) (a1 : Nat) : Nat := m.getU32 (m.getU32 (a1 + pdDev) + dtStat)

/-- The two counts as `Pipe_Create` starts them. -/
def startCounts (m : Mem) (a1 : Nat) : Mem :=
  let mode := m.getU8 (a1 + pdMod)
  let m := (m.setU16 (a1 + pdRdOpn) 0).setU16 (a1 + pdWrOpn) 0
  let m := if mode.testBit 0 then m.setU16 (a1 + pdRdOpn) 1 else m
  if mode.testBit 1 then m.setU16 (a1 + pdWrOpn) 1 else m

/-- `Pipe_CreateInitPD` up to the owner and permissions; `a2` and `d0` are the buffer. -/
def initPD (m : Mem) (q : Req) (a2 d0 : Nat) : Mem :=
  let a1 := q.a1
  let m := m.setU32 (a1 + pdBuf) a2
  let m := m.setU32 (a1 + pdBufSz) d0
  let m := m.setU32 (a1 + pdBufEnd) (a2 + d0)
  let m := m.setU32 (a1 + pdRdPtr) a2
  let m := m.setU32 (a1 + pdWrPtr) a2
  let m := m.setU32 (a1 + pdRdByt) 0
  let m := m.setU32 (a1 + pdWrSpc) d0
  let m := m.setU16 (a1 + pdRdWat) 0
  let m := m.setU16 (a1 + pdWrWat) 0
  let m := m.setU16 (a1 + pdWrWat2) 0
  let m := m.setU32 (a1 + pdRdSig) 0
  let m := m.setU32 (a1 + pdWrSig) 0
  let m := m.setU8 (a1 + pdFlags) 0
  let m := m.setU8 (a1 + pdDel) 0
  let m := m.setU8 (a1 + pdErr) 0
  let m := m.setU32 (a1 + pdXmask) 24
  let m := m.setU32 (a1 + pdHead) a1
  let m := m.setU32 (a1 + pdSelf) a1
  let m := startCounts m a1
  let m := m.setU8 (a1 + pdOwn) q.user
  let m := m.setU8 (a1 + pdGrp) (q.user / 256)
  m.setU8 (a1 + pdPerm) q.perm

/-- The name goes into the descriptor and the descriptor into the list. By then `a3` is the end of
the buffer, and `d3` holds the error code of the search above what the caller left in its upper
half. -/
def enterName (m : Mem) (q : Req) (a3 d3 : Nat) : Mem × List (Nat × Nat) :=
  let moved := moveMem m a3 (q.a1 + pdName) d3
  let m := moved.1.setU8 moved.2.2 0
  let stat := statOf m q.a1
  let m := m.setU32 (q.a1 + pdNext) (m.getU32 (stat + vPipes))
  let m := m.setU32 (stat + vPipes) q.a1
  let m := m.setU32 (q.a1 + pdPrev) 0
  unlockDev m stat

/-- `Pipe_CreateSetupBuffer` and what follows. -/
def setupBuffer (m : Mem) (q : Req) (d3 : Nat) : Left :=
  let finish (a2 d0 : Nat) : Left :=
    let m := initPD m q a2 d0
    let (m, sent) := if d3 % 65536 = 0 then (m, []) else enterName m q (add32 a2 d0) d3
    { mem := m.setU16 (q.a1 + pdCount) 1, err := none, sent := sent, freed := [] }
  if q.size ≤ pipeDefSz then finish (q.a1 + pdEmbBuf) pipeDefSz
  else
    match q.grant with
    | .error code => { mem := m, err := some code, sent := [], freed := [] }
    | .ok (a2, d0) => finish a2 d0

/-- `Pipe_CreateAnonymous`. -/
def createAnonymous (m : Mem) (q : Req) : Left :=
  let m := m.setU8 (q.a1 + pdMod) (m.getU8 (q.a1 + pdMod) ||| 3)
  let m := m.setU8 (q.a1 + pdFlags) (m.getU8 (q.a1 + pdFlags) ||| 0x80)
  setupBuffer m q (q.d3 / 65536 * 65536)

def failed (m : Mem) (code : Nat) : Left := { mem := m, err := some code, sent := [], freed := [] }

def failedUnlock (m : Mem) (a2 code : Nat) : Left :=
  { mem := (unlockDev m a2).1, err := some code, sent := (unlockDev m a2).2, freed := [] }

/-- `Pipe_Create`; no result where a wait never ends. -/
def create (m : Mem) (q : Req) : Option Left :=
  if (m.getU8 (q.a1 + pdMod)).testBit 7 then some (failed m errBmode)
  else if q.name = 0 then some (createAnonymous m q)
  else
    match parseName q m q.name with
    | .error code => some (failed m code)
    | .ok (a0, d1) =>
      if d1 = 0 then some (createAnonymous m q)
      else
        match lockDev m (statOf m q.a1) q.pid with
        | none => none
        | some m' =>
          match findNamed m' a0 d1 (statOf m q.a1) with
          | none => none
          | some (.pipe a2) => some (failedUnlock m' a2 errCerr)
          | some (.nothing _) => some (setupBuffer m' q (q.d3 / 65536 * 65536 + errPnnf))

/-! ### Pipe_Open -/

/-- The path is connected to the pipe at `a2`; `d2` is its mode. -/
def connect (m : Mem) (a1 a2 d2 : Nat) : Mem :=
  let m := m.setU32 (a1 + pdHead) a2
  let m := m.setU32 (a1 + pdBuf) (m.getU32 (a2 + pdBuf))
  let m := m.setU32 (a1 + pdBufEnd) (m.getU32 (a2 + pdBufEnd))
  let m := m.setU32 (a1 + pdBufSz) (m.getU32 (a2 + pdBufSz))
  let m := if d2.testBit 0 then m.setU16 (a2 + pdRdOpn) (m.getU16 (a2 + pdRdOpn) + 1) else m
  let m := if d2.testBit 1 then m.setU16 (a2 + pdWrOpn) (m.getU16 (a2 + pdWrOpn) + 1) else m
  let m := m.setU16 (a2 + pdCount) (m.getU16 (a2 + pdCount) + 1)
  m.setU16 (a1 + pdCount) 1

/-- `Pipe_Open`. Behind the search `a2` is the pipe found or a pointer the comparison has left, and
the lock is given back there. -/
def «open» (m : Mem) (q : Req) : Option Left :=
  if (m.getU8 (q.a1 + pdMod)).testBit 7 then some (failed m errBmode)
  else if q.name = 0 then some (createAnonymous m q)
  else
    match parseName q m q.name with
    | .error code => some (failed m code)
    | .ok (a0, d1) =>
      if d1 = 0 then some (createAnonymous m q)
      else
        match lockDev m (statOf m q.a1) q.pid with
        | none => none
        | some m' =>
          match findNamed m' a0 d1 (statOf m q.a1) with
          | none => none
          | some (.nothing a2) => some (failedUnlock m' a2 errPnnf)
          | some (.pipe a2) =>
            let d2 := m'.getU8 (q.a1 + pdMod)
            if m'.getU8 (a2 + pdPerm) &&& d2 ≠ d2 then some (failedUnlock m' a2 errBmode)
            else
              let m := connect m' q.a1 a2 d2
              some { mem := (unlockDev m a2).1, err := none, sent := (unlockDev m a2).2, freed := [] }

/-! ### Pipe_Close -/

/-- The master descriptor of a path. -/
def headOf (m : Mem) (a1 : Nat) : Nat := if m.getU32 (a1 + pdHead) = 0 then a1 else m.getU32 (a1 + pdHead)

/-- Counts and waiters of the master descriptor. -/
def endsOf (m : Mem) (a2 : Nat) : World :=
  { user := fun _ => 0, cpr := fun _ => 0, signal := fun _ => 0, rdWat := m.getU16 (a2 + pdRdWat),
    wrWat := m.getU16 (a2 + pdWrWat), rdOpn := m.getU16 (a2 + pdRdOpn), wrOpn := m.getU16 (a2 + pdWrOpn),
    sigPid := 0, sigCode := 0, sent := [] }

def setEnds (m : Mem) (a2 : Nat) (w : World) : Mem :=
  let m := m.setU16 (a2 + pdRdOpn) w.rdOpn
  let m := m.setU16 (a2 + pdWrWat) w.wrWat
  let m := m.setU16 (a2 + pdWrOpn) w.wrOpn
  m.setU16 (a2 + pdRdWat) w.rdWat

/-- `Pipe_Close` up to `Pipe_CloseCheckDestroy`. -/
def closeEnds (m : Mem) (a1 a2 : Nat) : Mem × List (Nat × Nat) :=
  let w := (endsOf m a2).close (m.getU8 (a1 + pdMod))
  let m := setEnds m a2 w
  (if m.getU16 (a2 + pdCount) = 0 then m else m.setU16 (a2 + pdCount) (m.getU16 (a2 + pdCount) - 1), w.sent)

/-- `Pipe_CloseScanList` and `Pipe_DelScan` from the entry `a0` on: takes `a2` out of the chain. -/
def scanList (m : Mem) (a2 : Nat) : Nat → Nat → Option Mem
  | 0, _ => none
  | fuel + 1, a0 =>
    if a0 = 0 then some m
    else if m.getU32 (a0 + pdNext) = a2 then some (m.setU32 (a0 + pdNext) (m.getU32 (a2 + pdNext)))
    else scanList m a2 fuel (m.getU32 (a0 + pdNext))

/-- The entry `a2` leaves the list whose head is the long at `anchor`. -/
def unlinkPipe (m : Mem) (anchor a2 : Nat) : Option Mem :=
  if m.getU32 anchor = a2 then some (m.setU32 anchor (m.getU32 (a2 + pdNext)))
  else scanList m a2 chainBound (m.getU32 anchor)

/-- The named pipe at `a2` leaves the list of its device. The lock is taken and given back at `a2`,
where the routines expect the static storage. -/
def closeUnlink (m : Mem) (a1 a2 pid : Nat) : Option (Mem × List (Nat × Nat)) :=
  let a3 := statOf m a1
  match lockDev m a2 pid with
  | none => none
  | some m =>
    match unlinkPipe m (a3 + vPipes) a2 with
    | none => none
    | some m => some (unlockDev m a2)

/-- `Pipe_CloseFreeBuf`. -/
def freeBuf (m : Mem) (a2 : Nat) : List (Nat × Nat) :=
  if m.getU32 (a2 + pdBufSz) ≤ pipeDefSz then [] else [(m.getU32 (a2 + pdBuf), m.getU32 (a2 + pdBufSz))]

/-- `Pipe_Close`. -/
def close (m : Mem) (q : Req) : Option Left :=
  let a2 := headOf m q.a1
  let (m, sent) := closeEnds m q.a1 a2
  if (m.getU16 (a2 + pdRdOpn) + m.getU16 (a2 + pdWrOpn)) % 65536 ≠ 0 then
    some { mem := m, err := none, sent := sent, freed := [] }
  else if m.getU8 (a2 + pdName) = 0 then some { mem := m, err := none, sent := sent, freed := freeBuf m a2 }
  else
    match closeUnlink m q.a1 a2 q.pid with
    | none => none
    | some (m, sent') => some { mem := m, err := none, sent := sent ++ sent', freed := freeBuf m a2 }

/-! ### Pipe_Delete -/

/-- `Pipe_Delete`. The list is looked for at the pipe found, not in the static storage. -/
def delete (m : Mem) (q : Req) : Option Left :=
  match parseName q m q.name with
  | .error code => some (failed m code)
  | .ok (a0, d1) =>
    match lockDev m (statOf m q.a1) q.pid with
    | none => none
    | some m' =>
      match findNamed m' a0 d1 (statOf m q.a1) with
      | none => none
      | some (.nothing a2) => some (failedUnlock m' a2 errPnnf)
      | some (.pipe a2) =>
        if m'.getU16 (a2 + pdCount) ≠ 0 then some (failedUnlock m' a2 errShare)
        else
          match unlinkPipe m' (a2 + vPipes) a2 with
          | none => none
          | some m => some { mem := (unlockDev m a2).1, err := none, sent := (unlockDev m a2).2, freed := [] }

end Q9OS.Pipe

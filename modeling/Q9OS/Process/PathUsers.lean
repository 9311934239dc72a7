import Q9OS.Process.PathCounts

/-!
# Native paths in use

Over every run of opens, closes, forks, exits and waits of any number of
processes a descriptor counts the path numbers that name it.
-/

namespace Q9OS

open Heap

/-! ### Runs -/

inductive PathCall where
  | iOpen (mode pathnamePtr : Nat)
  | close (pathNum : Nat)
  | fork (args : Kernel.ForkArgs)
  | exit (status : Nat)
  | wait (sp : Nat)

/-- A process runs, with what programs have put into memory since the last call, and makes a call. -/
structure PathTurn where
  proc : Nat
  ram : Mem
  call : PathCall

/-- The kernel, and the path numbers its calls have given to each process and not taken back. -/
structure PathUsers where
  kernel : Kernel
  opened : List (Nat × Nat)

namespace PathUsers

/-- The process of a turn runs. -/
def turned (s : PathUsers) (turn : PathTurn) : PathUsers := { s with kernel := { s.kernel with proc := turn.proc, ram := turn.ram } }

/-- The numbers of a parent below the count it passes on. -/
def inherited (s : PathUsers) (child numPaths : Nat) : List (Nat × Nat) :=
  (s.opened.filter fun o => o.1 = s.kernel.proc ∧ o.2 < numPaths).map fun o => (child, o.2)

/-- A call of the running process. -/
def call (s : PathUsers) : PathCall → PathUsers
  | .iOpen mode pathnamePtr =>
    let opened := s.kernel.procIOpen mode pathnamePtr
    ⟨opened.2.2, match opened.1 with
      | .ok n => (s.kernel.proc, n) :: s.opened
      | .error _ => s.opened⟩
  | .close n =>
    let closed := s.kernel.procNativeClose n
    ⟨closed.2, match closed.1 with
      | .ok _ => s.opened.filter fun o => o ≠ (s.kernel.proc, n)
      | .error _ => s.opened⟩
  | .fork args =>
    let forked := s.kernel.procFork args
    ⟨forked.2, match forked.1 with
      | .ok pid => s.inherited (s.kernel.slotAddr (pid - 1)) args.numPaths ++ s.opened
      | .error _ => s.opened⟩
  | .exit status =>
    -- a debugged process stays, with its paths
    ⟨s.kernel.sysExit status,
      if s.kernel.desc.get32 s.kernel.proc Desc.dbgPar = 0 then s.opened.filter fun o => o.1 ≠ s.kernel.proc else s.opened⟩
  | .wait sp => ⟨(s.kernel.sysWait sp).2, s.opened⟩

def step (s : PathUsers) (turn : PathTurn) : Option PathUsers := some ((s.turned turn).call turn.call)

/-- The process has been created and has not ended. -/
def Runs (s : PathUsers) (p : Nat) : Prop := s.kernel.IsSlot p ∧ ¬ s.kernel.Spare p ∧ ¬ s.kernel.isZombie p

/-- Empty path tables, and all descriptors on the free list. -/
structure Booted (s : PathUsers) (count : Nat) : Prop where
  placed : s.kernel.Placed
  base : 0 < s.kernel.paths.base
  fits : s.kernel.paths.base + count * PathPool.descSize ≤ 4294967296
  full : s.kernel.paths.FreeAre count (fun _ => True)
  spares : ∃ spare, s.kernel.Spares spare
  empty : ∀ d, s.kernel.IsSlot d → s.kernel.Bare d
  none : s.opened = []

/-- Descriptors count their path numbers, the others are free, and a process gets at the path
numbers it has. -/
structure Counted (s : PathUsers) (count : Nat) : Prop where
  refs : ∀ n, PathPool.Numbered count n → s.kernel.paths.refs n = s.kernel.pathUses n
  free : ∃ free, Linked s.kernel.paths.nextFree 0 s.kernel.paths.free free ∧ free.Nodup ∧
    ∀ a, a ∈ free ↔ ∃ n, PathPool.Numbered count n ∧ a = s.kernel.paths.descAddr n ∧ s.kernel.pathUses n = 0
  resolves : ∀ p, s.Runs p → ∀ n, (∃ a, Kernel.procPathDesc { s.kernel with proc := p } n = .ok a) ↔ (p, n) ∈ s.opened
  own : ∀ p, s.Runs p → ∀ n a, Kernel.procPathDesc { s.kernel with proc := p } n = .ok a →
    ∃ v, PathPool.Numbered count v ∧ a = s.kernel.paths.descAddr v ∧ s.kernel.pathEntry p n = v

/-- The path numbers given are those in the tables. -/
def Ledger (s : PathUsers) : Prop :=
  ∀ d n, (d, n) ∈ s.opened ↔ s.kernel.IsSlot d ∧ n < Desc.pathCount ∧ s.kernel.pathEntry d n ≠ 0

def Sound (count : Nat) (s : PathUsers) : Prop := (∃ spare, s.kernel.PathsSound count spare) ∧ s.Ledger

section
variable {s s' : PathUsers} {count i : Nat} {spare : List Nat}

theorem Sound.booted (booted : s.Booted count) (few : count ≤ 32765)
    (cleared : ∀ n, PathPool.Numbered count n → s.kernel.paths.refs n = 0) : Sound count s := by
  obtain ⟨placed, base, fits, full, ⟨spare, spares⟩, empty, none⟩ := booted
  have cells : ∀ c ∈ s.kernel.cells, s.kernel.cell c = 0 := by
    intro c inside
    obtain ⟨row, column⟩ := Finset.mem_product.mp inside
    exact empty _ ⟨c.1, Finset.mem_range.mp row, rfl⟩ c.2 (Finset.mem_range.mp column)
  have unused : ∀ n, PathPool.Numbered count n → holders s.kernel.cells s.kernel.cell n = 0 := by
    intro n here
    refine holders_eq_zero.mpr (fun c inside value => ?_)
    have pos := here.1
    rw [cells c inside] at value
    omega
  refine ⟨⟨spare, placed, spares, fun d idle => ?_, ⟨base, fits⟩, few, ?_, ?_, ?_, ?_, ?_⟩, fun d n => ?_⟩
  · rcases idle with free | ⟨slot, -⟩
    · exact empty d (spares.slots d free)
    · exact empty d slot
  · exact fun c inside some => absurd (cells c inside) some
  · exact fun c inside _ _ _ _ some => absurd (cells c inside) some
  · exact fun n here => (cleared n here).trans (unused n here).symm
  · exact fun n here some => absurd (unused n here) some
  · exact full.congr (fun n here => iff_of_true trivial (unused n here))
  · rw [none]
    refine iff_of_false (by simp) (fun all => ?_)
    exact all.2.2 (empty d all.1 n all.2.1)

/-- The running process is one that has been created and has not ended. -/
structure AtWork (s : PathUsers) (spare : List Nat) (i : Nat) : Prop where
  few : i < s.kernel.poolCount
  used : s.kernel.slotAddr i ∉ spare
  living : ¬ s.kernel.isZombie (s.kernel.slotAddr i)
  proc : s.kernel.proc = s.kernel.slotAddr i

theorem Runs.place {p : Nat} (runs : s.Runs p) (spares : s.kernel.Spares spare) (ram : Mem) (call : PathCall) :
    ∃ i, (s.turned ⟨p, ram, call⟩).AtWork spare i := by
  obtain ⟨⟨i, few, rfl⟩, used, living⟩ := runs
  exact ⟨i, few, fun free => used (spares.mem_iff.mpr free), living, rfl⟩

theorem turned_steady (s : PathUsers) (turn : PathTurn) : s.kernel.Steady (s.turned turn).kernel :=
  ⟨rfl, rfl, rfl, rfl, Agree.rfl, fun _ z => z⟩

theorem Sound.counted (sound : Sound count s) : s.Counted count := by
  obtain ⟨⟨spare, paths⟩, ledger⟩ := sound
  obtain ⟨l, linked, members⟩ := paths.tallied.free
  have gate : ∀ p, s.Runs p → ∃ i < s.kernel.poolCount, p = s.kernel.slotAddr i ∧ ∀ n a,
      Kernel.procPathDesc { s.kernel with proc := p } n = .ok a ↔
        n < Desc.pathCount ∧ s.kernel.pathEntry p n ≠ 0 ∧ a = s.kernel.paths.descAddr (s.kernel.pathEntry p n) := by
    rintro _ ⟨⟨i, few, rfl⟩, -, -⟩
    have steady := s.turned_steady ⟨s.kernel.slotAddr i, s.kernel.ram, .wait 0⟩
    exact ⟨i, few, rfl, fun n a => (paths.steady steady).procPathDesc_ok few rfl⟩
  refine ⟨paths.tallied.refs, ⟨l, linked, linked.nodup, members⟩, fun p runs n => ?_, fun p runs n a found => ?_⟩
  · obtain ⟨i, few, place, desc⟩ := gate p runs
    rw [ledger]
    constructor
    · rintro ⟨a, found⟩
      obtain ⟨inside, some, -⟩ := (desc n a).mp found
      exact ⟨runs.1, inside, some⟩
    · rintro ⟨-, inside, some⟩
      exact ⟨_, (desc n _).mpr ⟨inside, some, rfl⟩⟩
  · obtain ⟨i, few, rfl, desc⟩ := gate p runs
    obtain ⟨inside, some, rfl⟩ := (desc n a).mp found
    exact ⟨_, (paths.tallied.entries (i, n) (Kernel.mem_cells few inside) some).2, rfl, rfl⟩

/-- The tables of all slots are the same. -/
theorem Ledger.same {k : Kernel} (ledger : s.Ledger) (same : s.kernel.SameRows k) : Ledger ⟨k, s.opened⟩ := by
  intro d n
  refine (ledger d n).trans ?_
  dsimp only
  rw [Kernel.isSlot_congr same.base same.count]
  refine and_congr_right (fun _ => and_congr_right (fun inside => ?_))
  rw [same.rows d n inside]

section
variable (work : s.AtWork spare i) (paths : s.kernel.PathsSound count spare) (ledger : s.Ledger)
include work paths ledger

theorem Sound.iOpen (mode pathnamePtr : Nat) : Sound count (s.call (.iOpen mode pathnamePtr)) := by
  obtain ⟨sound, base, poolCount, failed, done⟩ := paths.procIOpen work.few work.used work.living work.proc mode pathnamePtr
  refine ⟨⟨spare, sound⟩, fun d n => ?_⟩
  unfold call
  dsimp only at base poolCount failed done ⊢
  rw [Kernel.isSlot_congr base poolCount]
  cases result : (s.kernel.procIOpen mode pathnamePtr).1 with
  | error code =>
    rw [failed code result]
    exact ledger d n
  | ok m =>
    obtain ⟨inside, some, others⟩ := done m result
    dsimp only
    rw [List.mem_cons, ledger]
    by_cases here : d = s.kernel.proc ∧ n = m
    · obtain ⟨rfl, rfl⟩ := here
      exact iff_of_true (Or.inl rfl) ⟨⟨i, work.few, work.proc⟩, inside, some⟩
    · rw [others d n here]
      exact or_iff_right (fun equal => here (Prod.mk.inj equal))

theorem Sound.close (m : Nat) : Sound count (s.call (.close m)) := by
  obtain ⟨sound, base, poolCount, failed, done⟩ := paths.procNativeClose work.few work.used work.living work.proc m
  refine ⟨⟨spare, sound⟩, fun d n => ?_⟩
  unfold call
  dsimp only
  rw [Kernel.isSlot_congr base poolCount]
  cases result : (s.kernel.procNativeClose m).1 with
  | error code =>
    rw [failed code result]
    exact ledger d n
  | ok u =>
    dsimp only
    rw [done u result d n, List.mem_filter, ledger]
    by_cases here : d = s.kernel.proc ∧ n = m
    · rw [if_pos here]
      refine iff_of_false (fun both => ?_) (fun all => all.2.2 rfl)
      simp [here.1, here.2] at both
    · rw [if_neg here]
      exact and_iff_left (decide_eq_true (fun equal => here (Prod.mk.inj equal)))

theorem Sound.fork (args : Kernel.ForkArgs) : Sound count (s.call (.fork args)) := by
  obtain ⟨sound, failed, done⟩ := paths.procFork work.few work.used work.proc args
  refine ⟨sound, ?_⟩
  unfold call
  dsimp only
  cases result : (s.kernel.procFork args).1 with
  | error code => exact ledger.same (failed code result)
  | ok pid =>
    obtain ⟨base, poolCount, slot, bare, rows⟩ := done pid result
    intro d n
    dsimp only
    rw [Kernel.isSlot_congr base poolCount, List.mem_append, ledger]
    generalize s.kernel.slotAddr (pid - 1) = child at slot bare rows
    have passed : (d, n) ∈ s.inherited child args.numPaths ↔
        d = child ∧ n < args.numPaths ∧ n < Desc.pathCount ∧ s.kernel.pathEntry s.kernel.proc n ≠ 0 := by
      unfold inherited
      rw [List.mem_map]
      constructor
      · rintro ⟨o, member, equal⟩
        obtain ⟨there, parent, low⟩ : o ∈ s.opened ∧ o.1 = s.kernel.proc ∧ o.2 < args.numPaths := by simpa using member
        obtain ⟨rfl, rfl⟩ := Prod.mk.inj equal
        obtain ⟨-, inside, some⟩ := (ledger o.1 o.2).mp there
        exact ⟨rfl, low, inside, parent ▸ some⟩
      · rintro ⟨rfl, low, inside, some⟩
        refine ⟨(s.kernel.proc, n), ?_, rfl⟩
        have there := (ledger s.kernel.proc n).mpr ⟨⟨i, work.few, work.proc⟩, inside, some⟩
        simpa using ⟨there, low⟩
    rw [passed]
    by_cases own : d = child
    · subst own
      constructor
      · rintro (⟨-, low, inside, some⟩ | ⟨-, inside, some⟩)
        · refine ⟨slot, inside, ?_⟩
          rwa [rows _ n inside, if_pos rfl, if_pos low]
        · exact absurd (bare n inside) some
      · rintro ⟨-, inside, some⟩
        rw [rows _ n inside, if_pos rfl] at some
        split at some
        · next low => exact Or.inl ⟨rfl, low, inside, some⟩
        · exact absurd rfl some
    · rw [or_iff_right (fun all => own all.1)]
      refine and_congr_right (fun _ => and_congr_right (fun inside => ?_))
      rw [rows d n inside, if_neg own]

theorem Sound.exit (status : Nat) : Sound count (s.call (.exit status)) := by
  have place := work.proc
  unfold call Kernel.sysExit
  dsimp only
  by_cases free : s.kernel.desc.get32 s.kernel.proc Desc.dbgPar = 0
  · rw [if_pos free]
    rw [place] at free
    obtain ⟨spare', sound, ended⟩ := paths.procExit work.few work.used work.living free status
    rw [← place] at sound ended
    have switched := Kernel.switchTo_steady (Kernel.Steady.rfl (k := (s.kernel.procExit s.kernel.proc status).2))
    refine ⟨⟨spare', sound.steady switched⟩, fun d n => ?_⟩
    dsimp only
    rw [(switched.isSlot d), Kernel.isSlot_congr ended.base ended.count, List.mem_filter, ledger]
    have entry : n < Desc.pathCount → (Kernel.switchTo (s.kernel.procExit s.kernel.proc status)).pathEntry d n =
        (s.kernel.procExit s.kernel.proc status).2.pathEntry d n := fun inside => switched.pathEntry d inside
    by_cases own : d = s.kernel.proc
    · refine iff_of_false (fun both => ?_) (fun all => ?_)
      · simp [own] at both
      · refine all.2.2 ((entry all.2.1).trans ?_)
        rw [own]
        exact ended.bare n all.2.1
    · rw [and_iff_left (by simpa using own)]
      refine and_congr_right (fun _ => and_congr_right (fun inside => ?_))
      rw [entry inside, ended.rows d own n inside]
  · rw [if_neg free]
    have stays : Kernel.Steady s.kernel (Kernel.switchTo (s.kernel.procExit s.kernel.proc status)) := by
      refine Kernel.switchTo_steady ?_
      unfold Kernel.procExit
      rw [if_pos free]
      exact Kernel.procDebugChildExit_steady _ _ _ _
    exact ⟨⟨spare, paths.steady stays⟩, ledger.same stays.sameRows⟩

theorem Sound.wait (sp : Nat) : Sound count (s.call (.wait sp)) := by
  have live : s.kernel.proc ≠ 0 := work.proc ▸ Kernel.IsSlot.pos paths.placed ⟨i, work.few, rfl⟩
  obtain ⟨spare', sound, same⟩ := paths.sysWait live sp
  exact ⟨⟨spare', sound⟩, ledger.same same⟩

end

theorem Sound.step {turn : PathTurn} (sound : Sound count s) (runs : s.Runs turn.proc) (stepped : s.step turn = some s') : Sound count s' := by
  obtain ⟨⟨spare, paths⟩, ledger⟩ := sound
  obtain ⟨i, work⟩ := runs.place paths.spares turn.ram turn.call
  have steady := s.turned_steady turn
  have paths' := paths.steady steady
  have ledger' : (s.turned turn).Ledger := ledger.same steady.sameRows
  obtain rfl := Option.some.inj stepped
  cases turn.call with
  | iOpen mode pathnamePtr => exact Sound.iOpen work paths' ledger' mode pathnamePtr
  | close m => exact Sound.close work paths' ledger' m
  | fork args => exact Sound.fork work paths' ledger' args
  | exit status => exact Sound.exit work paths' ledger' status
  | wait sp => exact Sound.wait work paths' ledger' sp

/-- In every run of processes from a pool of at most 32765 descriptors, none of which counts a
user at the start, every state has its descriptors counted. -/
theorem native_paths_counted {turns : List PathTurn} (booted : s.Booted count) (few : count ≤ 32765)
    (cleared : ∀ n, PathPool.Numbered count n → s.kernel.paths.refs n = 0)
    (meets : RunMeets PathUsers.step (fun s turn => s.Runs turn.proc) s turns)
    (ran : run PathUsers.step s turns = some s') : s'.Counted count := by
  have start := Sound.booted booted few cleared
  exact (run_invariant (fun _ _ _ sound runs stepped => sound.step runs stepped) start meets ran).counted

end

/-! ### Two processes with one path, and a pool that is too large -/

/-- A kernel with `slots` process slots from 0x10000 on, the first of which runs, with the module "m"
at 0x8000, its name at 0x7000 and the text "/term" at 0x7100. -/
def machine (slots : Nat) (paths : PathPool) : PathUsers where
  kernel :=
    let ram : Mem := fun _ => 0
    let ram := (ram.setU32 Arena.arenaHead 0x20000).setU32 0x20004 0x1000
    let ram := (ram.setU32 (0x8000 + Mh.size) 0x100).setU32 (0x8000 + Mh.name) 0x50
    let ram := ((ram.setU32 (0x8000 + Mh.mem) 0x40).setU32 (0x8000 + Mh.stack) 0x100).setU32 (0x8000 + Mh.exec) 0x60
    let ram := ((ram.setU8 0x8050 0x6D).setU8 0x7000 0x6D).setU32 0x7100 0x2F746572
    { Kernel.zeroed 0x10000 slots with
      poolFree := if slots = 1 then 0 else 0x10400
      desc := Heap.set8 (fun _ _ => 0) 0x10000 Desc.state stateActive
      ram := ram.setU8 0x7104 0x6D
      mods := ⟨0x3000, 0, Heap.set32 (fun _ _ => 0) 0x3000 ModDir.hdrPtr 0x8000⟩
      paths := paths }
  opened := []

section
variable {slots count : Nat} {paths : PathPool}

theorem machine_slot {i : Nat} (few : i < slots) : (machine slots paths).kernel.IsSlot (0x10000 + i * Desc.size) := ⟨i, few, rfl⟩

theorem machine_bare (d : Nat) : (machine slots paths).kernel.Bare d := by
  intro j _
  have kept : (machine slots paths).kernel.pathEntry d j = Heap.get16 (fun _ _ => 0) d (Desc.path + j * 2) :=
    get16_set8_off _ _ _ _ (by unfold Desc.path Desc.state; omega)
  rw [kept, PathPool.get16_zeroed]

theorem machine_spares (few : slots = 1 ∨ slots = 2) :
    (machine slots paths).kernel.Spares (if slots = 1 then [] else [0x10400]) := by
  rcases few with rfl | rfl
  · exact ⟨rfl, by simp, by simp⟩
  · have link : (machine 2 paths).kernel.nextSlot 0x10400 = 0 :=
      (get32_set8_off _ _ _ _ (by decide)).trans (PathPool.get32_zeroed _ _)
    have parent : (machine 2 paths).kernel.desc.get32 0x10400 Desc.parent = 0 :=
      (get32_set8_off _ _ _ _ (by decide)).trans (PathPool.get32_zeroed _ _)
    refine ⟨⟨rfl, by decide, link⟩, fun d member => ?_, fun d member => ?_⟩
    · rw [List.mem_singleton.mp member, show (0x10400 : Nat) = 0x10000 + 1 * Desc.size by decide]
      exact machine_slot (by decide)
    · obtain rfl := List.mem_singleton.mp member
      exact parent

theorem machine_booted (few : slots = 1 ∨ slots = 2) (base : 0 < paths.base)
    (fits : paths.base + count * PathPool.descSize ≤ 4294967296) (full : paths.FreeAre count (fun _ => True)) :
    (machine slots paths).Booted count where
  placed := by
    refine ⟨(by decide : 0 < 0x10000), ?_, ?_⟩
    · show 0x10000 + slots * Desc.size ≤ 4294967296
      rcases few with rfl | rfl <;> decide
    · show slots < 65536
      omega
  base := base
  fits := fits
  full := full
  spares := ⟨_, machine_spares few⟩
  empty d _ := machine_bare d
  none := rfl

theorem machine_runs (few : slots = 1 ∨ slots = 2) : (machine slots paths).Runs 0x10000 := by
  refine ⟨machine_slot (i := 0) (by omega), fun free => ?_, fun zombie => ?_⟩
  · have member := (machine_spares few).mem_iff.mp free
    rcases few with rfl | rfl <;> simp at member
  · have letter : (machine slots paths).kernel.desc.get8 0x10000 Desc.state = stateActive := get8_set8 _ _ _ _
    exact absurd (letter.symm.trans zombie) (by decide)

end

/-- Forks the module with the first four path numbers. -/
def sharing : Kernel.ForkArgs := ⟨0, 0, 0, 0x7000, 0, 5, 4⟩

/-- A turn of the first process, with the memory as the last call left it. -/
def next (s : PathUsers) (call : PathCall) : PathTurn := ⟨0x10000, s.kernel.ram, call⟩

def desk : PathUsers := machine 2 (PathPool.boot (fun _ _ => 0) 0x30000 2)

def opening : PathCall := .iOpen 1 0x7100

def deskOpened : PathUsers := (desk.turned (desk.next opening)).call opening

def deskForked : PathUsers := (deskOpened.turned (deskOpened.next (.fork sharing))).call (.fork sharing)

def deskEnded : PathUsers := (deskForked.turned (deskForked.next (.exit 0))).call (.exit 0)

theorem desk_opened : PathUsers.step desk (desk.next opening) = some deskOpened := rfl

theorem desk_forked : PathUsers.step deskOpened (deskOpened.next (.fork sharing)) = some deskForked := rfl

theorem desk_meets : RunMeets PathUsers.step (fun s turn => s.Runs turn.proc) desk
    [desk.next opening, deskOpened.next (.fork sharing), deskForked.next (.exit 0)] := by
  refine ⟨machine_runs (Or.inr rfl), fun s first => ?_⟩
  obtain rfl := Option.some.inj (desk_opened.symm.trans first)
  have slots : deskOpened.kernel.poolBase = 0x10000 ∧ deskOpened.kernel.poolCount = 2 ∧ deskOpened.kernel.poolFree = 0x10400 := by
    decide +kernel
  refine ⟨⟨⟨0, by rw [slots.2.1]; decide, by unfold Kernel.slotAddr; rw [slots.1]; rfl⟩, fun free => ?_, ?_⟩, fun s second => ?_⟩
  · have spares : Linked deskOpened.kernel.nextSlot 0 deskOpened.kernel.poolFree [0x10400] := by
      refine ⟨slots.2.2, by decide, ?_⟩
      show deskOpened.kernel.nextSlot 0x10400 = 0
      decide +kernel
    obtain ⟨spare, linked, member⟩ := free
    rw [linked.unique spares] at member
    exact absurd (List.mem_singleton.mp member) (by show ¬ (0x10000 : Nat) = 0x10400; decide)
  · show ¬ deskOpened.kernel.desc.get8 0x10000 Desc.state = stateZombie
    decide +kernel
  obtain rfl := Option.some.inj (desk_forked.symm.trans second)
  have slots : deskForked.kernel.poolBase = 0x10000 ∧ deskForked.kernel.poolCount = 2 ∧ deskForked.kernel.poolFree = 0 := by
    decide +kernel
  refine ⟨⟨⟨0, by rw [slots.2.1]; decide, by unfold Kernel.slotAddr; rw [slots.1]; rfl⟩, fun free => ?_, ?_⟩, fun _ _ => trivial⟩
  · obtain ⟨spare, linked, member⟩ := free
    have none : Linked deskForked.kernel.nextSlot 0 deskForked.kernel.poolFree [] := slots.2.2
    rw [linked.unique none] at member
    cases member
  · show ¬ deskForked.kernel.desc.get8 0x10000 Desc.state = stateZombie
    decide +kernel

/-- A process opens a path, shares it with a child and ends: the child is the user left. -/
theorem native_paths_counted_shared :
    ∃ s', run PathUsers.step desk [desk.next opening, deskOpened.next (.fork sharing), deskForked.next (.exit 0)] = some s' ∧
      s'.opened = [(0x10400, 3)] ∧ s'.kernel.paths.refs 3 = 1 ∧ s'.kernel.pathUses 3 = 1 := by
  have full : (PathPool.boot (fun _ _ => 0) 0x30000 2).FreeAre 2 (fun _ => True) := PathPool.boot_full _ (by decide) (by decide)
  have booted : desk.Booted 2 := machine_booted (Or.inr rfl) (by decide) (by decide) full
  have cleared : ∀ n, PathPool.Numbered 2 n → desk.kernel.paths.refs n = 0 :=
    fun n _ => PathPool.boot_cleared 0x30000 n
  have ran : run PathUsers.step desk [desk.next opening, deskOpened.next (.fork sharing), deskForked.next (.exit 0)] = some deskEnded :=
    run_step desk_opened (run_step desk_forked rfl)
  have counted := native_paths_counted booted (by decide) cleared desk_meets ran
  have refs : deskEnded.kernel.paths.refs 3 = 1 := by decide +kernel
  exact ⟨deskEnded, ran, by decide +kernel, refs, (counted.refs 3 ⟨by decide, by decide⟩).symm.trans refs⟩

/-! A pool of 32766 descriptors, of which the last one, number 0x8000, is the first to be taken. -/

def crowd : PathPool := (PathPool.boot (fun _ _ => 0) 0x100000 32765).pathPoolFree 0x8FFD00

def crowded : PathUsers := machine 1 crowd

def crowdOpened : PathUsers := (crowded.turned (crowded.next opening)).call opening

def crowdEnded : PathUsers := (crowdOpened.turned (crowdOpened.next (.exit 0))).call (.exit 0)

theorem call_exit (s : PathUsers) (status : Nat) : (s.call (.exit status)).kernel = s.kernel.sysExit status := rfl

/-- The process as it ends, and what it leaves. -/
def crowdLast : Kernel := (crowdOpened.turned (crowdOpened.next (.exit 0))).kernel

def buried : Kernel := (crowdLast.exitRelease 0x10000).buryChild 0x10000 0

theorem crowd_full : crowd.FreeAre 32766 (fun _ => True) := by
  have full : (PathPool.boot (fun _ _ => 0) 0x100000 32765).FreeAre 32765 (fun _ => True) := PathPool.boot_full _ (by decide) (by decide)
  have low : (PathPool.boot (fun _ _ => 0) 0x100000 32765).FreeAre 32766 (fun n => n ≠ 0x8000) := by
    obtain ⟨l, linked, members⟩ := full
    refine ⟨l, linked, fun a => (members a).trans (exists_congr (fun n => ?_))⟩
    unfold PathPool.Numbered
    constructor
    · rintro ⟨⟨one, two⟩, place, -⟩
      exact ⟨⟨one, by omega⟩, place, by omega⟩
    · rintro ⟨⟨one, two⟩, place, other⟩
      exact ⟨⟨one, by omega⟩, place, trivial⟩
  have pushed := low.push (v := 0x8000) ⟨by decide, by decide⟩ ⟨by decide, by decide⟩ (by simp)
  have place : (PathPool.boot (fun _ _ => 0) 0x100000 32765).descAddr 0x8000 = 0x8FFD00 := by decide
  rw [place] at pushed
  exact pushed.congr (fun n _ => by simp [em])

/-- A path with number 0x8000 in the pool is taken for one of the path manager when its process ends. -/
theorem native_paths_miscounted :
    ¬ ∀ (s s' : PathUsers) (count : Nat) (turns : List PathTurn), s.Booted count → count < 65536 →
      (∀ n, PathPool.Numbered count n → s.kernel.paths.refs n = 0) →
      RunMeets PathUsers.step (fun s turn => s.Runs turn.proc) s turns → run PathUsers.step s turns = some s' →
      s'.Counted count := by
  intro claim
  have booted : crowded.Booted 32766 := machine_booted (Or.inl rfl) (by decide) (by decide) crowd_full
  have cleared : ∀ n, PathPool.Numbered 32766 n → crowded.kernel.paths.refs n = 0 := by
    intro n _
    have start : (PathPool.boot (fun _ _ => 0) 0x100000 32765).refs n = 0 := PathPool.boot_cleared 0x100000 n
    exact (get16_set32_off _ _ _ _ (by decide)).trans start
  have opened : PathUsers.step crowded (crowded.next opening) = some crowdOpened := rfl
  have ended : PathUsers.step crowdOpened (crowdOpened.next (.exit 0)) = some crowdEnded := rfl
  have slots : crowdOpened.kernel.poolBase = 0x10000 ∧ crowdOpened.kernel.poolCount = 1 ∧ crowdOpened.kernel.poolFree = 0 := by
    decide +kernel
  have meets : RunMeets PathUsers.step (fun s turn => s.Runs turn.proc) crowded [crowded.next opening, crowdOpened.next (.exit 0)] := by
    refine ⟨machine_runs (Or.inl rfl), fun s first => ?_⟩
    obtain rfl := Option.some.inj (opened.symm.trans first)
    refine ⟨⟨⟨0, by rw [slots.2.1]; decide, by unfold Kernel.slotAddr; rw [slots.1]; rfl⟩, fun free => ?_, ?_⟩, fun _ _ => trivial⟩
    · obtain ⟨spare, linked, member⟩ := free
      have none : Linked crowdOpened.kernel.nextSlot 0 crowdOpened.kernel.poolFree [] := slots.2.2
      rw [linked.unique none] at member
      cases member
    · show ¬ crowdOpened.kernel.desc.get8 0x10000 Desc.state = stateZombie
      decide +kernel
  have counted := claim crowded crowdEnded 32766 _ booted (by decide) cleared meets (run_step opened (run_step ended rfl))
  have free : crowdLast.desc.get32 0x10000 Desc.dbgPar = 0 := by decide +kernel
  have orphan : crowdLast.desc.get32 0x10000 Desc.parent = 0 := by decide +kernel
  have left : crowdLast.sysExit 0 = Kernel.switchTo buried.schedFirstPick := by
    have running : crowdLast.proc = 0x10000 := rfl
    unfold Kernel.sysExit Kernel.procExit buried
    rw [running]
    dsimp only
    rw [if_neg (not_not.mpr free), orphan, if_neg (by simp)]
  have last : crowdEnded.kernel = crowdLast.sysExit 0 := call_exit _ 0
  have picked : Kernel.Steady buried (crowdLast.sysExit 0) := left ▸ Kernel.switchTo_steady (Kernel.schedFirstPick_steady buried)
  have refs : crowdEnded.kernel.paths.refs 0x8000 = 1 := by
    rw [last, picked.paths]
    decide +kernel
  have uses : crowdEnded.kernel.pathUses 0x8000 = 0 := by
    rw [last, picked.pathUses]
    decide +kernel
  have equal := counted.refs 0x8000 ⟨by decide, by decide⟩
  exact absurd (refs.symm.trans (equal.trans uses)) (by decide)

end PathUsers

end Q9OS

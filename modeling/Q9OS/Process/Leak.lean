import Mathlib.Tactic
import Q9OS.Process.Overlap
import Q9OS.Process.Debug

/-!
# What a fork leaves of the previous occupant

Two kernels that differ in the bytes of a free slot only, side by side through
F$Fork into that slot and through every signal sent to the child.
-/

namespace Q9OS.Leak

open Heap

/-- Two kernels that differ inside the descriptor `d` only, and there outside `on`. -/
structure Twin (d : Nat) (on : Nat → Prop) (k k' : Kernel) : Prop where
  rest : k' = { k with desc := k'.desc }
  desc : SameBut d on k.desc k'.desc

variable {d : Nat} {on on' : Nat → Prop} {k k' : Kernel}

namespace Twin

theorem proc (twin : Twin d on k k') : k'.proc = k.proc := by rw [twin.rest]

theorem ram (twin : Twin d on k k') : k'.ram = k.ram := by rw [twin.rest]

theorem marks (twin : Twin d on k k') : k'.marks = k.marks := by rw [twin.rest]

theorem base (twin : Twin d on k k') : k'.poolBase = k.poolBase := by rw [twin.rest]

theorem count (twin : Twin d on k k') : k'.poolCount = k.poolCount := by rw [twin.rest]

theorem free (twin : Twin d on k k') : k'.poolFree = k.poolFree := by rw [twin.rest]

theorem paths (twin : Twin d on k k') : k'.paths = k.paths := by rw [twin.rest]

theorem setDesc (twin : Twin d on k k') {h h' : Heap} (same : SameBut d on' h h') :
    Twin d on' { k with desc := h } { k' with desc := h' } := by
  refine ⟨?_, same⟩
  rw [twin.rest]

theorem setRam (twin : Twin d on k k') (m : Mem) : Twin d on { k with ram := m } { k' with ram := m } := by
  refine ⟨?_, twin.desc⟩
  rw [twin.rest]

theorem weaken (twin : Twin d on k k') (fewer : ∀ o, on' o → on o) : Twin d on' k k' :=
  ⟨twin.rest, twin.desc.weaken fewer⟩

end Twin

/-! ### F$Fork -/

theorem procIsAllocated_twin (twin : Twin d on k k') (desc : Nat) (here : on Desc.state) :
    k'.procIsAllocated desc = k.procIsAllocated desc := by
  unfold Kernel.procIsAllocated
  rw [twin.desc.get8 desc here]

theorem procIdForDesc_twin (twin : Twin d on k k') (desc : Nat) (here : on Desc.state) :
    k'.procIdForDesc desc = k.procIdForDesc desc := by
  unfold Kernel.procIdForDesc
  rw [twin.base, twin.count, procIsAllocated_twin twin desc here]

theorem nameProc_twin (twin : Twin d on k k') (state : Nat) (more : ∀ x, on' x → on x ∨ x = Desc.state)
    (here : on' Desc.state) : Twin d on' (k.nameProc d state) (k'.nameProc d state) := by
  have lettered := twin.setDesc (twin.desc.gain8 Desc.state state more)
  have same := procIdForDesc_twin lettered d here
  unfold Kernel.nameProc
  dsimp only
  rw [same]
  exact lettered.setDesc (lettered.desc.set16 _ _ _)

theorem inheritPaths_twin (slots : List Nat) (parent inherit : Nat) (other : parent ≠ d) {k k' : Kernel}
    (twin : Twin d on k k') :
    Twin d on (k.inheritPaths d parent inherit slots) (k'.inheritPaths d parent inherit slots) := by
  induction slots generalizing k k' with
  | nil => exact twin
  | cons i rest ih =>
    apply ih
    unfold Kernel.inheritPath
    dsimp only
    rw [twin.desc.get16_other _ other, twin.paths]
    refine ⟨?_, twin.desc.set16 _ _ _⟩
    rw [twin.rest]

theorem copyDio_same (slots : List Nat) (parent : Nat) (other : parent ≠ d) {h h' : Heap}
    (same : SameBut d on h h') : SameBut d on (Kernel.copyDio h d parent slots) (Kernel.copyDio h' d parent slots) := by
  induction slots generalizing h h' with
  | nil => exact same
  | cons i rest ih =>
    apply ih
    rw [same.get8_other _ other]
    exact same.set8 _ _ _

theorem clearPaths_same (slots : List Nat) {h h' : Heap} (same : SameBut d on h h') :
    SameBut d on (Kernel.clearPaths h d slots) (Kernel.clearPaths h' d slots) := by
  induction slots generalizing h h' with
  | nil => exact same
  | cons i rest ih => exact ih (same.set16 _ _ _)

theorem clearDio_same (slots : List Nat) {h h' : Heap} (same : SameBut d on h h') :
    SameBut d on (Kernel.clearDio h d slots) (Kernel.clearDio h' d slots) := by
  induction slots generalizing h h' with
  | nil => exact same
  | cons i rest ih => exact ih (same.set8 _ _ _)

theorem forkPaths_twin (twin : Twin d on k k') (numPaths : Nat) (other : k.proc ≠ d) :
    Twin d on (k.forkPaths d numPaths) (k'.forkPaths d numPaths) := by
  unfold Kernel.forkPaths
  rw [twin.proc]
  split
  · have inherited := inheritPaths_twin (List.range Desc.pathCount) k.proc (min numPaths Desc.pathCount) other twin
    exact inherited.setDesc (copyDio_same _ _ other inherited.desc)
  · exact twin.setDesc (clearDio_same _ (clearPaths_same _ twin.desc))

theorem forkPriority_twin (twin : Twin d on k k') (priority : Nat) (other : k.proc ≠ d) :
    k'.forkPriority priority = k.forkPriority priority := by
  unfold Kernel.forkPriority
  rw [twin.proc, twin.desc.get8_other _ other]

theorem forkStack_twin (twin : Twin d on k k') (args : Kernel.ForkArgs) (image : Kernel.Image) (desc : Nat)
    (other : k.proc ≠ d) : k'.forkStack args image desc = k.forkStack args image desc := by
  unfold Kernel.forkStack Kernel.slotPid
  rw [forkPriority_twin twin _ other, twin.ram, twin.base]

theorem listAppend_same {h h' : Heap} (same : SameBut d on h h') (sentinel : Nat) (other : sentinel ≠ d)
    (more : ∀ x, on' x → on x ∨ (Desc.next ≤ x ∧ x < Desc.next + 8)) :
    SameBut d on' (listAppend h sentinel d) (listAppend h' sentinel d) := by
  have middle : SameBut d (fun x => on x ∨ (Desc.next ≤ x ∧ x < Desc.next + 4))
      (h.set32 d Desc.next sentinel) (h'.set32 d Desc.next sentinel) :=
    same.gain32 _ _ (fun _ here => here)
  unfold listAppend
  dsimp only
  rw [same.get32_other _ other]
  refine SameBut.set32 (SameBut.set32 (middle.gain32 _ _ (fun x here => ?_)) _ _ _) _ _ _
  rcases more x here with old | link
  · exact Or.inl (Or.inl old)
  · unfold Desc.next Desc.prev at *
    by_cases low : x < 0x34
    · exact Or.inl (Or.inr ⟨link.1, low⟩)
    · exact Or.inr ⟨by omega, by omega⟩

theorem schedInsert_same {h h' : Heap} (same : SameBut d on h h') (other : readyQ ≠ d) (here : on Desc.priority)
    (more : ∀ x, on' x → on x ∨ (Desc.age ≤ x ∧ x < Desc.age + 2) ∨ (Desc.next ≤ x ∧ x < Desc.next + 8)) :
    SameBut d on' (schedInsert h d) (schedInsert h' d) := by
  have aged : SameBut d (fun x => on x ∨ (Desc.age ≤ x ∧ x < Desc.age + 2))
      (h.set16 d Desc.age (h.get8 d Desc.priority)) (h'.set16 d Desc.age (h.get8 d Desc.priority)) :=
    same.gain16 _ _ (fun _ here => here)
  unfold schedInsert
  rw [same.get8 d here]
  refine listAppend_same aged _ other (fun x here => ?_)
  rcases more x here with old | age | link
  · exact Or.inl (Or.inl old)
  · exact Or.inl (Or.inr age)
  · exact Or.inr link

/-- The offsets of a child that F$Fork writes and F$Send reads. -/
def Written (o : Nat) : Prop :=
  (8 ≤ o ∧ o < 0xC) ∨ o = 0x19 ∨ (0x1A ≤ o ∧ o < 0x1C) ∨ o = 0x1D ∨ (0x30 ≤ o ∧ o < 0x38)

theorem forkDesc_twin (twin : Twin d on k k') (args : Kernel.ForkArgs) (image : Kernel.Image) (frame : Nat)
    (other : k.proc ≠ d) :
    Twin d (fun o => on o ∨ o = Desc.state ∨ o = Desc.priority ∨ (Desc.savedSp ≤ o ∧ o < Desc.savedSp + 4))
      (k.forkDesc args image d frame) (k'.forkDesc args image d frame) := by
  have named : Twin d (fun o => on o ∨ o = Desc.state) (k.nameProc d stateActive) (k'.nameProc d stateActive) :=
    nameProc_twin twin _ (fun _ here => here) (Or.inr rfl)
  have ranked : SameBut d (fun o => on o ∨ o = Desc.state ∨ o = Desc.priority)
      ((k.nameProc d stateActive).desc.set8 d Desc.priority (k.forkPriority args.priority))
      ((k'.nameProc d stateActive).desc.set8 d Desc.priority (k.forkPriority args.priority)) :=
    named.desc.gain8 _ _ (fun x here => by tauto)
  have parented := ranked.set32 d Desc.parent k.proc
  have same := parented.get32_other Desc.user other
  have filed := fun user => forkPaths_twin (named.setDesc (parented.set32 d Desc.user user)) args.numPaths
    (show (k.nameProc d stateActive).proc ≠ d from other)
  unfold Kernel.forkDesc
  dsimp only
  rw [forkPriority_twin twin _ other, twin.proc, same]
  refine (filed _).setDesc ?_
  unfold Kernel.setImage
  refine SameBut.set32 (SameBut.gain32 (((filed _).desc.set32 _ _ _).set32 _ _ _ |>.set32 _ _ _) _ _ ?_) _ _ _
  intro x here
  tauto

theorem forkInto_twin (twin : Twin d on k k') (args : Kernel.ForkArgs) (image : Kernel.Image)
    (other : k.proc ≠ d) (sentinel : readyQ ≠ d) :
    Twin d (fun o => on o ∨ Written o) (k.forkInto args image d) (k'.forkInto args image d) := by
  have stack := forkStack_twin twin args image d other
  unfold Kernel.forkInto
  rw [stack]
  dsimp only
  have filled := forkDesc_twin (twin.setRam (k.forkStack args image d).2) args image (k.forkStack args image d).1 other
  refine filled.setDesc (schedInsert_same filled.desc sentinel (by simp) (fun x here => ?_))
  rcases here with old | written
  · exact Or.inl (Or.inl old)
  · simp only [Written, Desc.state, Desc.priority, Desc.savedSp, Desc.age, Desc.next] at *
    omega

theorem Twin.mods (twin : Twin d on k k') : k'.mods = k.mods := by rw [twin.rest]

theorem setStore_twin (twin : Twin d on k k') (store : ModDir × Mem) :
    Twin d on (k.setStore store) (k'.setStore store) := by
  refine ⟨?_, twin.desc⟩
  unfold Kernel.setStore
  rw [twin.rest]

theorem popSlot_twin (twin : Twin d on k k') (link : ∀ o, o < 4 → on o) : Twin d on k.popSlot k'.popSlot := by
  have same : k'.desc.get32 k.poolFree Desc.id = k.desc.get32 k.poolFree Desc.id :=
    twin.desc.get32 _ (fun x _ high => link x (by unfold Desc.id at high; omega))
  refine ⟨?_, twin.desc⟩
  unfold Kernel.popSlot
  rw [twin.free, same, twin.rest]

/-- The same fork into the free slot at the head of the list, in both kernels. -/
theorem procFork_twin (twin : Twin d on k k') (link : ∀ o, o < 4 → on o) (args : Kernel.ForkArgs) {pid : Nat}
    (head : k.poolFree = d) (other : k.proc ≠ d) (sentinel : readyQ ≠ d)
    (forked : (k.procFork args).1 = .ok pid) :
    (k'.procFork args).1 = .ok pid ∧
      Twin d (fun o => on o ∨ Written o) (k.procFork args).2 (k'.procFork args).2 := by
  obtain ⟨image, ready, free⟩ := Kernel.procFork_ok forked
  have stored := popSlot_twin (setStore_twin twin (Kernel.forkImage k.mods k.ram args).2) link
  have ready' : (Kernel.forkImage k'.mods k'.ram args).1 = .ok image := by rw [twin.mods, twin.ram, ready]
  have free' : k'.poolFree ≠ 0 := twin.free ▸ free
  rw [Kernel.procFork_image ready free] at forked ⊢
  rw [Kernel.procFork_image ready' free', twin.mods, twin.ram, twin.free, head]
  rw [head] at forked
  refine ⟨?_, forkInto_twin stored args image other sentinel⟩
  rw [← forked]
  unfold Kernel.slotPid
  rw [twin.base]

/-! ### F$Send -/

theorem listUnlink_keep {h h' : Heap} (same : SameBut d on h h') (node : Nat)
    (links : ∀ x, Desc.next ≤ x → x < Desc.next + 8 → on x) :
    SameBut d on (listUnlink h node) (listUnlink h' node) := by
  have next : h'.get32 node Desc.next = h.get32 node Desc.next :=
    same.get32 node (fun x low high => links x low (by omega))
  have prev : h'.get32 node Desc.prev = h.get32 node Desc.prev := by
    refine same.get32 node (fun x low high => links x ?_ ?_)
    all_goals
      unfold Desc.next Desc.prev at *
      omega
  unfold listUnlink
  rw [next, prev]
  exact (same.set32 _ _ _).set32 _ _ _

theorem schedInsert_keep {h h' : Heap} (same : SameBut d on h h') (node : Nat) (other : readyQ ≠ d)
    (here : on Desc.priority) : SameBut d on (schedInsert h node) (schedInsert h' node) := by
  have aged := same.set16 node Desc.age (h.get8 node Desc.priority)
  unfold schedInsert listAppend
  rw [same.get8 node here]
  dsimp only
  rw [aged.get32_other _ other]
  exact (((aged.set32 _ _ _).set32 _ _ _).set32 _ _ _).set32 _ _ _

/-- The offsets of its target that F$Send reads. -/
def Sent (o : Nat) : Prop :=
  Written o ∨ (0x26 ≤ o ∧ o < 0x30) ∨ (0x1CC ≤ o ∧ o < 0x1D0) ∨ o = 0x210

theorem Sent.word {a : Nat} (inside : (8 ≤ a ∧ a + 4 ≤ 0xC) ∨ (0x26 ≤ a ∧ a + 4 ≤ 0x30) ∨ (0x1CC ≤ a ∧ a + 4 ≤ 0x1D0)) :
    ∀ x, a ≤ x → x < a + 4 → Sent x := by
  intro x low high
  simp only [Sent, Written]
  omega

theorem schedWake_same {h h' : Heap} (same : SameBut d Sent h h') (node : Nat) (other : readyQ ≠ d) :
    SameBut d Sent (schedWake h node) (schedWake h' node) := by
  have state : h'.get8 node Desc.state = h.get8 node Desc.state :=
    same.get8 node (by simp [Sent, Written, Desc.state])
  have unlinked := listUnlink_keep same node (fun x low high => by
    simp only [Sent, Written, Desc.next] at *
    omega)
  unfold schedWake
  rw [state]
  split
  · exact same
  · split
    · exact same
    · exact schedInsert_keep (unlinked.set8 _ _ _) node other (by simp [Sent, Written, Desc.priority])

theorem icptDeliver_twin (twin : Twin d Sent k k') (desc signal : Nat) :
    Twin d Sent (k.icptDeliver desc signal) (k'.icptDeliver desc signal) := by
  have vector : k'.desc.get32 desc Desc.sigVec = k.desc.get32 desc Desc.sigVec :=
    twin.desc.get32 desc (Sent.word (by decide))
  have stack : k'.desc.get32 desc Desc.savedSp = k.desc.get32 desc Desc.savedSp :=
    twin.desc.get32 desc (Sent.word (by decide))
  have dataPtr : k'.desc.get32 desc Desc.sigDat = k.desc.get32 desc Desc.sigDat :=
    twin.desc.get32 desc (Sent.word (by decide))
  have moved := twin.desc.set32 desc Desc.savedSp (sub32 (k.desc.get32 desc Desc.savedSp) frameSize)
  have depth := moved.get32 desc (o := Desc.icptDepth) (Sent.word (by decide))
  unfold Kernel.icptDeliver Kernel.icptReady
  dsimp only
  rw [vector, stack, dataPtr, depth, twin.ram, twin.marks]
  split
  · refine ⟨?_, (moved.set32 _ _ _).set16 _ _ _⟩
    rw [twin.rest]
  · exact twin

theorem sendTo_twin (twin : Twin d Sent k k') (desc signal : Nat) (other : readyQ ≠ d) :
    Twin d Sent (k.sendTo desc signal) (k'.sendTo desc signal) := by
  have stored : Twin d Sent (k.sendStore desc signal) (k'.sendStore desc signal) := by
    unfold Kernel.sendStore
    split
    · exact twin.setDesc (twin.desc.set16 _ _ _)
    · exact twin
  have masked : (k'.sendStore desc signal).sendMasked desc signal = (k.sendStore desc signal).sendMasked desc signal := by
    unfold Kernel.sendMasked
    rw [stored.desc.get8 desc (by simp [Sent, Desc.sigLvl])]
  have delivered : Twin d Sent ((k.sendStore desc signal).sendDeliver desc signal)
      ((k'.sendStore desc signal).sendDeliver desc signal) := by
    unfold Kernel.sendDeliver
    rw [stored.proc]
    split
    · exact icptDeliver_twin stored desc signal
    · exact stored
  unfold Kernel.sendTo
  dsimp only
  rw [masked]
  split
  · exact stored
  · exact delivered.setDesc (schedWake_same delivered.desc desc other)

theorem procSend_twin (twin : Twin d Sent k k') (pid signal : Nat) (other : readyQ ≠ d) :
    (k'.procSend pid signal).1 = (k.procSend pid signal).1 ∧
      Twin d Sent (k.procSend pid signal).2 (k'.procSend pid signal).2 := by
  have found : k'.procLookup pid = k.procLookup pid := by
    unfold Kernel.procLookup Kernel.slotAddr
    dsimp only
    rw [twin.base, twin.count, procIsAllocated_twin twin _ (by simp [Sent, Written, Desc.state])]
  unfold Kernel.procSend
  rw [found]
  dsimp only
  split
  · exact ⟨rfl, twin⟩
  · exact ⟨rfl, sendTo_twin twin _ signal other⟩

/-- Signals sent one after the other; the answers and the kernel after them. -/
def sendAll (k : Kernel) (pid : Nat) : List Nat → List (Except Nat Unit) × Kernel
  | [] => ([], k)
  | signal :: rest =>
    let sent := k.procSend pid signal
    let later := sendAll sent.2 pid rest
    (sent.1 :: later.1, later.2)

theorem sendAll_twin (pid : Nat) (signals : List Nat) (other : readyQ ≠ d) {k k' : Kernel} (twin : Twin d Sent k k') :
    (sendAll k' pid signals).1 = (sendAll k pid signals).1 ∧
      Twin d Sent (sendAll k pid signals).2 (sendAll k' pid signals).2 := by
  induction signals generalizing k k' with
  | nil => exact ⟨rfl, twin⟩
  | cons signal rest ih =>
    obtain ⟨answer, sent⟩ := procSend_twin twin pid signal other
    obtain ⟨answers, later⟩ := ih sent
    refine ⟨?_, later⟩
    unfold sendAll
    dsimp only
    rw [answer, answers]

/-! ### What a fork does not write -/

/-- Pending signal, intercept vector and data, exception tables, trap table with intercept
depth, wait range and mask level, and the sizes of trap memory. -/
def HandlerOff (o : Nat) : Prop := (0x26 ≤ o ∧ o < 0x30) ∨ (0x3C ≤ o ∧ o < 0x8C) ∨ (0x1CC ≤ o ∧ o < 0x2BC)

/-- What F$Fork leaves of a slot: the handler fields and everything from the trap table on. -/
def ForkKept (o : Nat) : Prop := (0x26 ≤ o ∧ o < 0x30) ∨ (0x3C ≤ o ∧ o < 0x8C) ∨ 0x1CC ≤ o

theorem handler_forkKept {o : Nat} (here : HandlerOff o) : ForkKept o := by
  unfold HandlerOff at here
  unfold ForkKept
  omega

theorem handler_apart {o a n : Nat} (here : ForkKept o)
    (outside : a + n ≤ 0x26 ∨ (0x30 ≤ a ∧ a + n ≤ 0x3C) ∨ (0x8C ≤ a ∧ a + n ≤ 0x1CC)) : o < a ∨ a + n ≤ o := by
  unfold ForkKept at here
  omega

theorem handler32 {h h' : Heap} (agree : Agree ForkKept h h') (b v : Nat) {a : Nat}
    (outside : a + 4 ≤ 0x26 ∨ (0x30 ≤ a ∧ a + 4 ≤ 0x3C) ∨ (0x8C ≤ a ∧ a + 4 ≤ 0x1CC)) :
    Agree ForkKept h (h'.set32 b a v) :=
  agree.set32 b v (fun _ here => handler_apart here outside)

theorem handler16 {h h' : Heap} (agree : Agree ForkKept h h') (b v : Nat) {a : Nat}
    (outside : a + 2 ≤ 0x26 ∨ (0x30 ≤ a ∧ a + 2 ≤ 0x3C) ∨ (0x8C ≤ a ∧ a + 2 ≤ 0x1CC)) :
    Agree ForkKept h (h'.set16 b a v) :=
  agree.set16 b v (fun _ here => handler_apart here outside)

theorem handler8 {h h' : Heap} (agree : Agree ForkKept h h') (b v : Nat) {a : Nat}
    (outside : a + 1 ≤ 0x26 ∨ (0x30 ≤ a ∧ a + 1 ≤ 0x3C) ∨ (0x8C ≤ a ∧ a + 1 ≤ 0x1CC)) :
    Agree ForkKept h (h'.set8 b a v) := by
  refine agree.set8 b v (fun x here => ?_)
  have apart := handler_apart here outside
  omega

theorem nameProc_agree (k : Kernel) (desc state : Nat) : Agree ForkKept k.desc (k.nameProc desc state).desc :=
  handler16 (handler8 Agree.rfl _ _ (by decide)) _ _ (by decide)

theorem inheritPaths_agree (desc parent inherit : Nat) (slots : List Nat) (few : ∀ i ∈ slots, i < 32) (k : Kernel) :
    Agree ForkKept k.desc (k.inheritPaths desc parent inherit slots).desc := by
  induction slots generalizing k with
  | nil => exact Agree.rfl
  | cons i rest ih =>
    have bound := few i (List.mem_cons_self ..)
    have stored : Agree ForkKept k.desc (k.inheritPath desc parent inherit i).desc :=
      handler16 Agree.rfl _ _ (by unfold Desc.path; omega)
    exact stored.trans (ih (fun j member => few j (List.mem_cons_of_mem _ member)) _)

theorem copyDio_agree (desc parent : Nat) (slots : List Nat) (few : ∀ i ∈ slots, i < 32) (h : Heap) :
    Agree ForkKept h (Kernel.copyDio h desc parent slots) := by
  induction slots generalizing h with
  | nil => exact Agree.rfl
  | cons i rest ih =>
    have bound := few i (List.mem_cons_self ..)
    have stored : Agree ForkKept h (h.set8 desc (Desc.dio + i) (h.get8 parent (Desc.dio + i))) :=
      handler8 Agree.rfl _ _ (by unfold Desc.dio; omega)
    exact stored.trans (ih (fun j member => few j (List.mem_cons_of_mem _ member)) _)

theorem clearPaths_agree (desc : Nat) (slots : List Nat) (few : ∀ i ∈ slots, i < 32) (h : Heap) :
    Agree ForkKept h (Kernel.clearPaths h desc slots) := by
  induction slots generalizing h with
  | nil => exact Agree.rfl
  | cons i rest ih =>
    have bound := few i (List.mem_cons_self ..)
    have stored : Agree ForkKept h (h.set16 desc (Desc.path + i * 2) 0) :=
      handler16 Agree.rfl _ _ (by unfold Desc.path; omega)
    exact stored.trans (ih (fun j member => few j (List.mem_cons_of_mem _ member)) _)

theorem clearDio_agree (desc : Nat) (slots : List Nat) (few : ∀ i ∈ slots, i < 32) (h : Heap) :
    Agree ForkKept h (Kernel.clearDio h desc slots) := by
  induction slots generalizing h with
  | nil => exact Agree.rfl
  | cons i rest ih =>
    have bound := few i (List.mem_cons_self ..)
    have stored : Agree ForkKept h (h.set8 desc (Desc.dio + i) 0) :=
      handler8 Agree.rfl _ _ (by unfold Desc.dio; omega)
    exact stored.trans (ih (fun j member => few j (List.mem_cons_of_mem _ member)) _)

theorem forkPaths_agree (k : Kernel) (desc numPaths : Nat) :
    Agree ForkKept k.desc (k.forkPaths desc numPaths).desc := by
  have few : ∀ i ∈ List.range 32, i < 32 := fun i member => List.mem_range.mp member
  unfold Kernel.forkPaths
  split
  · exact (inheritPaths_agree _ _ _ _ few k).trans (copyDio_agree _ _ _ few _)
  · exact (clearPaths_agree _ _ few _).trans (clearDio_agree _ _ few _)

theorem setImage_agree (h : Heap) (desc modHdr block size frame entryPc : Nat) :
    Agree ForkKept h (Kernel.setImage h desc modHdr block size frame entryPc) := by
  unfold Kernel.setImage
  refine handler32 (handler32 (handler32 (handler32 (handler32 Agree.rfl _ _ ?_) _ _ ?_) _ _ ?_) _ _ ?_) _ _ ?_
  all_goals decide

theorem forkDesc_agree (k : Kernel) (args : Kernel.ForkArgs) (image : Kernel.Image) (desc frame : Nat) :
    Agree ForkKept k.desc (k.forkDesc args image desc frame).desc := by
  have named := nameProc_agree k desc stateActive
  unfold Kernel.forkDesc
  dsimp only
  refine Agree.trans ?_ (setImage_agree _ _ _ _ _ _ _)
  refine Agree.trans ?_ (forkPaths_agree _ _ _)
  refine handler32 (handler32 (handler8 named _ _ ?_) _ _ ?_) _ _ ?_
  all_goals decide

theorem schedInsert_handlers (h : Heap) (desc : Nat) : Agree ForkKept h (schedInsert h desc) := by
  apply (schedInsert_agree h desc).weaken
  intro o here
  simp only [ForkKept, QueueOff, LinkOff] at *
  omega

theorem forkInto_agree (k : Kernel) (args : Kernel.ForkArgs) (image : Kernel.Image) (desc : Nat) :
    Agree ForkKept k.desc (k.forkInto args image desc).desc := by
  unfold Kernel.forkInto
  generalize k.forkStack args image desc = stack
  obtain ⟨frame, ram⟩ := stack
  have filled := forkDesc_agree { k with ram := ram } args image desc frame
  dsimp only at *
  generalize Kernel.forkDesc _ args image desc frame = child at *
  exact filled.trans (schedInsert_handlers child.desc desc)

/-- F$Fork leaves these fields of every slot, the one of the child included. -/
theorem procFork_agree (k : Kernel) (args : Kernel.ForkArgs) {pid : Nat} (forked : (k.procFork args).1 = .ok pid) :
    Agree ForkKept k.desc (k.procFork args).2.desc := by
  obtain ⟨image, ready, free⟩ := Kernel.procFork_ok forked
  rw [Kernel.procFork_image ready free]
  exact forkInto_agree (k.setStore (Kernel.forkImage k.mods k.ram args).2).popSlot args image k.poolFree

/-! ### The fields of the child -/

/-- What a process has set up for signals, exceptions, traps and events. -/
structure Handlers where
  signal : Nat
  vector : Nat
  dataPtr : Nat
  level : Nat
  depth : Nat
  range : Nat × Nat
  except : List Nat
  exStk : List Nat
  trap : List Fields.TrapEntry
  trapSize : List Nat
  deriving DecidableEq

def longs (h : Heap) (d start count : Nat) : List Nat := (List.range count).map (fun i => h.get32 d (start + i * 4))

def handlers (h : Heap) (d : Nat) : Handlers where
  signal := h.get16 d Desc.signal
  vector := h.get32 d Desc.sigVec
  dataPtr := h.get32 d Desc.sigDat
  level := h.get8 d Desc.sigLvl
  depth := h.get32 d Desc.icptDepth
  range := Fields.waitRange h d
  except := longs h d Desc.except 10
  exStk := longs h d Desc.exStk 10
  trap := (List.range' 1 15).map (Fields.trapEntry h d)
  trapSize := longs h d Desc.trapSize 15

theorem longs_congr {h h' : Heap} {start count : Nat} (same : ∀ o, start ≤ o → o < start + count * 4 → h' d o = h d o) :
    longs h' d start count = longs h d start count := by
  refine List.map_congr_left (fun i member => Mem.getU32_congr (fun x low high => same x (by omega) ?_))
  have bound := List.mem_range.mp member
  omega

theorem longs_bytes {h h' : Heap} {start count : Nat} (same : longs h' d start count = longs h d start count) {o : Nat}
    (low : start ≤ o) (high : o < start + count * 4) : h' d o = h d o := by
  have member : (o - start) / 4 ∈ List.range count := List.mem_range.mpr (by omega)
  have word := List.map_inj_left.mp same _ member
  exact Mem.getU32_bytes word (by omega) (by omega)

theorem handler_inside {a n : Nat}
    (inside : (0x26 ≤ a ∧ a + n ≤ 0x30) ∨ (0x3C ≤ a ∧ a + n ≤ 0x8C) ∨ (0x1CC ≤ a ∧ a + n ≤ 0x2BC)) :
    ∀ x, a ≤ x → x < a + n → HandlerOff x := by
  intro x low high
  unfold HandlerOff
  omega

theorem handlers_congr {h h' : Heap} (same : ∀ o, HandlerOff o → h' d o = h d o) : handlers h' d = handlers h d := by
  have word : ∀ a, (∀ x, a ≤ x → x < a + 4 → HandlerOff x) → h'.get32 d a = h.get32 d a :=
    fun a inside => Mem.getU32_congr (fun x low high => same x (inside x low high))
  have table : ∀ start count, (∀ x, start ≤ x → x < start + count * 4 → HandlerOff x) →
      longs h' d start count = longs h d start count :=
    fun start count inside => longs_congr (fun x low high => same x (inside x low high))
  have traps : (List.range' 1 15).map (Fields.trapEntry h' d) = (List.range' 1 15).map (Fields.trapEntry h d) := by
    refine List.map_congr_left (fun n member => Fields.trapEntry_congr (fun o low high => same o ?_))
    have bound := List.mem_range'_1.mp member
    unfold HandlerOff Desc.trapSlot Desc.trapTbl at *
    omega
  have signal : h'.get16 d Desc.signal = h.get16 d Desc.signal :=
    Mem.getU16_congr (fun x low high => same x (handler_inside (n := 2) (by decide) x low high))
  have level : h'.get8 d Desc.sigLvl = h.get8 d Desc.sigLvl :=
    Mem.getU8_congr (same _ (handler_inside (n := 1) (by decide) _ (Nat.le_refl _) (Nat.lt_succ_self _)))
  unfold handlers Fields.waitRange
  rw [traps, signal, level, word Desc.sigVec (handler_inside (by decide)),
    word Desc.sigDat (handler_inside (by decide)), word Desc.icptDepth (handler_inside (by decide)),
    word Desc.evMin (handler_inside (by decide)), word Desc.evMax (handler_inside (by decide)),
    table Desc.except 10 (handler_inside (by decide)), table Desc.exStk 10 (handler_inside (by decide)),
    table Desc.trapSize 15 (handler_inside (by decide))]

theorem handlers_bytes {h h' : Heap} (same : handlers h' d = handlers h d) {o : Nat} (here : HandlerOff o) :
    h' d o = h d o := by
  simp only [handlers, Handlers.mk.injEq] at same
  obtain ⟨signal, vector, dataPtr, -, -, -, except, exStk, trap, trapSize⟩ := same
  have entry : ∀ n, 1 ≤ n → n ≤ 15 → Fields.trapEntry h' d n = Fields.trapEntry h d n :=
    fun n low high => List.map_inj_left.mp trap n (List.mem_range'_1.mpr ⟨low, by omega⟩)
  have table : 0x1CC ≤ o → o < 0x280 → h' d o = h d o := by
    intro low high
    have words := entry ((o - 0x1CC) / 12 + 1) (by omega) (by omega)
    simp only [Fields.trapEntry, Fields.TrapEntry.mk.injEq, Desc.trapSlot, Desc.trapTbl, Desc.trapModPtr,
      Desc.trapExecEntry, Desc.trapStaticPtr] at words
    obtain ⟨modPtr, execEntry, staticPtr⟩ := words
    by_cases first : (o - 0x1CC) % 12 < 4
    · exact Mem.getU32_bytes modPtr (by omega) (by omega)
    · by_cases second : (o - 0x1CC) % 12 < 8
      · exact Mem.getU32_bytes execEntry (by omega) (by omega)
      · exact Mem.getU32_bytes staticPtr (by omega) (by omega)
  unfold HandlerOff at here
  unfold Desc.signal at signal
  unfold Desc.sigVec at vector
  unfold Desc.sigDat at dataPtr
  unfold Desc.except at except
  unfold Desc.exStk at exStk
  unfold Desc.trapSize at trapSize
  by_cases inSignal : o < 0x28
  · exact Mem.getU16_bytes signal (by omega) (by omega)
  by_cases inVector : o < 0x2C
  · exact Mem.getU32_bytes vector (by omega) (by omega)
  by_cases inData : o < 0x30
  · exact Mem.getU32_bytes dataPtr (by omega) (by omega)
  by_cases inExcept : o < 0x64
  · exact longs_bytes except (by omega) (by omega)
  by_cases inStack : o < 0x8C
  · exact longs_bytes exStk (by omega) (by omega)
  by_cases inTable : o < 0x280
  · exact table (by omega) inTable
  · exact longs_bytes trapSize (by omega) (by omega)

/-- Every signal sent to any process from now on has the same answer and the same effect on
everything but the unused bytes of `d`. -/
def SendsAlike (d : Nat) (k k' : Kernel) : Prop :=
  ∀ pid signals, (sendAll k' pid signals).1 = (sendAll k pid signals).1 ∧
    Twin d Sent (sendAll k pid signals).2 (sendAll k' pid signals).2

/-- The child of a fork takes over the handler fields its slot was left with, and nothing else of
it shows: they are what two kernels must share for their children to be alike. -/
theorem fork_inherits_handlers {k : Kernel} {h : Heap} {args : Kernel.ForkArgs} {pid : Nat}
    (running : k.proc ≠ k.poolFree) (sentinel : readyQ ≠ k.poolFree)
    (differ : SameBut k.poolFree (fun o => o < 4) k.desc h) (forked : (k.procFork args).1 = .ok pid) :
    ({ k with desc := h }.procFork args).1 = .ok pid ∧
      ((handlers ({ k with desc := h }.procFork args).2.desc k.poolFree =
            handlers (k.procFork args).2.desc k.poolFree ∧
          SendsAlike k.poolFree (k.procFork args).2 ({ k with desc := h }.procFork args).2) ↔
        ∀ o, HandlerOff o → h k.poolFree o = k.desc k.poolFree o) := by
  have twin : Twin k.poolFree (fun o => o < 4) k { k with desc := h } := ⟨rfl, differ⟩
  have forked' := (procFork_twin twin (fun _ low => low) args rfl running sentinel forked).1
  refine ⟨forked', fun ⟨same, _⟩ o here => ?_, fun agree => ?_⟩
  · rw [← procFork_agree k args forked _ o (handler_forkKept here), ← handlers_bytes same here]
    exact (procFork_agree { k with desc := h } args forked' _ o (handler_forkKept here)).symm
  · have more : Twin k.poolFree (fun o => o < 4 ∨ HandlerOff o) k { k with desc := h } := by
      refine ⟨rfl, differ.others, fun o here => ?_⟩
      exact here.elim (differ.inside o) (agree o)
    have alike := (procFork_twin more (fun _ low => Or.inl low) args rfl running sentinel forked).2
    have wider : ∀ o, Sent o → (o < 4 ∨ HandlerOff o) ∨ Written o := by
      intro o here
      simp only [Sent, HandlerOff, Written] at *
      omega
    generalize (k.procFork args).2 = child at *
    generalize ({ k with desc := h }.procFork args).2 = child' at *
    refine ⟨handlers_congr (fun o here => alike.desc.inside o (Or.inl (Or.inr here))), fun pid signals => ?_⟩
    exact sendAll_twin pid signals sentinel (alike.weaken wider)

/-! ### A slot left by a process with an intercept routine -/

/-- A machine with one free slot, one free block of memory and the module `m`. -/
def oneFree : Kernel :=
  let ram : Mem := fun _ => 0
  let ram := (ram.setU32 Arena.arenaHead 0x20000).setU32 0x20004 0x1000
  let ram := (ram.setU32 (0x8000 + Mh.size) 0x100).setU32 (0x8000 + Mh.name) 0x50
  let ram := ((ram.setU32 (0x8000 + Mh.mem) 0x40).setU32 (0x8000 + Mh.stack) 0x100).setU32 (0x8000 + Mh.exec) 0x60
  let ram := (ram.setU8 0x8050 0x6D).setU8 0x7000 0x6D
  let entries := Heap.set32 (fun _ _ => 0) 0x3000 ModDir.hdrPtr 0x8000
  { Kernel.zeroed 0x10000 1 with poolFree := 0x10000, ram := ram, mods := ⟨0x3000, 0, entries⟩ }

def oneArgs : Kernel.ForkArgs := ⟨0, 0, 0, 0x7000, 0, 5, 0⟩

theorem oneFree_forks : ∃ pid, (oneFree.procFork oneArgs).1 = .ok pid := by
  have image : ∃ image, (Kernel.forkImage oneFree.mods oneFree.ram oneArgs).1 = .ok image := by
    refine @Kernel.forkImage_ok oneFree.mods oneFree.ram oneArgs 0x8000 0x140 0x20000 ?_ ?_ ?_ ?_ ?_ ?_
    all_goals decide
  obtain ⟨image, ready⟩ := image
  exact ⟨_, congrArg Prod.fst (Kernel.procFork_image ready (by decide))⟩

/-- The slot with one long word of a process that is gone. -/
def left (o v : Nat) : Heap := oneFree.desc.set32 0x10000 o v

theorem left_differs {o : Nat} (behind : 4 ≤ o) (v : Nat) :
    SameBut oneFree.poolFree (fun o => o < 4) oneFree.desc (left o v) where
  others _ other := set32_block _ _ _ other
  inside x low := set32_off _ _ _ _ (Or.inl (by omega))

/-- Slots that differ in the saved stack pointer only: the children agree. -/
theorem fork_inherits_same_handlers :
    left Desc.savedSp 0x9000 ≠ oneFree.desc ∧
      ∃ pid, ({ oneFree with desc := left Desc.savedSp 0x9000 }.procFork oneArgs).1 = .ok pid ∧
        SendsAlike 0x10000 (oneFree.procFork oneArgs).2
          ({ oneFree with desc := left Desc.savedSp 0x9000 }.procFork oneArgs).2 := by
  refine ⟨fun same => absurd (congrFun (congrFun same 0x10000) (Desc.savedSp + 2)) (by decide), ?_⟩
  obtain ⟨pid, forked⟩ := oneFree_forks
  have inherits := fork_inherits_handlers (by decide) (by decide)
    (left_differs (o := Desc.savedSp) (by decide) 0x9000) forked
  refine ⟨pid, inherits.1, (inherits.2.mpr (fun o here => set32_off _ _ _ _ ?_)).2⟩
  unfold HandlerOff Desc.savedSp at *
  omega

/-- A child starts with the intercept vector of the process that had its slot before. -/
theorem fork_inherits_vector :
    ¬ ∀ (k : Kernel) (h : Heap) (args : Kernel.ForkArgs) (pid : Nat), k.proc ≠ k.poolFree → readyQ ≠ k.poolFree →
      SameBut k.poolFree (fun o => o < 4) k.desc h → (k.procFork args).1 = .ok pid →
      handlers ({ k with desc := h }.procFork args).2.desc k.poolFree = handlers (k.procFork args).2.desc k.poolFree ∧
        SendsAlike k.poolFree (k.procFork args).2 ({ k with desc := h }.procFork args).2 := by
  intro claim
  obtain ⟨pid, forked⟩ := oneFree_forks
  have twin : Twin oneFree.poolFree (fun o => o < 4) oneFree
      { oneFree with desc := left Desc.sigVec 0x9000 } := ⟨rfl, left_differs (o := Desc.sigVec) (by decide) 0x9000⟩
  have forked' := (procFork_twin twin (fun _ low => low) oneArgs rfl (by decide) (by decide) forked).1
  have same := (claim oneFree (left Desc.sigVec 0x9000) oneArgs pid (by decide) (by decide)
    (left_differs (o := Desc.sigVec) (by decide) 0x9000) forked).1
  have here : HandlerOff 0x2A := by
    unfold HandlerOff
    omega
  have byte := handlers_bytes same here
  rw [procFork_agree oneFree oneArgs forked _ _ (handler_forkKept here),
    procFork_agree { oneFree with desc := left Desc.sigVec 0x9000 } oneArgs forked' _ _ (handler_forkKept here)] at byte
  revert byte
  decide

end Q9OS.Leak

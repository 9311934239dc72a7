import Mathlib.Tactic
import Q9OS.Lib.Run
import Q9OS.Memory.Tables
import Q9OS.Module.Seal

/-!
# The directory as a ledger

What the module directory is for: each entered module has an entry that counts
its links, and an entry that is not permanent goes with its last link. The linked
lists of `q9kernel_moddir.c` keep this ledger.
-/

namespace Q9OS

/-- An entry of the ledger. Unlinks with no link to take back are not counted. -/
structure Entry where
  slot : Nat
  hdr : Nat
  permanent : Bool
  links : Nat
  unlinks : Nat
  deriving DecidableEq

namespace Entry

def count (e : Entry) : Nat := e.links - e.unlinks

def link (e : Entry) : Entry := { e with links := e.links + 1 }

def unlink (e : Entry) : Entry := if e.unlinks < e.links then { e with unlinks := e.unlinks + 1 } else e

@[simp] theorem link_slot (e : Entry) : e.link.slot = e.slot := rfl

@[simp] theorem unlink_slot (e : Entry) : e.unlink.slot = e.slot := by
  unfold unlink
  split <;> rfl

@[simp] theorem unlink_hdr (e : Entry) : e.unlink.hdr = e.hdr := by
  unfold unlink
  split <;> rfl

@[simp] theorem unlink_permanent (e : Entry) : e.unlink.permanent = e.permanent := by
  unfold unlink
  split <;> rfl

theorem unlink_count (e : Entry) : e.unlink.count = e.count - 1 := by
  unfold unlink count
  split
  · simp only
    omega
  · omega

theorem unlink_le {e : Entry} (le : e.unlinks ≤ e.links) : e.unlink.unlinks ≤ e.unlink.links := by
  unfold unlink
  split
  · next more => exact more
  · exact le

end Entry

def linkEntry (slot : Nat) (ledger : List Entry) : List Entry :=
  ledger.map fun e => if e.slot = slot then e.link else e

/-- Takes a link of the module at `hdr` back; the last one takes the entry away. -/
def unlinkEntry (hdr : Nat) : List Entry → List Entry
  | [] => []
  | e :: rest =>
    if e.hdr = hdr then
      if e.unlink.count = 0 ∧ e.permanent = false then rest else e.unlink :: rest
    else e :: unlinkEntry hdr rest

namespace ModDir

/-- The entry at `e.slot` is the ledger's. -/
structure Shows (h : Heap) (e : Entry) : Prop where
  hdr : h.get32 e.slot hdrPtr = e.hdr
  count : h.get16 e.slot linkCnt = e.count
  permanent : h.get16 e.slot flags % 2 = 1 ↔ e.permanent = true
  counted : e.unlinks ≤ e.links

/-- Directory and free list share out the slots, and the entries are the ledger's. -/
structure Keeps (slots : List Nat) (d : ModDir) (ledger : List Entry) (free : List Nat) : Prop where
  activeList : Linked (fun a => d.entries.get32 a next) 0 d.head (ledger.map Entry.slot)
  freeList : Linked (fun a => d.entries.get32 a next) 0 d.free free
  shared : (ledger.map Entry.slot ++ free).Perm slots
  shows : ∀ e ∈ ledger, Shows d.entries e

/-- The slots of a pool are numbered with 32 bits, and there are fewer than 2^16. -/
structure IsPool (slots : List Nat) : Prop where
  nodup : slots.Nodup
  small : ∀ a ∈ slots, a < 4294967296
  few : slots.length < 65536

variable {slots free : List Nat} {d : ModDir} {ledger : List Entry}

theorem Shows.congr {h h' : Heap} {e : Entry} (same : h' e.slot = h e.slot) (shows : Shows h e) : Shows h' e := by
  obtain ⟨hdr, count, permanent, counted⟩ := shows
  unfold Heap.get32 at hdr
  unfold Heap.get16 at count permanent
  exact ⟨by unfold Heap.get32; rw [same]; exact hdr, by unfold Heap.get16; rw [same]; exact count,
    by unfold Heap.get16; rw [same]; exact permanent, counted⟩

theorem Keeps.nodup (pool : IsPool slots) (keeps : Keeps slots d ledger free) :
    (ledger.map Entry.slot ++ free).Nodup :=
  keeps.shared.nodup_iff.mpr pool.nodup

theorem Keeps.head_lt (pool : IsPool slots) (keeps : Keeps slots d ledger free) : d.head < 4294967296 := by
  have active := keeps.activeList
  cases ledger with
  | nil =>
    have null : d.head = 0 := active
    omega
  | cons e rest =>
    have here : d.head = e.slot := active.1
    rw [here]
    exact pool.small _ (keeps.shared.subset (List.mem_append_left _ List.mem_cons_self))

theorem Keeps.free_lt (pool : IsPool slots) (keeps : Keeps slots d ledger free) : d.free < 4294967296 := by
  have chain := keeps.freeList
  cases free with
  | nil =>
    have null : d.free = 0 := chain
    omega
  | cons a rest =>
    have here : d.free = a := chain.1
    rw [here]
    exact pool.small _ (keeps.shared.subset (List.mem_append_right _ List.mem_cons_self))

/-! ### Entering a module -/

theorem fillEntry_block (h : Heap) (m : Mem) (hdr : Nat) {slot c : Nat} (other : c ≠ slot) :
    fillEntry h m slot hdr c = h c := by
  unfold fillEntry
  rw [Heap.set16_block _ _ _ other, Heap.set16_block _ _ _ other, Heap.set16_block _ _ _ other,
    Heap.set16_block _ _ _ other, Heap.set32_block _ _ _ other]

/-- The entry of a module just entered. -/
theorem listPush_shows (h : Heap) (m : Mem) (head slot : Nat) {hdr : Nat} (small : hdr < 4294967296) :
    Shows ((fillEntry h m slot hdr).set32 slot next head) ⟨slot, hdr, false, 0, 0⟩ := by
  refine ⟨?_, ?_, ?_, le_refl _⟩
  · show Heap.get32 _ slot hdrPtr = hdr
    rw [Heap.get32_set32_off _ _ _ _ (Or.inl (by decide))]
    unfold fillEntry
    simp only
    rw [Heap.get32_set16_off _ _ _ _ (by decide), Heap.get32_set16_off _ _ _ _ (by decide),
      Heap.get32_set16_off _ _ _ _ (by decide), Heap.get32_set16_off _ _ _ _ (by decide),
      Heap.get32_set32_of_lt _ _ _ small]
  · show Heap.get16 _ slot linkCnt = 0
    rw [Heap.get16_set32_off _ _ _ _ (by decide)]
    unfold fillEntry
    simp only
    rw [Heap.get16_set16_off _ _ _ _ (by decide), Heap.get16_set16]
  · show Heap.get16 _ slot flags % 2 = 1 ↔ false = true
    rw [Heap.get16_set32_off _ _ _ _ (by decide)]
    unfold fillEntry
    simp only
    rw [Heap.get16_set16]
    decide

/-- What `add` does with a free slot. -/
theorem add_eq (d : ModDir) (m : Mem) (hdr : Nat) (some : d.free ≠ 0) :
    d.add m hdr = (d.free, ⟨d.free, d.entries.get32 d.free next,
      (fillEntry d.entries m d.free hdr).set32 d.free next d.head⟩) := by
  unfold add poolAlloc
  rw [if_neg some]
  simp only
  rw [if_neg some]
  rfl

theorem add_none {d : ModDir} (m : Mem) (hdr : Nat) (none : d.free = 0) : d.add m hdr = (0, d) := by
  unfold add poolAlloc
  rw [if_pos none]
  exact if_pos rfl

/-- A slot moves from the free list to the head of the directory. -/
theorem Keeps.add (pool : IsPool slots) (keeps : Keeps slots d ledger free) (m : Mem) {hdr : Nat}
    (small : hdr < 4294967296) (some : d.free ≠ 0) :
    ∃ rest, Keeps slots (d.add m hdr).2 (⟨d.free, hdr, false, 0, 0⟩ :: ledger) rest := by
  have chain := keeps.freeList
  cases free with
  | nil => exact absurd chain some
  | cons a rest =>
    have here : d.free = a := chain.1
    have nodup := keeps.nodup pool
    rw [List.nodup_append] at nodup
    obtain ⟨-, freeNodup, apart⟩ := nodup
    rw [add_eq d m hdr some, here]
    have same {c : Nat} (other : c ≠ a) : (fillEntry d.entries m a hdr).set32 a next d.head c = d.entries c := by
      rw [Heap.set32_block _ _ _ other, fillEntry_block _ _ _ other]
    have link {c : Nat} (other : c ≠ a) :
        ((fillEntry d.entries m a hdr).set32 a next d.head).get32 c next = d.entries.get32 c next := by
      unfold Heap.get32
      rw [same other]
    have notActive {c : Nat} (member : c ∈ ledger.map Entry.slot) : c ≠ a :=
      apart c member a List.mem_cons_self
    refine ⟨rest, ⟨?_, ?_, ?_, ?_⟩⟩
    · refine ⟨rfl, chain.2.1, ?_⟩
      show Linked _ 0 (Heap.get32 _ a next) _
      rw [Heap.get32_set32_of_lt _ _ _ (keeps.head_lt pool)]
      exact keeps.activeList.congr (fun c member => link (notActive member))
    · refine Linked.congr (fun c member => link ?_) chain.2.2
      rintro rfl
      exact (List.nodup_cons.mp freeNodup).1 member
    · have moved := keeps.shared
      exact List.perm_middle.symm.trans moved
    · intro e member
      rcases List.mem_cons.mp member with rfl | old
      · exact listPush_shows _ m _ a small
      · exact (keeps.shows e old).congr (same (notActive (List.mem_map_of_mem old)))

/-- A field outside the link changes: the lists stay. -/
theorem Keeps.field {h : Heap} {l : List Entry} (keeps : Keeps slots d ledger free)
    (links : ∀ c, h.get32 c next = d.entries.get32 c next) (same : l.map Entry.slot = ledger.map Entry.slot)
    (shows : ∀ e ∈ l, Shows h e) : Keeps slots { d with entries := h } l free := by
  refine ⟨?_, keeps.freeList.congr (fun c _ => links c), by rw [same]; exact keeps.shared, shows⟩
  rw [same]
  exact keeps.activeList.congr (fun c _ => links c)

/-- A module of the boot list. -/
theorem Keeps.addBoot (pool : IsPool slots) (keeps : Keeps slots d ledger free) (m : Mem) {hdr : Nat}
    (small : hdr < 4294967296) (some : d.free ≠ 0) :
    ∃ rest, Keeps slots (d.addBoot m hdr) (⟨d.free, hdr, true, 0, 0⟩ :: ledger) rest := by
  obtain ⟨rest, added⟩ := keeps.add pool m small some
  have slot : (d.add m hdr).1 = d.free := by rw [add_eq d m hdr some]
  have nodup := added.nodup pool
  refine ⟨rest, ?_⟩
  unfold ModDir.addBoot
  simp only
  rw [slot, if_neg some]
  refine added.field (fun c => Heap.get32_set16_off _ _ _ _ (by decide)) rfl ?_
  intro e member
  rcases List.mem_cons.mp member with rfl | old
  · have shown := added.shows _ List.mem_cons_self
    refine ⟨?_, ?_, ?_, le_refl _⟩
    · rw [Heap.get32_set16_off _ _ _ _ (by decide)]
      exact shown.hdr
    · rw [Heap.get16_set16_off _ _ _ _ (by decide)]
      exact shown.count
    · show Heap.get16 _ d.free flags % 2 = 1 ↔ true = true
      rw [Heap.get16_set16, Nat.mod_mod_of_dvd _ (by decide)]
      exact iff_of_true (Nat.mod_two_eq_one_iff_testBit_zero.mpr (by simp)) rfl
  · have shown := added.shows e (List.mem_cons_of_mem _ old)
    refine shown.congr (Heap.set16_block _ _ _ ?_)
    intro same
    rw [List.map_cons, List.cons_append, List.nodup_cons] at nodup
    have listed : e.slot ∈ ledger.map Entry.slot := List.mem_map_of_mem old
    rw [same] at listed
    exact nodup.1 (List.mem_append_left _ listed)

/-! ### Links -/

theorem findWalk_listed (m : Mem) (desired name : Nat) {fuel slot : Nat} (best revision : Nat) {nodes : List Nat}
    (chain : Linked (fun a => d.entries.get32 a next) 0 slot nodes) :
    d.findWalk m desired name fuel slot best revision = 0 ∨
      d.findWalk m desired name fuel slot best revision = best ∨
      d.findWalk m desired name fuel slot best revision ∈ nodes := by
  induction fuel generalizing slot best revision nodes with
  | zero =>
    unfold findWalk
    split
    · exact Or.inr (Or.inl rfl)
    · exact Or.inl rfl
  | succ fuel ih =>
    unfold findWalk
    cases nodes with
    | nil =>
      have null : slot = 0 := chain
      rw [if_pos null]
      exact Or.inr (Or.inl rfl)
    | cons a rest =>
      obtain ⟨rfl, live, onward⟩ := chain
      rw [if_neg live]
      simp only
      split
      · rcases ih slot _ onward with none | here | later
        · exact Or.inl none
        · rw [here]
          exact Or.inr (Or.inr List.mem_cons_self)
        · exact Or.inr (Or.inr (List.mem_cons_of_mem _ later))
      · rcases ih best _ onward with none | here | later
        · exact Or.inl none
        · exact Or.inr (Or.inl here)
        · exact Or.inr (Or.inr (List.mem_cons_of_mem _ later))

/-- The search finds an entry of the directory. -/
theorem Keeps.found (keeps : Keeps slots d ledger free) (m : Mem) (desired name : Nat)
    (some : d.findSlotByName m desired name ≠ 0) :
    ∃ e ∈ ledger, e.slot = d.findSlotByName m desired name := by
  rcases findWalk_listed m desired name 0 0 keeps.activeList with none | none | listed
  · exact absurd none some
  · exact absurd none some
  · obtain ⟨e, member, is⟩ := List.mem_map.mp listed
    exact ⟨e, member, is⟩

theorem linkEntry_slots (slot : Nat) (ledger : List Entry) :
    (linkEntry slot ledger).map Entry.slot = ledger.map Entry.slot := by
  unfold linkEntry
  rw [List.map_map]
  apply List.map_congr_left
  intro e _
  show Entry.slot (if e.slot = slot then e.link else e) = e.slot
  split <;> rfl

/-- F$Link counts one link of the entry it finds. -/
theorem Keeps.link (keeps : Keeps slots d ledger free) (m : Mem) (desired name : Nat)
    (bound : ∀ e ∈ ledger, e.slot = d.findSlotByName m desired name → e.count + 1 < 65536)
    (some : d.findSlotByName m desired name ≠ 0) :
    Keeps slots (d.linkByName m desired name).2 (linkEntry (d.findSlotByName m desired name) ledger) free := by
  unfold linkByName
  simp only
  rw [if_neg some]
  refine keeps.field (fun c => Heap.get32_set16_off _ _ _ _ (by decide)) (linkEntry_slots _ _) ?_
  intro e member
  obtain ⟨old, within, rfl⟩ := List.mem_map.mp member
  have shown := keeps.shows old within
  split
  · next here =>
    have small := bound old within here
    refine ⟨?_, ?_, ?_, Nat.le_succ_of_le shown.counted⟩
    · rw [Heap.get32_set16_off _ _ _ _ (by decide)]
      exact shown.hdr
    · show Heap.get16 _ old.slot linkCnt = _
      rw [here, Heap.get16_set16, ← here, shown.count, Nat.mod_eq_of_lt small]
      have counted := shown.counted
      unfold Entry.count Entry.link
      simp only
      omega
    · show Heap.get16 _ old.slot flags % 2 = 1 ↔ _
      rw [Heap.get16_set16_off _ _ _ _ (by decide)]
      exact shown.permanent
  · next other => exact shown.congr (Heap.set16_block _ _ _ other)

/-! ### Unlinks -/

theorem queueLimit_eq : queueLimit = 4294967296 := by
  unfold queueLimit
  rfl

/-- The heap after a link was taken back at `slot`. -/
theorem unlinkSlot_shows {h : Heap} {e : Entry} (shows : Shows h e) :
    Shows (h.set16 e.slot linkCnt (h.get16 e.slot linkCnt - 1)) e.unlink := by
  have small := h.get16_lt e.slot linkCnt
  refine ⟨?_, ?_, ?_, Entry.unlink_le shows.counted⟩
  · rw [Entry.unlink_slot, Entry.unlink_hdr, Heap.get32_set16_off _ _ _ _ (by decide)]
    exact shows.hdr
  · rw [Entry.unlink_slot, Entry.unlink_count, Heap.get16_set16, ← shows.count]
    exact Nat.mod_eq_of_lt (by omega)
  · rw [Entry.unlink_slot, Entry.unlink_permanent, Heap.get16_set16_off _ _ _ _ (by decide)]
    exact shows.permanent

/-- The ledger with the entry `e` replaced or removed. -/
def afterUnlink (e : Entry) : List Entry := if e.unlink.count = 0 ∧ e.permanent = false then [] else [e.unlink]

theorem unlinkEntry_here (hdr : Nat) (front back : List Entry) (e : Entry) (before : ∀ f ∈ front, f.hdr ≠ hdr)
    (here : e.hdr = hdr) : unlinkEntry hdr (front ++ e :: back) = front ++ afterUnlink e ++ back := by
  induction front with
  | nil =>
    unfold afterUnlink
    rw [List.nil_append, unlinkEntry, if_pos here]
    split <;> rfl
  | cons f front ih =>
    rw [List.cons_append, unlinkEntry, if_neg (before f List.mem_cons_self),
      ih (fun g member => before g (List.mem_cons_of_mem _ member))]
    rfl

theorem unlinkEntry_absent {hdr : Nat} {ledger : List Entry} (absent : ∀ e ∈ ledger, e.hdr ≠ hdr) :
    unlinkEntry hdr ledger = ledger := by
  induction ledger with
  | nil => rfl
  | cons e rest ih =>
    rw [unlinkEntry, if_neg (absent e List.mem_cons_self), ih (fun f member => absent f (List.mem_cons_of_mem _ member))]

/-- The walk stops at the first entry of the module. -/
theorem unlinkWalk_here {hdr fuel prev slot : Nat} {front back : List Entry} {e : Entry}
    (chain : Linked (fun a => d.entries.get32 a next) 0 slot ((front ++ e :: back).map Entry.slot))
    (shows : ∀ f ∈ front ++ e :: back, Shows d.entries f) (before : ∀ f ∈ front, f.hdr ≠ hdr) (here : e.hdr = hdr)
    (fueled : front.length < fuel) :
    d.unlinkWalk hdr fuel prev slot = d.unlinkSlot ((front.getLast?.map Entry.slot).getD prev) e.slot := by
  induction front generalizing fuel prev slot with
  | nil =>
    cases fuel with
    | zero => omega
    | succ fuel =>
      obtain ⟨rfl, live, -⟩ := chain
      have shown := (shows e List.mem_cons_self).hdr
      rw [unlinkWalk, if_neg live, shown, if_pos here]
      rfl
  | cons f front ih =>
    cases fuel with
    | zero => omega
    | succ fuel =>
      obtain ⟨rfl, live, onward⟩ := chain
      have shown := (shows f List.mem_cons_self).hdr
      rw [unlinkWalk, if_neg live, shown, if_neg (before f List.mem_cons_self),
        ih onward (fun g member => shows g (List.mem_cons_of_mem _ member))
          (fun g member => before g (List.mem_cons_of_mem _ member)) (Nat.lt_of_succ_lt_succ fueled)]
      cases front with
      | nil => rfl
      | cons g rest =>
        rw [List.getLast?_cons_cons, List.getLast?_cons]
        rfl

theorem unlinkWalk_absent {hdr fuel prev slot : Nat} {l : List Entry}
    (chain : Linked (fun a => d.entries.get32 a next) 0 slot (l.map Entry.slot))
    (shows : ∀ f ∈ l, Shows d.entries f) (absent : ∀ f ∈ l, f.hdr ≠ hdr) :
    d.unlinkWalk hdr fuel prev slot = d := by
  induction l generalizing fuel prev slot with
  | nil =>
    cases fuel with
    | zero => rfl
    | succ fuel => exact if_pos (show slot = 0 from chain)
  | cons f rest ih =>
    cases fuel with
    | zero => rfl
    | succ fuel =>
      obtain ⟨rfl, live, onward⟩ := chain
      have shown := (shows f List.mem_cons_self).hdr
      rw [unlinkWalk, if_neg live, shown, if_neg (absent f List.mem_cons_self)]
      exact ih onward (fun g member => shows g (List.mem_cons_of_mem _ member))
        (fun g member => absent g (List.mem_cons_of_mem _ member))

/-- A link field is no part of what an entry shows. -/
theorem Shows.setLink {h : Heap} {e : Entry} (shows : Shows h e) (a v : Nat) : Shows (h.set32 a next v) e := by
  refine ⟨?_, ?_, ?_, shows.counted⟩
  · rw [Heap.get32_set32_off _ _ _ _ (by decide)]
    exact shows.hdr
  · rw [Heap.get16_set32_off _ _ _ _ (by decide)]
    exact shows.count
  · rw [Heap.get16_set32_off _ _ _ _ (by decide)]
    exact shows.permanent

/-- Every other entry stands in another slot. -/
theorem Keeps.other (pool : IsPool slots) {front back : List Entry} {e f : Entry}
    (keeps : Keeps slots d (front ++ e :: back) free) (member : f ∈ front ++ back) :
    f.slot ≠ e.slot ∧ Shows d.entries f := by
  have nodup := (List.nodup_append.mp (keeps.nodup pool)).1
  rw [List.map_append, List.map_cons, List.nodup_middle, List.nodup_cons, ← List.map_append] at nodup
  refine ⟨fun same => nodup.1 (same ▸ List.mem_map_of_mem member), keeps.shows f ?_⟩
  rcases List.mem_append.mp member with left | right
  · exact List.mem_append_left _ left
  · exact List.mem_append_right _ (List.mem_cons_of_mem _ right)

/-- The directory with the entry behind `prev` left out. -/
def bypass (d : ModDir) (prev after : Nat) : ModDir :=
  if prev = 0 then { d with head := after } else { d with entries := d.entries.set32 prev next after }

/-- The entry leaves the chain and its slot goes to the front of the free list. -/
theorem Keeps.remove (pool : IsPool slots) {front back : List Entry} {e : Entry}
    (keeps : Keeps slots d (front ++ e :: back) free) :
    Keeps slots
      ((d.bypass ((front.getLast?.map Entry.slot).getD 0) (d.entries.get32 e.slot next)).poolFree e.slot)
      (front ++ back) (e.slot :: free) := by
  have nodup := keeps.nodup pool
  have active := keeps.activeList
  have freeLt := keeps.free_lt pool
  have afterLt := d.entries.get32_lt e.slot next
  have shared : ((front ++ back).map Entry.slot ++ e.slot :: free).Perm slots := by
    refine List.Perm.trans ?_ keeps.shared
    rw [List.map_append, List.map_append, List.map_cons, List.append_assoc, List.append_assoc]
    exact List.Perm.append_left _ List.perm_middle
  have live : e.slot ≠ 0 := active.ne_null (List.mem_map_of_mem (List.mem_append_right _ List.mem_cons_self))
  have fresh := (shared.trans keeps.shared.symm).nodup_iff.mpr nodup
  rw [List.nodup_append] at fresh
  obtain ⟨restNodup, freeNodup, apart⟩ := fresh
  have other {f : Entry} (member : f ∈ front ++ back) : f.slot ≠ e.slot := (keeps.other pool member).1
  have notFree {c : Nat} (member : c ∈ free) : c ≠ e.slot := fun same =>
    (List.nodup_cons.mp freeNodup).1 (same ▸ member)
  have shows {f : Entry} (member : f ∈ front ++ back) : Shows d.entries f := (keeps.other pool member).2
  rcases List.eq_nil_or_concat front with rfl | ⟨front, p, ends⟩
  · rw [List.getLast?_nil, Option.map_none, Option.getD_none]
    unfold bypass
    rw [if_pos rfl]
    have link {c : Nat} (away : c ≠ e.slot) :
        (d.entries.set32 e.slot next d.free).get32 c next = d.entries.get32 c next :=
      Heap.get32_set32_block _ _ _ _ away
    refine ⟨?_, ⟨rfl, live, ?_⟩, shared, fun f member => (shows member).setLink _ _⟩
    · refine Linked.congr (fun c member => link ?_) active.2.2
      obtain ⟨f, within, rfl⟩ := List.mem_map.mp member
      exact other within
    · show Linked _ 0 (Heap.get32 _ e.slot next) free
      rw [poolFree, Heap.get32_set32_of_lt _ _ _ freeLt]
      exact keeps.freeList.congr (fun c member => link (notFree member))
  · rw [List.concat_eq_append] at ends
    subst ends
    have last : ((front ++ [p]).getLast?.map Entry.slot).getD 0 = p.slot := by
      rw [List.getLast?_concat]
      rfl
    have pSlot : p.slot ≠ e.slot := other (List.mem_append_left _ (List.mem_append_right _ List.mem_cons_self))
    have pLive : p.slot ≠ 0 := by
      refine active.ne_null (List.mem_map_of_mem ?_)
      exact List.mem_append_left _ (List.mem_append_right _ List.mem_cons_self)
    rw [List.map_append, List.nodup_append, List.map_append, List.nodup_append] at restNodup
    obtain ⟨⟨-, -, frontApart⟩, -, backApart⟩ := restNodup
    have pFree {c : Nat} (member : c ∈ free) : c ≠ p.slot := fun same =>
      apart p.slot (List.mem_map_of_mem (List.mem_append_left _ (List.mem_append_right _ List.mem_cons_self))) c
        (List.mem_cons_of_mem _ member) same.symm
    rw [last]
    unfold bypass
    rw [if_neg pLive]
    have link {c : Nat} (away : c ≠ e.slot) (off : c ≠ p.slot) :
        ((d.entries.set32 p.slot next (d.entries.get32 e.slot next)).set32 e.slot next d.free).get32 c next =
          d.entries.get32 c next := by
      rw [Heap.get32_set32_block _ _ _ _ away, Heap.get32_set32_block _ _ _ _ off]
    refine ⟨?_, ⟨rfl, live, ?_⟩, shared, fun f member => ((shows member).setLink _ _).setLink _ _⟩
    · have whole : Linked (fun a => d.entries.get32 a next) 0 d.head
          (front.map Entry.slot ++ p.slot :: (e.slot :: back.map Entry.slot)) := by
        simpa using active
      have rest : Linked (fun a => d.entries.get32 a next) 0 (d.entries.get32 e.slot next) (back.map Entry.slot) :=
        whole.drop.2.2.2.2
      have parts : ((front ++ [p]) ++ back).map Entry.slot = front.map Entry.slot ++ p.slot :: back.map Entry.slot := by
        simp
      rw [parts]
      refine whole.replace (fun c member => ?_) ?_ (rest.congr (fun c member => ?_))
      · obtain ⟨f, within, rfl⟩ := List.mem_map.mp member
        exact link (other (List.mem_append_left _ (List.mem_append_left _ within)))
          (frontApart _ member _ List.mem_cons_self)
      · rw [poolFree, Heap.get32_set32_block _ _ _ _ pSlot]
        exact Heap.get32_set32_of_lt _ _ _ afterLt
      · obtain ⟨f, within, rfl⟩ := List.mem_map.mp member
        refine link (other (List.mem_append_right _ within)) (fun same => ?_)
        refine backApart p.slot ?_ f.slot member same.symm
        simp
    · show Linked _ 0 (Heap.get32 _ e.slot next) free
      rw [poolFree, Heap.get32_set32_of_lt _ _ _ freeLt]
      exact keeps.freeList.congr (fun c member => link (notFree member) (pFree member))

/-- F$UnLink on an entry of the directory. -/
theorem Keeps.unlinkSlot (pool : IsPool slots) {front back : List Entry} {e : Entry}
    (keeps : Keeps slots d (front ++ e :: back) free) :
    ∃ free', Keeps slots (d.unlinkSlot ((front.getLast?.map Entry.slot).getD 0) e.slot)
      (front ++ afterUnlink e ++ back) free' := by
  have shown := keeps.shows e (List.mem_append_right _ List.mem_cons_self)
  have count : d.entries.get16 e.slot linkCnt - 1 = e.unlink.count := by
    rw [shown.count, Entry.unlink_count]
  have fixed : Keeps slots { d with entries := d.entries.set16 e.slot linkCnt (d.entries.get16 e.slot linkCnt - 1) }
      (front ++ e.unlink :: back) free := by
    refine keeps.field (fun c => Heap.get32_set16_off _ _ _ _ (by decide)) (by simp) ?_
    intro f member
    rcases List.mem_cons.mp (List.perm_middle.mem_iff.mp member) with rfl | rest
    · exact unlinkSlot_shows shown
    · obtain ⟨away, shows⟩ := keeps.other pool rest
      exact shows.congr (Heap.set16_block _ _ _ away)
  have kept : (d.entries.set16 e.slot linkCnt e.unlink.count).get16 e.slot flags = d.entries.get16 e.slot flags :=
    Heap.get16_set16_off _ _ _ _ (by decide)
  have goes : e.unlink.count = 0 ∧ e.permanent = false ↔
      e.unlink.count = 0 ∧ d.entries.get16 e.slot flags % 2 = 0 := by
    rw [← Bool.not_eq_true, ← shown.permanent]
    omega
  rw [count] at fixed
  unfold ModDir.unlinkSlot afterUnlink
  simp only
  rw [count, kept]
  by_cases last : e.unlink.count = 0 ∧ e.permanent = false
  · rw [if_pos last, if_pos (goes.mp last)]
    have gone := fixed.remove pool
    rw [Entry.unlink_slot] at gone
    refine ⟨e.slot :: free, ?_⟩
    rw [List.append_nil]
    exact gone
  · rw [if_neg last, if_neg (fun is => last (goes.mpr is))]
    refine ⟨free, ?_⟩
    rw [List.append_assoc]
    exact fixed

theorem first_entry (hdr : Nat) (ledger : List Entry) :
    (∀ e ∈ ledger, e.hdr ≠ hdr) ∨
      ∃ front e back, ledger = front ++ e :: back ∧ (∀ f ∈ front, f.hdr ≠ hdr) ∧ e.hdr = hdr := by
  induction ledger with
  | nil => exact Or.inl (fun e member => (List.not_mem_nil member).elim)
  | cons e rest ih =>
    by_cases here : e.hdr = hdr
    · exact Or.inr ⟨[], e, rest, rfl, fun f member => (List.not_mem_nil member).elim, here⟩
    · rcases ih with absent | ⟨front, e', back, rfl, before, found⟩
      · refine Or.inl (fun f member => ?_)
        rcases List.mem_cons.mp member with rfl | later
        · exact here
        · exact absent f later
      · refine Or.inr ⟨e :: front, e', back, rfl, fun f member => ?_, found⟩
        rcases List.mem_cons.mp member with rfl | later
        · exact here
        · exact before f later

theorem Keeps.length_lt (pool : IsPool slots) (keeps : Keeps slots d ledger free) : ledger.length < queueLimit := by
  have total := keeps.shared.length_eq
  have few := pool.few
  rw [List.length_append, List.length_map] at total
  rw [queueLimit_eq]
  omega

/-- F$UnLink is an unlink of the ledger. -/
theorem Keeps.unlink (pool : IsPool slots) (keeps : Keeps slots d ledger free) (hdr : Nat) :
    ∃ free', Keeps slots (d.unlinkByHeader hdr) (unlinkEntry hdr ledger) free' := by
  have short := keeps.length_lt pool
  unfold unlinkByHeader
  rcases first_entry hdr ledger with absent | ⟨front, e, back, rfl, before, here⟩
  · rw [unlinkWalk_absent keeps.activeList keeps.shows absent, unlinkEntry_absent absent]
    exact ⟨free, keeps⟩
  · rw [List.length_append] at short
    rw [unlinkWalk_here keeps.activeList keeps.shows before here (by omega), unlinkEntry_here _ _ _ _ before here]
    exact keeps.unlinkSlot pool

theorem headerListed_of_mem {fuel slot : Nat} {l : List Entry} {e : Entry}
    (chain : Linked (fun a => d.entries.get32 a next) 0 slot (l.map Entry.slot))
    (shows : ∀ f ∈ l, Shows d.entries f) (member : e ∈ l) (fueled : l.length ≤ fuel) :
    d.headerListed e.hdr fuel slot = true := by
  induction l generalizing fuel slot with
  | nil => cases member
  | cons f rest ih =>
    cases fuel with
    | zero => cases fueled
    | succ fuel =>
      obtain ⟨rfl, live, onward⟩ := chain
      have shown := (shows f List.mem_cons_self).hdr
      rw [headerListed, if_neg live, shown]
      by_cases here : f.hdr = e.hdr
      · rw [if_pos here]
      · rw [if_neg here]
        refine ih onward (fun g within => shows g (List.mem_cons_of_mem _ within)) ?_ (Nat.le_of_succ_le_succ fueled)
        rcases List.mem_cons.mp member with rfl | later
        · exact absurd rfl here
        · exact later

/-- F$UnLoad unlinks the module that F$Link would find. -/
theorem Keeps.unload (pool : IsPool slots) (keeps : Keeps slots d ledger free) (m : Mem) {desired name : Nat}
    (named : name ≠ 0) (some : d.findSlotByName m desired name ≠ 0) :
    (d.unloadByName m desired name).2 =
      d.unlinkByHeader (d.entries.get32 (d.findSlotByName m desired name) hdrPtr) := by
  obtain ⟨e, member, is⟩ := keeps.found m desired name some
  have listed := headerListed_of_mem keeps.activeList keeps.shows member (keeps.length_lt pool).le
  have shown := (keeps.shows e member).hdr
  rw [is] at shown
  unfold unloadByName
  rw [if_neg named]
  simp only
  rw [if_neg some, shown, if_pos listed]

end ModDir

/-! ### Runs -/

/-- The directory with its ledger. -/
structure Tracked where
  dir : ModDir
  ledger : List Entry

/-- A call with the memory it finds. -/
inductive ModOp where
  | boot (m : Mem) (hdr : Nat)
  | vmodul (m : Mem) (hdr size : Nat)
  | link (m : Mem) (desired name : Nat)
  | unlink (hdr : Nat)
  | unload (m : Mem) (desired name : Nat)

def enter (slot hdr : Nat) (permanent : Bool) (ledger : List Entry) : List Entry :=
  if slot = 0 then ledger else ⟨slot, hdr, permanent, 0, 0⟩ :: ledger

/-- The module a call takes a link of back. -/
def ModOp.target (d : ModDir) : ModOp → Option Nat
  | .unlink hdr => some hdr
  | .unload m desired name =>
    let slot := d.findSlotByName m desired name
    if name = 0 ∨ slot = 0 then none else some (d.entries.get32 slot ModDir.hdrPtr)
  | _ => none

namespace Tracked

def fresh (h : Heap) (base count : Nat) : Tracked :=
  let pool := buildFreeList h base 16 count
  ⟨⟨0, pool.1, pool.2⟩, []⟩

def unlinked (s : Tracked) (dir : ModDir) : Option Nat → Tracked
  | none => ⟨dir, s.ledger⟩
  | some hdr => ⟨dir, unlinkEntry hdr s.ledger⟩

def step (s : Tracked) (op : ModOp) : Option Tracked :=
  match op with
  | .boot m hdr => some ⟨s.dir.addBoot m hdr, enter (s.dir.add m hdr).1 hdr true s.ledger⟩
  | .vmodul m hdr size =>
    match s.dir.validateAndAdd m hdr size with
    | (.ok _, dir) => some ⟨dir, enter (s.dir.add m hdr).1 hdr false s.ledger⟩
    | (.error _, dir) => some ⟨dir, s.ledger⟩
  | .link m desired name =>
    some ⟨(s.dir.linkByName m desired name).2, linkEntry (s.dir.findSlotByName m desired name) s.ledger⟩
  | .unlink hdr => some (s.unlinked (s.dir.unlinkByHeader hdr) (op.target s.dir))
  | .unload m desired name => some (s.unlinked (s.dir.unloadByName m desired name).2 (op.target s.dir))

/-- A module is entered once while it has an entry, and fewer than 65536 links are out. -/
def Proper (s : Tracked) : ModOp → Prop
  | .boot _ hdr => hdr < 4294967296 ∧ ∀ e ∈ s.ledger, e.hdr ≠ hdr
  | .vmodul _ hdr _ => hdr < 4294967296 ∧ ∀ e ∈ s.ledger, e.hdr ≠ hdr
  | .link m desired name =>
    ∀ e ∈ s.ledger, e.slot = s.dir.findSlotByName m desired name → e.count + 1 < 65536
  | _ => True

/-- The invariant of runs. -/
def Kept (slots : List Nat) (s : Tracked) : Prop :=
  (∃ free, ModDir.Keeps slots s.dir s.ledger free) ∧ (s.ledger.map Entry.hdr).Nodup

end Tracked

theorem validateAndAdd_cases (d : ModDir) (m : Mem) (hdr size : Nat) :
    (∃ e, d.validateAndAdd m hdr size = (.error e, d)) ∨
      d.free ≠ 0 ∧ ∃ v, d.validateAndAdd m hdr size = (.ok v, (d.add m hdr).2) := by
  unfold ModDir.validateAndAdd
  split
  · exact Or.inl ⟨_, rfl⟩
  · split
    · exact Or.inl ⟨_, rfl⟩
    · split
      · exact Or.inl ⟨_, rfl⟩
      · simp only
        split
        · exact Or.inl ⟨_, rfl⟩
        · split
          · exact Or.inl ⟨_, rfl⟩
          · by_cases none : d.free = 0
            · rw [ModDir.add_none m hdr none, if_pos rfl]
              exact Or.inl ⟨_, rfl⟩
            · rw [ModDir.add_eq d m hdr none, if_neg none]
              exact Or.inr ⟨none, _, rfl⟩

theorem linkEntry_hdrs (slot : Nat) (ledger : List Entry) :
    (linkEntry slot ledger).map Entry.hdr = ledger.map Entry.hdr := by
  unfold linkEntry
  rw [List.map_map]
  apply List.map_congr_left
  intro e _
  show Entry.hdr (if e.slot = slot then e.link else e) = e.hdr
  split <;> rfl

theorem linkEntry_absent {slot : Nat} {ledger : List Entry} (absent : ∀ e ∈ ledger, e.slot ≠ slot) :
    linkEntry slot ledger = ledger := by
  unfold linkEntry
  conv_rhs => rw [← List.map_id ledger]
  apply List.map_congr_left
  intro e member
  exact if_neg (absent e member)

theorem unlinkEntry_hdrs (hdr : Nat) (ledger : List Entry) :
    ((unlinkEntry hdr ledger).map Entry.hdr).Sublist (ledger.map Entry.hdr) := by
  induction ledger with
  | nil => exact List.Sublist.refl _
  | cons e rest ih =>
    unfold unlinkEntry
    split
    · split
      · exact List.sublist_cons_self _ _
      · rw [List.map_cons, List.map_cons, Entry.unlink_hdr]
    · exact ih.cons_cons _

namespace Tracked

variable {slots : List Nat} {s s' : Tracked}

theorem unlinked_kept (pool : ModDir.IsPool slots) (kept : Kept slots s) (hdr : Nat) :
    Kept slots (s.unlinked (s.dir.unlinkByHeader hdr) (some hdr)) := by
  obtain ⟨⟨free, keeps⟩, nodup⟩ := kept
  exact ⟨keeps.unlink pool hdr, nodup.sublist (unlinkEntry_hdrs hdr s.ledger)⟩

theorem enter_nodup {slot hdr : Nat} {permanent : Bool} {ledger : List Entry} (nodup : (ledger.map Entry.hdr).Nodup)
    (fresh : ∀ e ∈ ledger, e.hdr ≠ hdr) : ((enter slot hdr permanent ledger).map Entry.hdr).Nodup := by
  unfold enter
  split
  · exact nodup
  · refine List.nodup_cons.mpr ⟨fun member => ?_, nodup⟩
    obtain ⟨e, within, is⟩ := List.mem_map.mp member
    exact fresh e within is

theorem step_kept (pool : ModDir.IsPool slots) (kept : Kept slots s) {op : ModOp} (proper : Proper s op)
    (stepped : s.step op = some s') : Kept slots s' := by
  obtain ⟨⟨free, keeps⟩, nodup⟩ := kept
  cases op with
  | boot m hdr =>
    obtain ⟨small, fresh⟩ := proper
    obtain rfl := Option.some.inj stepped
    refine ⟨?_, enter_nodup nodup fresh⟩
    by_cases none : s.dir.free = 0
    · have same : s.dir.addBoot m hdr = s.dir := by
        unfold ModDir.addBoot
        rw [ModDir.add_none m hdr none]
        rfl
      rw [same, ModDir.add_none m hdr none]
      exact ⟨free, keeps⟩
    · have slot : (s.dir.add m hdr).1 = s.dir.free := by rw [ModDir.add_eq _ m hdr none]
      rw [slot]
      unfold enter
      rw [if_neg none]
      exact keeps.addBoot pool m small none
  | vmodul m hdr size =>
    obtain ⟨small, fresh⟩ := proper
    unfold step at stepped
    rcases validateAndAdd_cases s.dir m hdr size with ⟨e, refused⟩ | ⟨some, v, entered⟩
    · simp only [refused] at stepped
      obtain rfl := Option.some.inj stepped
      exact ⟨⟨free, keeps⟩, nodup⟩
    · simp only [entered] at stepped
      obtain rfl := Option.some.inj stepped
      have slot : (s.dir.add m hdr).1 = s.dir.free := by rw [ModDir.add_eq _ m hdr some]
      refine ⟨?_, enter_nodup nodup fresh⟩
      rw [slot]
      unfold enter
      rw [if_neg some]
      exact keeps.add pool m small some
  | link m desired name =>
    obtain rfl := Option.some.inj stepped
    refine ⟨⟨free, ?_⟩, by rw [linkEntry_hdrs]; exact nodup⟩
    by_cases none : s.dir.findSlotByName m desired name = 0
    · have absent : linkEntry (s.dir.findSlotByName m desired name) s.ledger = s.ledger := by
        rw [none]
        exact linkEntry_absent (fun e member => keeps.activeList.ne_null (List.mem_map_of_mem member))
      have same : (s.dir.linkByName m desired name).2 = s.dir := by
        unfold ModDir.linkByName
        simp only
        rw [if_pos none]
      rw [absent, same]
      exact keeps
    · exact keeps.link m desired name proper none
  | unlink hdr =>
    obtain rfl := Option.some.inj stepped
    exact unlinked_kept pool ⟨⟨free, keeps⟩, nodup⟩ hdr
  | unload m desired name =>
    obtain rfl := Option.some.inj stepped
    unfold ModOp.target
    simp only
    by_cases none : name = 0 ∨ s.dir.findSlotByName m desired name = 0
    · rw [if_pos none]
      have same : (s.dir.unloadByName m desired name).2 = s.dir := by
        unfold ModDir.unloadByName
        split
        · rfl
        · next named =>
          simp only
          rw [if_pos (none.resolve_left named)]
      rw [same]
      exact ⟨⟨free, keeps⟩, nodup⟩
    · rw [if_neg none]
      rw [not_or] at none
      rw [keeps.unload pool m none.1 none.2]
      exact unlinked_kept pool ⟨⟨free, keeps⟩, nodup⟩ _

/-! ### Departures -/

/-- The call takes the last link of an entry that is not permanent. -/
def Removes (s : Tracked) (op : ModOp) (e : Entry) : Prop :=
  e.permanent = false ∧ op.target s.dir = some e.hdr ∧ e.count - 1 = 0

/-- The entry with other counts. -/
def Stays (e : Entry) (ledger : List Entry) : Prop :=
  ∃ e' ∈ ledger, e'.slot = e.slot ∧ e'.hdr = e.hdr ∧ e'.permanent = e.permanent

theorem stays_of_mem {e : Entry} {ledger : List Entry} (member : e ∈ ledger) : Stays e ledger :=
  ⟨e, member, rfl, rfl, rfl⟩

theorem Stays.cons {e : Entry} {ledger : List Entry} (stays : Stays e ledger) (f : Entry) :
    Stays e (f :: ledger) := by
  obtain ⟨e', member, same⟩ := stays
  exact ⟨e', List.mem_cons_of_mem _ member, same⟩

theorem linkEntry_stays {e : Entry} {ledger : List Entry} (slot : Nat) (member : e ∈ ledger) :
    Stays e (linkEntry slot ledger) := by
  refine ⟨_, List.mem_map_of_mem member, ?_⟩
  split <;> exact ⟨rfl, rfl, rfl⟩

theorem enter_stays {e : Entry} {ledger : List Entry} (slot hdr : Nat) (permanent : Bool) (member : e ∈ ledger) :
    Stays e (enter slot hdr permanent ledger) := by
  unfold enter
  split
  · exact stays_of_mem member
  · exact (stays_of_mem member).cons _

/-- One entry of the module at `hdr` is in the ledger, and the unlink is about that one. -/
theorem unlinkEntry_departs {hdr : Nat} {e : Entry} {ledger : List Entry} (slots : (ledger.map Entry.slot).Nodup)
    (hdrs : (ledger.map Entry.hdr).Nodup) (member : e ∈ ledger) :
    (e.permanent = false ∧ hdr = e.hdr ∧ e.count - 1 = 0 → e.slot ∉ (unlinkEntry hdr ledger).map Entry.slot) ∧
      (¬(e.permanent = false ∧ hdr = e.hdr ∧ e.count - 1 = 0) → Stays e (unlinkEntry hdr ledger)) := by
  induction ledger with
  | nil => cases member
  | cons f rest ih =>
    obtain ⟨slotFresh, slotRest⟩ := List.nodup_cons.mp slots
    obtain ⟨hdrFresh, hdrRest⟩ := List.nodup_cons.mp hdrs
    unfold unlinkEntry
    rw [Entry.unlink_count]
    rcases List.mem_cons.mp member with rfl | later
    · by_cases here : e.hdr = hdr
      · rw [if_pos here]
        by_cases last : e.count - 1 = 0 ∧ e.permanent = false
        · rw [if_pos last]
          exact ⟨fun _ => slotFresh, fun not => absurd ⟨last.2, here.symm, last.1⟩ not⟩
        · rw [if_neg last]
          refine ⟨fun is => absurd ⟨is.2.2, is.1⟩ last, fun _ => ⟨e.unlink, List.mem_cons_self, ?_⟩⟩
          simp
      · rw [if_neg here]
        exact ⟨fun is => absurd is.2.1.symm here, fun _ => stays_of_mem List.mem_cons_self⟩
    · have slotOther : e.slot ≠ f.slot := fun same => slotFresh (same ▸ List.mem_map_of_mem later)
      have hdrOther : e.hdr ≠ f.hdr := fun same => hdrFresh (same ▸ List.mem_map_of_mem later)
      by_cases here : f.hdr = hdr
      · rw [if_pos here]
        refine ⟨fun is => absurd (here.trans is.2.1).symm hdrOther, fun _ => ?_⟩
        split
        · exact stays_of_mem later
        · exact (stays_of_mem later).cons _
      · rw [if_neg here]
        obtain ⟨gone, stays⟩ := ih slotRest hdrRest later
        refine ⟨fun is => ?_, fun not => (stays not).cons _⟩
        rw [List.map_cons, List.mem_cons, not_or]
        exact ⟨slotOther, gone is⟩

theorem step_departs (pool : ModDir.IsPool slots) (kept : Kept slots s) {op : ModOp}
    (stepped : s.step op = some s') {e : Entry} (member : e ∈ s.ledger) :
    (s.Removes op e → e.slot ∉ s'.ledger.map Entry.slot) ∧ (¬s.Removes op e → Stays e s'.ledger) := by
  obtain ⟨⟨free, keeps⟩, hdrs⟩ := kept
  have slotsNodup := (List.nodup_append.mp (keeps.nodup pool)).1
  have unlinks (dir : ModDir) (target : Option Nat) :
      (e.permanent = false ∧ target = some e.hdr ∧ e.count - 1 = 0 →
        e.slot ∉ (s.unlinked dir target).ledger.map Entry.slot) ∧
      (¬(e.permanent = false ∧ target = some e.hdr ∧ e.count - 1 = 0) → Stays e (s.unlinked dir target).ledger) := by
    cases target with
    | none => exact ⟨fun is => (Option.some_ne_none _ is.2.1.symm).elim, fun _ => stays_of_mem member⟩
    | some hdr =>
      rw [Option.some.injEq]
      exact unlinkEntry_departs slotsNodup hdrs member
  unfold Removes
  cases op with
  | boot m hdr =>
    obtain rfl := Option.some.inj stepped
    exact ⟨fun is => (Option.some_ne_none _ is.2.1.symm).elim, fun _ => enter_stays _ _ _ member⟩
  | vmodul m hdr size =>
    refine ⟨fun is => (Option.some_ne_none _ is.2.1.symm).elim, fun _ => ?_⟩
    unfold step at stepped
    rcases validateAndAdd_cases s.dir m hdr size with ⟨_, refused⟩ | ⟨_, _, entered⟩
    · simp only [refused] at stepped
      obtain rfl := Option.some.inj stepped
      exact stays_of_mem member
    · simp only [entered] at stepped
      obtain rfl := Option.some.inj stepped
      exact enter_stays _ _ _ member
  | link m desired name =>
    obtain rfl := Option.some.inj stepped
    exact ⟨fun is => (Option.some_ne_none _ is.2.1.symm).elim, fun _ => linkEntry_stays _ member⟩
  | unlink hdr =>
    obtain rfl := Option.some.inj stepped
    exact unlinks _ _
  | unload m desired name =>
    obtain rfl := Option.some.inj stepped
    exact unlinks _ _

/-! ### The directory in every run -/

theorem poolSlots_isPool (h : Heap) {base count : Nat} (placed : 0 < base) (few : count < 65536)
    (fits : base + 16 * count ≤ 4294967296) : ModDir.IsPool (poolSlots 16 count base) := by
  refine ⟨(buildFreeList_linked h (by decide) placed fits).nodup, fun a member => ?_, ?_⟩
  · have bound := (poolSlots_bounds member).2 (by decide)
    omega
  · rw [poolSlots_length]
    exact few

theorem fresh_kept (h : Heap) {base count : Nat} (placed : 0 < base) (fits : base + 16 * count ≤ 4294967296) :
    Kept (poolSlots 16 count base) (fresh h base count) := by
  refine ⟨⟨_, rfl, buildFreeList_linked h (by decide) placed fits, List.Perm.refl _, ?_⟩, List.nodup_nil⟩
  intro e member
  cases member

/-- The lists share out the pool, the entries count their links, and an entry leaves with its last link only. -/
theorem directory_keeps_ledger (h : Heap) {base count : Nat} (placed : 0 < base) (few : count < 65536)
    (fits : base + 16 * count ≤ 4294967296) {ops : List ModOp}
    (meets : RunMeets step Proper (fresh h base count) ops) (ran : run step (fresh h base count) ops = some s) :
    (∃ free,
      Linked (fun a => s.dir.entries.get32 a ModDir.next) 0 s.dir.head (s.ledger.map Entry.slot) ∧
      Linked (fun a => s.dir.entries.get32 a ModDir.next) 0 s.dir.free free ∧
      (s.ledger.map Entry.slot ++ free).Nodup ∧
      (s.ledger.map Entry.slot ++ free).Perm (poolSlots 16 count base)) ∧
    (∀ e ∈ s.ledger, s.dir.entries.get32 e.slot ModDir.hdrPtr = e.hdr ∧
      s.dir.entries.get16 e.slot ModDir.linkCnt = e.links - e.unlinks ∧ e.unlinks ≤ e.links ∧
      (s.dir.entries.get16 e.slot ModDir.flags % 2 = 1 ↔ e.permanent = true)) ∧
    ∀ op s', s.step op = some s' → ∀ e ∈ s.ledger,
      (s.Removes op e → e.slot ∉ s'.ledger.map Entry.slot) ∧ (¬s.Removes op e → Stays e s'.ledger) := by
  have pool := poolSlots_isPool h placed few fits
  have kept : Kept (poolSlots 16 count base) s :=
    run_invariant (fun _ _ _ kept proper stepped => step_kept pool kept proper stepped) (fresh_kept h placed fits)
      meets ran
  refine ⟨?_, ?_, fun op s' stepped e member => step_departs pool kept stepped member⟩
  · obtain ⟨⟨free, keeps⟩, -⟩ := kept
    exact ⟨free, keeps.activeList, keeps.freeList, keeps.nodup pool, keeps.shared⟩
  · intro e member
    obtain ⟨⟨free, keeps⟩, -⟩ := kept
    obtain ⟨hdr, count, permanent, counted⟩ := keeps.shows e member
    exact ⟨hdr, count, counted, permanent⟩

/-- A module of 52 bytes at $100 with the name `a`, and the same name at $200. -/
def namedModule : Mem :=
  (((Mem.setU32 (fun _ => 0) 0x104 0x34).setU32 0x10C 0x30).setU8 0x130 0xE1).setU8 0x200 0x61 |>.setU16 0x100 0x4AFC

def sealedModule : Mem := (modSetCRC namedModule 0x100).2

/-- The directory with a boot module, with the other one entered, and with that one linked. -/
def booted : Tracked := ⟨(fresh (fun _ _ => 0) 64 2).dir.addBoot (fun _ => 0) 4096, [⟨64, 4096, true, 0, 0⟩]⟩

def stocked : Tracked := ⟨(booted.dir.add sealedModule 0x100).2, ⟨80, 0x100, false, 0, 0⟩ :: booted.ledger⟩

def linked : Tracked :=
  ⟨(stocked.dir.linkByName sealedModule 0 0x200).2, [⟨80, 0x100, false, 1, 0⟩, ⟨64, 4096, true, 0, 0⟩]⟩

theorem booted_enters : booted.step (.vmodul sealedModule 0x100 0x34) = some stocked := by
  have image : Sealable namedModule 0x100 := ⟨by decide, by decide, by decide, by decide⟩
  have size : sealedModule.getU32 (0x100 + Mh.size) = 0x34 := (modSetCRC_size image).trans (by decide)
  have residue := modSetCRC_residue image
  rw [show namedModule.getU32 (0x100 + Mh.size) = 0x34 by decide] at residue
  have accepted : booted.dir.validateAndAdd sealedModule 0x100 0x34 =
      (.ok ⟨0x100, 0, sealedModule.getU16 (0x100 + Mh.tyLang)⟩, (booted.dir.add sealedModule 0x100).2) :=
    validateAndAdd_ok image.placed (modSetCRC_sync image) (modSetCRC_header image) (le_of_le_of_eq (by decide) size.symm)
      size.le (size ▸ residue) (by decide)
  unfold step
  simp only [accepted]
  rfl

theorem fresh_boots : (fresh (fun _ _ => 0) 64 2).step (.boot (fun _ => 0) 4096) = some booted := rfl

theorem stocked_links : stocked.step (.link sealedModule 0 0x200) = some linked := by
  have found : stocked.dir.findSlotByName sealedModule 0 0x200 = 80 := by decide
  unfold step
  simp only [found]
  rfl

def bootRun : List ModOp := [.boot (fun _ => 0) 4096, .vmodul sealedModule 0x100 0x34, .link sealedModule 0 0x200]

theorem bootRun_proper : RunMeets step Proper (fresh (fun _ _ => 0) 64 2) bootRun := by
  refine ⟨⟨by decide, fun e member => by cases member⟩, ?_⟩
  rintro s ran
  obtain rfl : booted = s := Option.some.inj (fresh_boots.symm.trans ran)
  refine ⟨⟨by decide, fun e member => ?_⟩, ?_⟩
  · rw [List.mem_singleton.mp member]
    decide
  rintro s ran
  obtain rfl : stocked = s := Option.some.inj (booted_enters.symm.trans ran)
  refine ⟨fun e member _ => ?_, fun _ _ => trivial⟩
  rcases List.mem_cons.mp member with rfl | old
  · decide
  · rw [List.mem_singleton.mp old]
    decide

/-- The module leaves the directory with its only link, the boot module stays. -/
theorem directory_keeps_bootRun :
    run step (fresh (fun _ _ => 0) 64 2) bootRun = some linked ∧
      ∃ s, linked.step (.unlink 0x100) = some s ∧ 80 ∉ s.ledger.map Entry.slot ∧
        Stays ⟨64, 4096, true, 0, 0⟩ s.ledger := by
  have ran : run step (fresh (fun _ _ => 0) 64 2) bootRun = some linked :=
    run_step fresh_boots (run_step booted_enters (run_step stocked_links rfl))
  have holds := directory_keeps_ledger (fun _ _ => 0) (by decide) (by decide) (by decide) bootRun_proper ran
  refine ⟨ran, _, rfl, ?_, ?_⟩
  · exact (holds.2.2 (.unlink 0x100) _ rfl ⟨80, 0x100, false, 1, 0⟩ List.mem_cons_self).1 ⟨rfl, rfl, by decide⟩
  · refine (holds.2.2 (.unlink 0x100) _ rfl ⟨64, 4096, true, 0, 0⟩ (List.mem_cons_of_mem _ (List.mem_singleton_self _))).2
      (fun removes => ?_)
    cases removes.1

end Tracked

end Q9OS

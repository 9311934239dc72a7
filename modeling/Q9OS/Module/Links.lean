import Q9OS.Module.Ledger

/-!
# Several links given back

A process that ends or goes on with another program takes the links of several
modules back, some of the same module perhaps. Each entry loses as many links as
its module is named, and what is left does not depend on the order.
-/

namespace Q9OS

/-- F$UnLink for each of the modules. -/
def unlinkEntries (hdrs : List Nat) (ledger : List Entry) : List Entry := hdrs.foldl (fun l hdr => unlinkEntry hdr l) ledger

@[simp] theorem unlinkEntries_nil (ledger : List Entry) : unlinkEntries [] ledger = ledger := rfl

@[simp] theorem unlinkEntries_cons (hdr : Nat) (hdrs : List Nat) (ledger : List Entry) :
    unlinkEntries (hdr :: hdrs) ledger = unlinkEntries hdrs (unlinkEntry hdr ledger) := rfl

/-- What `n` unlinks leave of an entry: nothing when they take the last link and it is not permanent. -/
def Leaves (e : Entry) (n : Nat) (ledger : List Entry) : Prop :=
  if 0 < n ∧ e.count ≤ n ∧ e.permanent = false then e.slot ∉ ledger.map Entry.slot
  else ∃ e' ∈ ledger, e'.slot = e.slot ∧ e'.hdr = e.hdr ∧ e'.permanent = e.permanent ∧ e'.count = e.count - n

theorem unlinkEntry_slots (hdr : Nat) (ledger : List Entry) :
    ((unlinkEntry hdr ledger).map Entry.slot).Sublist (ledger.map Entry.slot) := by
  induction ledger with
  | nil => exact List.Sublist.refl _
  | cons e rest ih =>
    unfold unlinkEntry
    split
    · split
      · exact List.sublist_cons_self _ _
      · simp
    · exact ih.cons_cons _

theorem unlinkEntries_slots (hdrs : List Nat) (ledger : List Entry) :
    ((unlinkEntries hdrs ledger).map Entry.slot).Sublist (ledger.map Entry.slot) := by
  induction hdrs generalizing ledger with
  | nil => exact List.Sublist.refl _
  | cons hdr hdrs ih => exact (ih _).trans (unlinkEntry_slots hdr ledger)

section Entries
variable {ledger : List Entry} {e : Entry} (slots : (ledger.map Entry.slot).Nodup) (hdrs : (ledger.map Entry.hdr).Nodup)
include slots hdrs

theorem unlinkEntry_leaves (hdr : Nat) (member : e ∈ ledger) :
    Leaves e (if hdr = e.hdr then 1 else 0) (unlinkEntry hdr ledger) := by
  obtain ⟨front, back, rfl⟩ := List.append_of_mem member
  have others : ∀ f ∈ front ++ back, f.slot ≠ e.slot ∧ f.hdr ≠ e.hdr := by
    rw [List.map_append, List.map_cons, List.nodup_middle, List.nodup_cons, ← List.map_append] at slots hdrs
    intro f other
    refine ⟨fun same => slots.1 ?_, fun same => hdrs.1 ?_⟩
    · exact same ▸ List.mem_map_of_mem other
    · exact same ▸ List.mem_map_of_mem other
  unfold Leaves
  by_cases here : hdr = e.hdr
  · have before : ∀ f ∈ front, f.hdr ≠ hdr := fun f within => here ▸ (others f (by simp [within])).2
    rw [if_pos here, ModDir.unlinkEntry_here hdr front back e before here.symm]
    unfold ModDir.afterUnlink
    rw [e.unlink_count]
    by_cases last : e.count - 1 = 0 ∧ e.permanent = false
    · obtain ⟨none, loose⟩ := last
      rw [if_pos ⟨Nat.one_pos, by omega, loose⟩, if_pos ⟨none, loose⟩, List.append_nil]
      intro listed
      obtain ⟨f, within, same⟩ := List.mem_map.mp listed
      exact (others f within).1 same
    · rw [if_neg (fun gone => last ⟨by omega, gone.2.2⟩), if_neg last]
      exact ⟨e.unlink, by simp, e.unlink_slot, e.unlink_hdr, e.unlink_permanent, e.unlink_count⟩
  · rw [if_neg here, if_neg (fun gone => absurd gone.1 (Nat.lt_irrefl 0))]
    refine ⟨e, ?_, rfl, rfl, rfl, rfl⟩
    rcases ModDir.first_entry hdr (front ++ e :: back) with absent | ⟨early, f, late, cut, before, found⟩
    · rw [ModDir.unlinkEntry_absent absent]
      exact member
    · have other : e ≠ f := by
        rintro rfl
        exact here found.symm
      rw [cut, ModDir.unlinkEntry_here hdr early late f before found]
      rw [cut] at member
      have kept : e ∈ early ∨ e ∈ late := by simpa [other] using member
      rcases kept with left | right
      · exact List.mem_append_left _ (List.mem_append_left _ left)
      · exact List.mem_append_right _ right

/-- Each entry loses as many links as its module is named. -/
theorem unlinkEntries_leaves (back : List Nat) (member : e ∈ ledger) :
    Leaves e (back.count e.hdr) (unlinkEntries back ledger) := by
  induction back generalizing ledger e with
  | nil =>
    unfold Leaves
    rw [List.count_nil, if_neg (fun gone => absurd gone.1 (Nat.lt_irrefl 0))]
    exact ⟨e, member, rfl, rfl, rfl, rfl⟩
  | cons hdr back ih =>
    have first := unlinkEntry_leaves slots hdrs hdr member
    have shrinks := unlinkEntries_slots back (unlinkEntry hdr ledger)
    have later := @ih (unlinkEntry hdr ledger)
    simp only [unlinkEntries_cons, List.count_cons, beq_iff_eq]
    rw [Nat.add_comm]
    unfold Leaves at first later ⊢
    generalize (if hdr = e.hdr then 1 else 0) = n at first ⊢
    by_cases gone : 0 < n ∧ e.count ≤ n ∧ e.permanent = false
    · obtain ⟨some, few, loose⟩ := gone
      rw [if_pos ⟨some, few, loose⟩] at first
      rw [if_pos ⟨by omega, by omega, loose⟩]
      exact fun listed => first (shrinks.subset listed)
    · rw [if_neg gone] at first
      obtain ⟨e', within, slot, is, permanent, count⟩ := first
      have rest := later (slots.sublist (unlinkEntry_slots hdr ledger)) (hdrs.sublist (unlinkEntry_hdrs hdr ledger)) within
      rw [slot, is, permanent, count] at rest
      by_cases last : 0 < List.count e.hdr back ∧ e.count - n ≤ List.count e.hdr back ∧ e.permanent = false
      · rw [if_pos last] at rest
        rw [if_pos ⟨by omega, by omega, last.2.2⟩]
        exact rest
      · rw [if_neg last] at rest
        have stays : ¬ (0 < n + List.count e.hdr back ∧ e.count ≤ n + List.count e.hdr back ∧ e.permanent = false) := by
          rintro ⟨some, few, loose⟩
          by_cases none : List.count e.hdr back = 0
          · exact gone ⟨by omega, by omega, loose⟩
          · exact last ⟨by omega, by omega, loose⟩
        rw [if_neg stays, ← Nat.sub_sub]
        exact rest

end Entries

namespace ModDir

variable {slots free : List Nat} {d : ModDir} {ledger : List Entry}

theorem Keeps.unlinks (pool : IsPool slots) (keeps : Keeps slots d ledger free) (hdrs : List Nat) :
    ∃ free', Keeps slots (hdrs.foldl unlinkByHeader d) (unlinkEntries hdrs ledger) free' := by
  induction hdrs generalizing d ledger free with
  | nil => exact ⟨free, keeps⟩
  | cons hdr hdrs ih =>
    obtain ⟨free', once⟩ := keeps.unlink pool hdr
    exact ih once

/-- The directory after one link is taken in `slot` and one is given back for each of `hdrs`: every
entry counts its own, and one whose last link goes is gone unless it is permanent. -/
def Relinked (slots : List Nat) (ledger : List Entry) (slot : Nat) (hdrs : List Nat) (d : ModDir) : Prop :=
  ∃ ledger' free', Keeps slots d ledger' free' ∧ (ledger'.map Entry.slot).Sublist (ledger.map Entry.slot) ∧
    ∀ e ∈ ledger, Leaves (if e.slot = slot then e.link else e) (hdrs.count e.hdr) ledger'

theorem Keeps.relinked (pool : IsPool slots) (keeps : Keeps slots d ledger free) (once : (ledger.map Entry.hdr).Nodup)
    (m : Mem) (desired name : Nat) (bound : ∀ e ∈ ledger, e.slot = d.findSlotByName m desired name → e.count + 1 < 65536)
    (some : d.findSlotByName m desired name ≠ 0) (hdrs : List Nat) :
    Relinked slots ledger (d.findSlotByName m desired name) hdrs (hdrs.foldl unlinkByHeader (d.linkByName m desired name).2) := by
  have linked := keeps.link m desired name bound some
  have slotsOnce := (List.nodup_append.mp (linked.nodup pool)).1
  have hdrsOnce : ((linkEntry (d.findSlotByName m desired name) ledger).map Entry.hdr).Nodup := by
    rw [linkEntry_hdrs]
    exact once
  obtain ⟨free', after⟩ := linked.unlinks pool hdrs
  refine ⟨_, free', after, ?_, fun e member => ?_⟩
  · have shrinks := unlinkEntries_slots hdrs (linkEntry (d.findSlotByName m desired name) ledger)
    rw [linkEntry_slots] at shrinks
    exact shrinks
  · have counted : (if e.slot = d.findSlotByName m desired name then e.link else e) ∈
        linkEntry (d.findSlotByName m desired name) ledger := List.mem_map_of_mem member
    have hdr : (if e.slot = d.findSlotByName m desired name then e.link else e).hdr = e.hdr := by
      split <;> rfl
    have leaves := unlinkEntries_leaves slotsOnce hdrsOnce hdrs counted
    rw [hdr] at leaves
    exact leaves

/-! ### The link that overflows -/

/-- The ledger with the links of one entry forgotten. -/
def forget (slot : Nat) (ledger : List Entry) : List Entry :=
  ledger.map fun e => if e.slot = slot then { e with links := 0, unlinks := 0 } else e

theorem Keeps.overflow (keeps : Keeps slots d ledger free) {slot : Nat}
    (most : ∀ e ∈ ledger, e.slot = slot → e.count = 65535) :
    Keeps slots { d with entries := d.entries.set16 slot linkCnt (d.entries.get16 slot linkCnt + 1) } (forget slot ledger) free := by
  refine keeps.field (fun c => Heap.get32_set16_off _ _ _ _ (by decide)) ?_ ?_
  · unfold forget
    rw [List.map_map]
    refine List.map_congr_left (fun e _ => ?_)
    dsimp only [Function.comp]
    split <;> rfl
  · intro e member
    obtain ⟨old, within, rfl⟩ := List.mem_map.mp member
    have shown := keeps.shows old within
    split
    · next here =>
      refine ⟨?_, ?_, ?_, le_refl _⟩
      · rw [Heap.get32_set16_off _ _ _ _ (by decide)]
        exact shown.hdr
      · show Heap.get16 _ old.slot linkCnt = 0
        rw [here, Heap.get16_set16, ← here, shown.count, most old within here]
      · show Heap.get16 _ old.slot flags % 2 = 1 ↔ _
        rw [Heap.get16_set16_off _ _ _ _ (by decide)]
        exact shown.permanent
    · next other => exact shown.congr (Heap.set16_block _ _ _ other)

/-- Nobody gets the counts right when the count of the linked entry starts over at 0. -/
theorem Relinked.bound (pool : IsPool slots) (keeps : Keeps slots d ledger free) (once : (ledger.map Entry.hdr).Nodup)
    {slot : Nat} {hdrs : List Nat} (few : hdrs.length < 65536)
    (relinked : Relinked slots ledger slot hdrs (hdrs.foldl unlinkByHeader
      { d with entries := d.entries.set16 slot linkCnt (d.entries.get16 slot linkCnt + 1) })) {e : Entry} (member : e ∈ ledger) (here : e.slot = slot) : e.count + 1 < 65536 := by
  by_contra many
  have shown := keeps.shows e member
  have small := d.entries.get16_lt e.slot linkCnt
  rw [shown.count] at small
  have slotsOnce := (List.nodup_append.mp (keeps.nodup pool)).1
  have full : e.count = 65535 := by omega
  have most : ∀ f ∈ ledger, f.slot = slot → f.count = 65535 := by
    intro f within same
    rw [List.inj_on_of_nodup_map slotsOnce within member (same.trans here.symm)]
    exact full
  have wrapped := keeps.overflow most
  obtain ⟨free₁, after⟩ := wrapped.unlinks pool hdrs
  obtain ⟨ledger', free₂, counted, -, leaves⟩ := relinked
  have same := counted.activeList.unique after.activeList
  have named : hdrs.count e.hdr < 65536 := Nat.lt_of_le_of_lt List.count_le_length few
  have expected := leaves e member
  have linked : e.link.count = 65536 := by
    have counts := shown.counted
    unfold Entry.count Entry.link at *
    dsimp only
    omega
  unfold Leaves at expected
  rw [if_pos here, linked, if_neg (by omega)] at expected
  obtain ⟨e', within, slotIs, -, -, count⟩ := expected
  rw [Entry.link_slot] at slotIs
  have zero : ({ e with links := 0, unlinks := 0 } : Entry) ∈ forget slot ledger :=
    List.mem_map.mpr ⟨e, member, if_pos here⟩
  have slotsKept : ((forget slot ledger).map Entry.slot).Nodup := (List.nodup_append.mp (wrapped.nodup pool)).1
  have hdrsKept : ((forget slot ledger).map Entry.hdr).Nodup := by
    have kept : (forget slot ledger).map Entry.hdr = ledger.map Entry.hdr := by
      unfold forget
      rw [List.map_map]
      refine List.map_congr_left (fun f _ => ?_)
      dsimp only [Function.comp]
      split <;> rfl
    rw [kept]
    exact once
  have left := unlinkEntries_leaves slotsKept hdrsKept hdrs zero
  have stands : e.slot ∈ (unlinkEntries hdrs (forget slot ledger)).map Entry.slot := by
    rw [← same, ← slotIs]
    exact List.mem_map_of_mem within
  unfold Leaves at left
  split at left
  · exact left stands
  · obtain ⟨f, withinToo, slotToo, -, -, none⟩ := left
    have one := (counted.shows e' within).count
    have two := (after.shows f withinToo).count
    dsimp only at slotToo
    rw [slotIs, count] at one
    rw [slotToo, none] at two
    have zeroCount : Entry.count { e with links := 0, unlinks := 0 } = 0 := rfl
    rw [zeroCount, Nat.zero_sub] at two
    omega

end ModDir

end Q9OS

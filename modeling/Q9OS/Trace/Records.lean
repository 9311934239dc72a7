import Mathlib.Tactic
import Q9OS.Lib.Run
import Q9OS.Trace.RingBuf

/-!
# What the ring holds

The used bytes are whole records: the last ones written, possibly behind one marker.
-/

namespace Q9OS.RingBuf

/-- The ring holds exactly the records `recs`, oldest first. -/
structure Holding (rb : RingBuf) (recs : List (List UInt8)) : Prop where
  small : rb.size ≤ 2147483648
  readOff : rb.readOff % rb.size = rb.readOff
  writeOff : rb.writeOff = (rb.readOff + rb.used) % rb.size
  used_le : rb.used ≤ rb.size
  content : Ring.span rb.data rb.size rb.readOff rb.used = recs.flatten
  records : ∀ r ∈ recs, IsRecord r

variable {rb : RingBuf} {recs : List (List UInt8)}

theorem Holding.used_eq (holds : Holding rb recs) : rb.used = recs.flatten.length := by
  rw [← holds.content, Ring.span_length]

theorem Holding.readOff_lt (holds : Holding rb recs) (pos : 0 < rb.size) : rb.readOff < rb.size := by
  rw [← holds.readOff]
  exact Nat.mod_lt _ pos

theorem around_eq {off i : Nat} (inside : off < rb.size) (small : rb.size ≤ 2147483648) (le : i ≤ rb.size) :
    rb.around (add32 off i) = (off + i) % rb.size := by
  rw [add32_of_lt (by omega)]
  unfold around
  split
  · next past => rw [Nat.mod_eq_sub_mod past, Nat.mod_eq_of_lt (by omega)]
  · next before => rw [Nat.mod_eq_of_lt (by omega)]

theorem copyFrom_eq (src : List UInt8) {off i : Nat} (inside : off < rb.size) (small : rb.size ≤ 2147483648)
    (fits : i + src.length ≤ rb.size) :
    rb.copyFrom off i src = { rb with data := Ring.put rb.data rb.size (off + i) src } := by
  induction src generalizing rb i with
  | nil => rfl
  | cons b rest ih =>
    rw [List.length_cons] at fits
    rw [copyFrom, around_eq inside small (by omega)]
    have later := @ih (rb.setByte ((off + i) % rb.size) b) (i + 1) inside small (by show i + 1 + _ ≤ rb.size; omega)
    exact later

theorem copyIn_eq (src : List UInt8) {off : Nat} (inside : off < rb.size) (small : rb.size ≤ 2147483648)
    (fits : src.length ≤ rb.size) :
    rb.copyIn off src = { rb with data := Ring.put rb.data rb.size off src } :=
  copyFrom_eq src inside small (by omega)

theorem copyOut_eq {off len : Nat} (inside : off < rb.size) (small : rb.size ≤ 2147483648) (fits : len ≤ rb.size) :
    rb.copyOut off len = Ring.span rb.data rb.size off len := by
  apply List.map_congr_left
  intro i within
  rw [around_eq inside small (by have := List.mem_range.mp within; omega)]

/-- The length byte of the record at `off`. -/
theorem recLenAt_eq {off n : Nat} {r rest : List UInt8} (inside : off < rb.size) (small : rb.size ≤ 2147483648)
    (record : IsRecord r) (here : Ring.span rb.data rb.size off n = r ++ rest) : rb.recLenAt off = r.length := by
  have two := record.two_le
  have long := record.le_255
  have front := (Ring.span_cons here).1
  have byte : (Ring.span rb.data rb.size off r.length)[1]? = some (rb.data ((off + 1) % rb.size)) :=
    Ring.span_get two
  rw [front, record.tagged] at byte
  unfold recLenAt
  rw [around_eq inside small (by omega), ← Option.some.inj byte]
  exact Nat.mod_eq_of_lt (by omega)

theorem Holding.first_le {r : List UInt8} {rest : List (List UInt8)} (holds : Holding rb (r :: rest)) :
    r.length ≤ rb.used := by
  rw [holds.used_eq, List.flatten_cons, List.length_append]
  omega

theorem Holding.size_pos {r : List UInt8} {rest : List (List UInt8)} (holds : Holding rb (r :: rest)) :
    0 < rb.size := by
  have two := (holds.records r List.mem_cons_self).two_le
  have first := holds.first_le
  have used := holds.used_le
  omega

theorem Holding.recLen {r : List UInt8} {rest : List (List UInt8)} (holds : Holding rb (r :: rest)) :
    rb.recLenAt rb.readOff = r.length :=
  recLenAt_eq (holds.readOff_lt holds.size_pos) holds.small (holds.records r List.mem_cons_self) holds.content

/-- The ring without its oldest record. -/
theorem Holding.skip {r : List UInt8} {rest : List (List UInt8)} (holds : Holding rb (r :: rest)) :
    Holding (rb.skip r.length) rest := by
  have first := holds.first_le
  have inside := holds.readOff_lt holds.size_pos
  have used := holds.used_le
  have small := holds.small
  have moved : (rb.skip r.length).readOff = (rb.readOff + r.length) % rb.size :=
    around_eq inside small (by omega)
  have left : (rb.skip r.length).used = rb.used - r.length := sub32_of_le (by omega) first
  refine ⟨small, ?_, ?_, ?_, ?_, fun r' within => holds.records r' (List.mem_cons_of_mem _ within)⟩
  · rw [moved]
    exact Nat.mod_mod _ _
  · rw [moved, left]
    show rb.writeOff = _
    rw [holds.writeOff]
    show _ = ((rb.readOff + r.length) % rb.size + (rb.used - r.length)) % rb.size
    rw [Nat.mod_add_mod, Nat.add_assoc, Nat.add_sub_cancel' first]
  · rw [left]
    exact (Nat.sub_le _ _).trans used
  · rw [moved, left]
    show Ring.span rb.data rb.size _ _ = _
    rw [Ring.span_mod]
    exact (Ring.span_cons holds.content).2

/-! ### Giving up records -/

theorem Holding.lose {r : List UInt8} {rest : List (List UInt8)} (holds : Holding rb (r :: rest)) :
    Holding (rb.lose r.length) rest := by
  obtain ⟨small, readOff, writeOff, used, content, records⟩ := holds.skip
  exact ⟨small, readOff, writeOff, used, content, records⟩

/-- The ring `out` after `k` of the records were given up. -/
structure Dropped (rb : RingBuf) (recs : List (List UInt8)) (k : Nat) (out : RingBuf) : Prop where
  le : k ≤ recs.length
  holds : Holding out (recs.drop k)
  lostCount : rb.lostCount < 4294967296 → out.lostCount = (rb.lostCount + k) % 4294967296
  size : out.size = rb.size
  lostFmt : out.lostFmt = rb.lostFmt
  mode : out.mode = rb.mode

/-- The loop gives up the oldest records, and enough of them. -/
theorem dropLoop_dropped {need fuel free : Nat} (lost : Nat) (holds : Holding rb recs) (enough : need ≤ rb.size)
    (fueled : rb.used < fuel) (freeIs : free = rb.size - rb.used) (lostLt : lost + rb.used < 4294967296) :
    ∃ k, (free < need → 0 < k) ∧ (dropLoop need fuel rb free lost).2 = lost + k ∧
      need ≤ rb.size - (dropLoop need fuel rb free lost).1.used ∧
      Dropped rb recs k (dropLoop need fuel rb free lost).1 := by
  induction fuel generalizing rb recs free lost with
  | zero => omega
  | succ fuel ih =>
    have used := holds.used_le
    have small := holds.small
    unfold dropLoop
    by_cases fits : need ≤ free
    · rw [if_pos fits]
      refine ⟨0, by omega, rfl, ?_, ⟨Nat.zero_le _, holds, fun lt => (Nat.mod_eq_of_lt lt).symm, rfl, rfl, rfl⟩⟩
      rw [← freeIs]
      exact fits
    · rw [if_neg fits]
      cases recs with
      | nil =>
        have empty := holds.used_eq
        simp at empty
        omega
      | cons r rest =>
        have two := (holds.records r List.mem_cons_self).two_le
        have first := holds.first_le
        have left : (rb.lose r.length).used = rb.used - r.length := sub32_of_le (by omega) first
        have counted : add32 lost 1 = lost + 1 := add32_of_lt (by omega)
        have freed : add32 free r.length = free + r.length := add32_of_lt (by omega)
        have more : free + r.length = (rb.lose r.length).size - (rb.lose r.length).used := by
          rw [left]
          show _ = rb.size - _
          omega
        rw [holds.recLen]
        simp only
        rw [if_neg (by omega), counted, freed]
        obtain ⟨k, -, count, room, dropped⟩ := ih (lost + 1) holds.lose enough (by rw [left]; omega) more
          (by rw [left]; omega)
        refine ⟨k + 1, by omega, by rw [count]; omega, room, ?_⟩
        refine ⟨Nat.succ_le_succ dropped.le, dropped.holds, ?_, dropped.size, dropped.lostFmt, dropped.mode⟩
        intro _
        rw [dropped.lostCount (Nat.mod_lt _ (by decide))]
        show (add32 rb.lostCount 1 + k) % _ = _
        unfold add32
        omega

/-! ### Storing records -/

/-- A record stored at the write offset. -/
theorem Holding.append (holds : Holding rb recs) {rec : List UInt8} (record : IsRecord rec)
    (room : rec.length ≤ rb.size - rb.used) : Holding (rb.append rec) (recs ++ [rec]) := by
  have two := record.two_le
  have used := holds.used_le
  have small := holds.small
  have pos : 0 < rb.size := by omega
  have inside : rb.writeOff < rb.size := by
    rw [holds.writeOff]
    exact Nat.mod_lt _ pos
  have stored := copyIn_eq rec inside small (by omega)
  have grown : (rb.append rec).used = rb.used + rec.length := add32_of_lt (by omega)
  have data : (rb.append rec).data = Ring.put rb.data rb.size (rb.readOff + rb.used) rec := by
    show (rb.copyIn rb.writeOff rec).data = _
    rw [stored, holds.writeOff, Ring.put_mod]
  have moved : (rb.append rec).writeOff = (rb.writeOff + rec.length) % rb.size :=
    around_eq inside small (by omega)
  have size : (rb.append rec).size = rb.size := by
    show (rb.copyIn rb.writeOff rec).size = _
    rw [stored]
  have start : (rb.append rec).readOff = rb.readOff := by
    show (rb.copyIn rb.writeOff rec).readOff = _
    rw [stored]
  refine ⟨by rw [size]; exact small, by rw [size, start]; exact holds.readOff, ?_, by rw [size, grown]; omega, ?_, ?_⟩
  · rw [moved, start, size, grown, holds.writeOff, Nat.mod_add_mod, Nat.add_assoc]
  · rw [data, size, start, grown, Ring.span_add, Ring.span_put_before rec (by omega), Ring.span_put rec (by omega),
      holds.content]
    simp
  · intro r within
    rcases List.mem_append.mp within with old | new
    · exact holds.records r old
    · rw [List.mem_singleton.mp new]
      exact record

/-- A marker stored before the oldest record. -/
theorem Holding.putMarker (holds : Holding rb recs) {marker : List UInt8} (record : IsRecord marker)
    (len : rb.markerLen = marker.length) (room : marker.length ≤ rb.size - rb.used) :
    Holding (rb.putMarker marker) (marker :: recs) := by
  have two := record.two_le
  have used := holds.used_le
  have small := holds.small
  have pos : 0 < rb.size := by omega
  have inside := holds.readOff_lt pos
  have place : rb.around (sub32 (add32 rb.readOff rb.size) rb.markerLen) =
      (rb.readOff + (rb.size - marker.length)) % rb.size := by
    have turned := around_eq (i := rb.size - marker.length) inside small (by omega)
    rw [add32_of_lt (by omega)] at turned
    rw [add32_of_lt (by omega), len, sub32_of_le (by omega) (by omega), Nat.add_sub_assoc (by omega), turned]
  have placed : (rb.readOff + (rb.size - marker.length)) % rb.size < rb.size := Nat.mod_lt _ pos
  have stored := copyIn_eq marker placed small (by omega)
  have back : ((rb.readOff + (rb.size - marker.length)) % rb.size + marker.length) % rb.size = rb.readOff := by
    rw [Nat.mod_add_mod, Nat.add_assoc, Nat.sub_add_cancel (by omega), Nat.add_mod_right]
    exact holds.readOff
  have grown : add32 rb.used marker.length = marker.length + rb.used := by
    rw [add32_of_lt (by omega), Nat.add_comm]
  unfold RingBuf.putMarker
  simp only
  rw [place, stored, grown]
  refine ⟨small, Nat.mod_mod _ _, ?_, by simp only; omega, ?_, ?_⟩
  · show rb.writeOff = _
    rw [← Nat.add_assoc, ← Nat.mod_add_mod, back]
    exact holds.writeOff
  · show Ring.span (Ring.put rb.data rb.size _ marker) rb.size _ _ = _
    rw [Ring.span_add, Ring.span_put marker (by omega), Ring.span_put_after marker (by omega), ← Ring.span_mod, back,
      holds.content]
    rfl
  · intro r within
    rcases List.mem_cons.mp within with rfl | old
    · exact record
    · exact holds.records r old

/-! ### Write -/

/-- What no operation changes. -/
structure SameSetup (rb rb' : RingBuf) : Prop where
  size : rb'.size = rb.size
  lostFmt : rb'.lostFmt = rb.lostFmt
  mode : rb'.mode = rb.mode

theorem copyFrom_frame (rb : RingBuf) (off i : Nat) (src : List UInt8) :
    ∃ d, rb.copyFrom off i src = { rb with data := d } := by
  induction src generalizing rb i with
  | nil => exact ⟨rb.data, rfl⟩
  | cons b rest ih => exact ih (rb.setByte (rb.around (add32 off i)) b) (i + 1)

theorem append_setup (rb : RingBuf) (rec : List UInt8) :
    SameSetup rb (rb.append rec) ∧ (rb.append rec).lostCount = rb.lostCount := by
  obtain ⟨d, stored⟩ := rb.copyFrom_frame rb.writeOff 0 rec
  unfold append copyIn
  rw [stored]
  exact ⟨⟨rfl, rfl, rfl⟩, rfl⟩

theorem putMarker_setup (rb : RingBuf) (marker : List UInt8) :
    SameSetup rb (rb.putMarker marker) ∧ (rb.putMarker marker).lostCount = rb.lostCount := by
  obtain ⟨d, stored⟩ := rb.copyFrom_frame (rb.around (sub32 (add32 rb.readOff rb.size) rb.markerLen)) 0 marker
  unfold putMarker copyIn
  simp only
  rw [stored]
  exact ⟨⟨rfl, rfl, rfl⟩, rfl⟩

theorem markerLen_congr {rb rb' : RingBuf} (size : rb'.size = rb.size) (fmt : rb'.lostFmt = rb.lostFmt) :
    rb'.markerLen = rb.markerLen := by
  unfold markerLen
  rw [fmt, size]

/-- A marker has the length that was reserved for it. -/
theorem markerLen_format {f : LostFormatter} (fmt : rb.lostFmt = some f) (reserved : 0 < rb.markerLen) (n : Nat) :
    rb.markerLen = (f.format n).length := by
  unfold markerLen at *
  rw [fmt] at *
  simp only at *
  split at reserved
  · omega
  · next fits => rw [if_neg fits, f.fixed, f.fixed]

/-- What stands in front after `k` records were given up: nothing, or a marker of `k`. -/
def lead (rb : RingBuf) (k : Nat) : List (List UInt8) :=
  match rb.lostFmt with
  | none => []
  | some f => if k > 0 ∧ rb.markerLen > 0 then [f.format k] else []

theorem lead_congr {rb rb' : RingBuf} (size : rb'.size = rb.size) (fmt : rb'.lostFmt = rb.lostFmt) (k : Nat) :
    rb'.lead k = rb.lead k := by
  unfold lead
  rw [markerLen_congr size fmt, fmt]

theorem mark_holds (holds : Holding rb recs) {k : Nat} (room : rb.markerLen ≤ rb.size - rb.used) :
    Holding (rb.mark k) (rb.lead k ++ recs) ∧ (rb.mark k).used ≤ rb.used + rb.markerLen ∧
      SameSetup rb (rb.mark k) ∧ (rb.mark k).lostCount = rb.lostCount := by
  unfold mark lead
  cases fmt : rb.lostFmt with
  | none => exact ⟨holds, Nat.le_add_right _ _, ⟨rfl, rfl, rfl⟩, rfl⟩
  | some f =>
    simp only
    by_cases marked : k > 0 ∧ rb.markerLen > 0
    · rw [if_pos marked, if_pos marked]
      have len := markerLen_format fmt marked.2 k
      have held := holds.putMarker (f.record k) len (len ▸ room)
      refine ⟨held, ?_, (rb.putMarker_setup _).1, (rb.putMarker_setup _).2⟩
      rw [held.used_eq, holds.used_eq, List.flatten_cons, List.length_append, len]
      omega
    · rw [if_neg marked, if_neg marked]
      exact ⟨holds, Nat.le_add_right _ _, ⟨rfl, rfl, rfl⟩, rfl⟩

/-- A write that has to overwrite leaves room for its record and the marker. -/
def Spacious (rb : RingBuf) (rec : List UInt8) : Prop :=
  rb.mode = .overwrite → rb.size - rb.used < rec.length → rec.length ≤ rb.size →
    rec.length + rb.markerLen ≤ rb.size

/-- The ring after a record was taken and `k` old ones were given up for it. -/
structure Taken (rb : RingBuf) (recs : List (List UInt8)) (rec : List UInt8) (k : Nat) (out : RingBuf) : Prop where
  le : k ≤ recs.length
  holds : Holding out (rb.lead k ++ recs.drop k ++ [rec])
  lostCount : rb.lostCount < 4294967296 → out.lostCount = (rb.lostCount + k) % 4294967296
  setup : SameSetup rb out

theorem lead_zero (rb : RingBuf) : rb.lead 0 = [] := by
  unfold lead
  split
  · rfl
  · rw [if_neg (by omega)]

/-- A record that fits is appended. -/
theorem append_taken (holds : Holding rb recs) {rec : List UInt8} (record : IsRecord rec)
    (room : rec.length ≤ rb.size - rb.used) : Taken rb recs rec 0 (rb.append rec) := by
  have kept := (rb.append_setup rec).2
  refine ⟨Nat.zero_le _, ?_, fun lt => by rw [kept, Nat.add_zero, Nat.mod_eq_of_lt lt], (rb.append_setup rec).1⟩
  rw [lead_zero]
  exact holds.append record room

/-- The overwriting branch. -/
theorem overwrite_taken (holds : Holding rb recs) {rec : List UInt8} (record : IsRecord rec)
    (full : rb.size - rb.used < rec.length) (room : rec.length + rb.markerLen ≤ rb.size) :
    ∃ k, 0 < k ∧ (rb.giveUp rec.length).2 = k ∧
      Taken rb recs rec k (((rb.giveUp rec.length).1.mark (rb.giveUp rec.length).2).append rec) := by
  have used := holds.used_le
  have small := holds.small
  have free : sub32 rb.size rb.used = rb.size - rb.used := sub32_of_le (by omega) used
  have need : add32 rec.length rb.markerLen = rec.length + rb.markerLen := add32_of_lt (by omega)
  unfold giveUp
  rw [free, need]
  obtain ⟨k, some, count, freed, dropped⟩ := dropLoop_dropped 0 holds room
    (by omega : rb.used < rb.used + 1) rfl (by omega)
  generalize dropLoop (rec.length + rb.markerLen) (rb.used + 1) rb (rb.size - rb.used) 0 = out at *
  rw [Nat.zero_add] at count
  have len := markerLen_congr dropped.size dropped.lostFmt
  obtain ⟨marked, grown, setup, losses⟩ := mark_holds (k := k) dropped.holds (by rw [len, dropped.size]; omega)
  rw [len] at grown
  rw [lead_congr dropped.size dropped.lostFmt] at marked
  have rest : rec.length ≤ (out.1.mark k).size - (out.1.mark k).used := by
    rw [setup.size, dropped.size]
    omega
  obtain ⟨same, kept⟩ := append_setup (out.1.mark k) rec
  refine ⟨k, some (by omega), count, ?_⟩
  rw [count]
  refine ⟨dropped.le, marked.append record rest, fun lt => by rw [kept, losses, dropped.lostCount lt], ?_⟩
  exact ⟨by rw [same.size, setup.size, dropped.size], by rw [same.lostFmt, setup.lostFmt, dropped.lostFmt],
    by rw [same.mode, setup.mode, dropped.mode]⟩

/-- The records given up when `rec` is written. -/
def lostFor (rb : RingBuf) (rec : List UInt8) : Nat :=
  if rec.length ≤ sub32 rb.size rb.used then 0 else (rb.giveUp rec.length).2

/-- A write refuses the record and leaves the ring, or takes it. -/
theorem write_cases (holds : Holding rb recs) {rec : List UInt8} (record : IsRecord rec)
    (spacious : rb.Spacious rec) :
    (rb.write rec).1 = false ∧ Holding (rb.write rec).2 recs ∧ SameSetup rb (rb.write rec).2 ∨
      (rb.write rec).1 = true ∧ Taken rb recs rec (rb.lostFor rec) (rb.write rec).2 ∧
        (rb.lostFor rec = 0 ∨ rb.mode = .overwrite ∧ rb.size - rb.used < rec.length ∧ rec.length ≤ rb.size ∧
          0 < rb.lostFor rec) := by
  have two := record.two_le
  have free : sub32 rb.size rb.used = rb.size - rb.used :=
    sub32_of_le (by have := holds.small; omega) holds.used_le
  unfold write lostFor
  by_cases refused : rec.length = 0 ∨ rec.length > rb.size
  · rw [if_pos refused]
    exact Or.inl ⟨rfl, holds, rfl, rfl, rfl⟩
  · rw [if_neg refused, free]
    by_cases room : rec.length ≤ rb.size - rb.used
    · rw [if_pos room, if_pos room]
      exact Or.inr ⟨rfl, append_taken holds record room, Or.inl rfl⟩
    · rw [if_neg room, if_neg room]
      cases mode : rb.mode with
      | halt =>
        obtain ⟨small, readOff, writeOff, used, content, records⟩ := holds
        exact Or.inl ⟨rfl, ⟨small, readOff, writeOff, used, content, records⟩, rfl, rfl, mode.symm⟩
      | overwrite =>
        have full : rb.size - rb.used < rec.length := by omega
        obtain ⟨k, pos, count, taken⟩ := overwrite_taken holds record full (spacious mode full (by omega))
        rw [count] at taken ⊢
        exact Or.inr ⟨rfl, taken, Or.inr ⟨rfl, full, by omega, pos⟩⟩

/-! ### Read -/

/-- The loop copies out the oldest records. -/
theorem readLoop_holds (max : Nat) {fuel off remaining : Nat} (dst : List UInt8)
    (holds : Holding { rb with readOff := off, used := remaining } recs) (fueled : remaining < fuel)
    (fits : dst.length + remaining < 4294967296) :
    ∃ k ≤ recs.length, ∃ off' left,
      rb.readLoop max fuel off remaining dst = (dst ++ (recs.take k).flatten, off', left) ∧
      Holding { rb with readOff := off', used := left } (recs.drop k) ∧
      (dst.length ≤ max → (dst ++ (recs.take k).flatten).length ≤ max) := by
  induction fuel generalizing recs off remaining dst with
  | zero => omega
  | succ fuel ih =>
    have stop : ∃ k ≤ recs.length, ∃ off' left,
        (dst, off, remaining) = (dst ++ (recs.take k).flatten, off', left) ∧
        Holding { rb with readOff := off', used := left } (recs.drop k) ∧
        (dst.length ≤ max → (dst ++ (recs.take k).flatten).length ≤ max) :=
      ⟨0, Nat.zero_le _, off, remaining, by simp, holds, fun le => by simpa using le⟩
    unfold readLoop
    cases recs with
    | nil =>
      have empty : remaining = 0 := by simpa using holds.used_eq
      rw [if_pos empty]
      exact stop
    | cons r rest =>
      have two := (holds.records r List.mem_cons_self).two_le
      have first : r.length ≤ remaining := holds.first_le
      have used : remaining ≤ rb.size := holds.used_le
      have inside : off < rb.size := holds.readOff_lt holds.size_pos
      have recLen : rb.recLenAt off = r.length := holds.recLen
      have bytes : rb.copyOut off r.length = r := by
        rw [copyOut_eq inside holds.small (by omega)]
        exact (Ring.span_cons holds.content).1
      rw [if_neg (by omega), recLen]
      simp only
      rw [if_neg (by omega), add32_of_lt (by omega)]
      by_cases large : dst.length + r.length > max
      · rw [if_pos large]
        exact stop
      · have next := holds.skip
        have left : sub32 remaining r.length = remaining - r.length := sub32_of_le (by have := holds.small; omega) first
        rw [if_neg large, bytes]
        obtain ⟨k, le, off', rest', read, held, bound⟩ := ih (dst ++ r)
          (show Holding { rb with readOff := rb.around (add32 off r.length), used := remaining - r.length } rest from
            left ▸ next) (by omega) (by rw [List.length_append]; omega)
        refine ⟨k + 1, Nat.succ_le_succ le, off', rest', ?_, held, ?_⟩
        · rw [read]
          simp
        · intro _
          have whole := bound (by rw [List.length_append]; omega)
          simpa using whole

/-- A read returns the oldest records and leaves the others. -/
theorem read_holds (holds : Holding rb recs) (max : Nat) :
    ∃ k ≤ recs.length, (rb.read max).1.1 = (recs.take k).flatten ∧ (rb.read max).1.1.length ≤ max ∧
      Holding (rb.read max).2 (recs.drop k) ∧ SameSetup rb (rb.read max).2 ∧
      (rb.read max).2.lostCount = rb.lostCount := by
  have small := holds.small
  have used := holds.used_le
  obtain ⟨k, le, off, left, out, held, bound⟩ := readLoop_holds max [] holds
    (by omega : rb.used < rb.used + 1) (by rw [List.length_nil]; omega)
  unfold read
  rw [out]
  exact ⟨k, le, rfl, bound (Nat.zero_le _), held, ⟨rfl, rfl, rfl⟩, rfl⟩

theorem clear_holds (holds : Holding rb recs) : Holding rb.clear [] :=
  ⟨holds.small, Nat.zero_mod _, (Nat.zero_mod _).symm, Nat.zero_le _, rfl, fun _ within => by cases within⟩

/-! ### Runs -/

/-- A call on the ring; written records carry their length. -/
inductive RingOp where
  | write (rec : List UInt8) (record : IsRecord rec)
  | read (maxBytes : Nat)
  | clear

/-- The ring and the records that were written so far. -/
structure Logged where
  ring : RingBuf
  written : List (List UInt8)

def Logged.step (s : Logged) : RingOp → Option Logged
  | .write rec _ =>
    let out := s.ring.write rec
    some ⟨out.2, if out.1 then s.written ++ [rec] else s.written⟩
  | .read maxBytes => some { s with ring := (s.ring.read maxBytes).2 }
  | .clear => some { s with ring := s.ring.clear }

/-- Nothing, or one marker of the ring's formatter. -/
def IsLead (rb : RingBuf) (lead : List (List UInt8)) : Prop :=
  lead = [] ∨ ∃ f n, rb.lostFmt = some f ∧ lead = [f.format n]

/-- The used bytes are whole records: perhaps a marker, then the last records written.
A read returns a whole-record prefix of them and leaves the rest. -/
def Logged.Sound (s : Logged) : Prop :=
  s.ring.used ≤ s.ring.size ∧
    ∃ lead recs : List (List UInt8), IsLead s.ring lead ∧ recs <:+ s.written ∧
      (∀ r ∈ lead ++ recs, IsRecord r) ∧ s.ring.content = (lead ++ recs).flatten ∧
      s.ring.writeOff = (s.ring.readOff + s.ring.used) % s.ring.size ∧
      ∀ maxBytes, ∃ k, (s.ring.read maxBytes).1.1 = ((lead ++ recs).take k).flatten ∧
        (s.ring.read maxBytes).1.1.length ≤ maxBytes ∧
        (s.ring.read maxBytes).2.content = ((lead ++ recs).drop k).flatten

/-- The invariant of runs. -/
def Logged.Kept (s : Logged) : Prop :=
  ∃ lead recs : List (List UInt8), IsLead s.ring lead ∧ recs <:+ s.written ∧ Holding s.ring (lead ++ recs)

theorem Logged.Kept.sound {s : Logged} (kept : s.Kept) : s.Sound := by
  obtain ⟨lead, recs, isLead, suffix, holds⟩ := kept
  refine ⟨holds.used_le, lead, recs, isLead, suffix, holds.records, holds.content, holds.writeOff, ?_⟩
  intro maxBytes
  obtain ⟨k, -, bytes, bound, held, -⟩ := read_holds holds maxBytes
  exact ⟨k, bytes, bound, held.content⟩

theorem IsLead.setup {rb rb' : RingBuf} {lead : List (List UInt8)} (isLead : IsLead rb lead)
    (setup : SameSetup rb rb') : IsLead rb' lead := by
  rcases isLead with none | ⟨f, n, fmt, marker⟩
  · exact Or.inl none
  · exact Or.inr ⟨f, n, setup.lostFmt.trans fmt, marker⟩

theorem IsLead.length_le {rb : RingBuf} {lead : List (List UInt8)} (isLead : IsLead rb lead) : lead.length ≤ 1 := by
  rcases isLead with rfl | ⟨f, n, -, rfl⟩
  · exact Nat.zero_le 1
  · exact le_refl 1

theorem isLead_lead (rb : RingBuf) (k : Nat) : IsLead rb (rb.lead k) := by
  unfold RingBuf.lead
  cases fmt : rb.lostFmt with
  | none => exact Or.inl rfl
  | some f =>
    simp only
    split
    · exact Or.inr ⟨f, k, fmt, rfl⟩
    · exact Or.inl rfl

/-- Without its first records a ring holds perhaps its marker and the last records. -/
theorem IsLead.drop {rb : RingBuf} {lead : List (List UInt8)} (isLead : IsLead rb lead)
    (recs : List (List UInt8)) (k : Nat) :
    ∃ lead' recs', (lead ++ recs).drop k = lead' ++ recs' ∧ IsLead rb lead' ∧ recs' <:+ recs ∧
      (0 < k → lead' = []) := by
  cases k with
  | zero => exact ⟨lead, recs, rfl, isLead, List.suffix_rfl, by omega⟩
  | succ k =>
    have short := isLead.length_le
    refine ⟨[], recs.drop (k + 1 - lead.length), ?_, Or.inl rfl, List.drop_suffix _ _, fun _ => rfl⟩
    rw [List.drop_append, List.drop_eq_nil_of_le (by omega)]

theorem suffix_snoc {α : Type} {a b : List α} (suffix : a <:+ b) (x : α) : a ++ [x] <:+ b ++ [x] := by
  obtain ⟨front, rfl⟩ := suffix
  exact ⟨front, by simp⟩

/-- A write keeps the invariant. -/
theorem write_kept {s s' : Logged} (kept : s.Kept) {rec : List UInt8} (record : IsRecord rec)
    (spacious : s.ring.Spacious rec) (stepped : s.step (.write rec record) = some s') : s'.Kept := by
  obtain ⟨lead, recs, isLead, suffix, holds⟩ := kept
  obtain rfl := Option.some.inj stepped
  rcases write_cases holds record spacious with ⟨refused, held, setup⟩ | ⟨accepted, taken, given⟩
  · rw [refused]
    exact ⟨lead, recs, isLead.setup setup, suffix, held⟩
  · obtain ⟨old, rest, split, isOld, tail, gone⟩ := isLead.drop recs (s.ring.lostFor rec)
    have held := taken.holds
    rw [split] at held
    rw [accepted]
    rcases given with none | ⟨-, -, -, some⟩
    · have clear : s.ring.lead (s.ring.lostFor rec) = [] := by rw [none, lead_zero]
      rw [clear] at held
      exact ⟨old, rest ++ [rec], isOld.setup taken.setup, suffix_snoc (tail.trans suffix) rec, by simpa using held⟩
    · rw [gone some] at held
      exact ⟨s.ring.lead (s.ring.lostFor rec), rest ++ [rec], (isLead_lead _ _).setup taken.setup,
        suffix_snoc (tail.trans suffix) rec, by simpa using held⟩

theorem read_kept {s s' : Logged} (kept : s.Kept) {maxBytes : Nat} (stepped : s.step (.read maxBytes) = some s') :
    s'.Kept := by
  obtain ⟨lead, recs, isLead, suffix, holds⟩ := kept
  obtain rfl := Option.some.inj stepped
  obtain ⟨k, -, -, -, held, setup, -⟩ := read_holds holds maxBytes
  obtain ⟨lead', recs', split, isLead', tail, -⟩ := isLead.drop recs k
  rw [split] at held
  exact ⟨lead', recs', isLead'.setup setup, tail.trans suffix, held⟩

theorem clear_kept {s s' : Logged} (kept : s.Kept) (stepped : s.step .clear = some s') : s'.Kept := by
  obtain ⟨lead, recs, isLead, suffix, holds⟩ := kept
  obtain rfl := Option.some.inj stepped
  exact ⟨[], [], Or.inl rfl, List.nil_suffix, clear_holds holds⟩

/-- The condition on a step: a write that overwrites has room for record and marker. -/
def Roomy (s : Logged) (op : RingOp) : Prop := ∀ rec record, op = .write rec record → s.ring.Spacious rec

theorem init_holds (data : Nat → UInt8) {size : Nat} (small : size ≤ 2147483648) (mode : RingMode)
    (fmt : Option LostFormatter) : Holding (init data size mode fmt) [] :=
  ⟨small, Nat.zero_mod _, (Nat.zero_mod _).symm, Nat.zero_le _, rfl, fun _ within => (List.not_mem_nil within).elim⟩

/-- In a ring of at most 2^31 bytes, a run whose overwriting writes all have room for
record and marker keeps whole records in write order. -/
theorem ring_holds_records (data : Nat → UInt8) (size : Nat) (mode : RingMode) (fmt : Option LostFormatter)
    (small : size ≤ 2147483648) (ops : List RingOp)
    (roomy : RunMeets Logged.step Roomy ⟨init data size mode fmt, []⟩ ops) (s : Logged)
    (ran : run Logged.step ⟨init data size mode fmt, []⟩ ops = some s) : s.Sound := by
  apply Logged.Kept.sound
  have start : Logged.Kept ⟨init data size mode fmt, []⟩ :=
    ⟨[], [], Or.inl rfl, List.suffix_rfl, init_holds data small mode fmt⟩
  refine run_invariant ?_ start roomy ran
  intro s op s' kept meets stepped
  cases op with
  | write rec record => exact write_kept kept record (meets rec record rfl) stepped
  | read maxBytes => exact read_kept kept stepped
  | clear => exact clear_kept kept stepped

instance (rb : RingBuf) (rec : List UInt8) : Decidable (rb.Spacious rec) :=
  inferInstanceAs (Decidable (_ → _ → _ → _))

/-- A record of `n + 2` bytes, all zero but the length. -/
def blank (n : Nat) : List UInt8 := 0 :: (n + 2).toUInt8 :: List.replicate n 0

theorem blank_record {n : Nat} (short : n ≤ 253) : IsRecord (blank n) := by
  refine ⟨?_, ?_, ?_⟩
  · simp [blank]
  · simp [blank]
    omega
  · rw [show (blank n).length = n + 2 by simp [blank]]
    rfl

/-- Writes of records of 20 bytes. -/
def twenties (n : Nat) : List RingOp := List.replicate n (.write (blank 18) (blank_record (by decide)))

/-- Two records fill the ring, the third overwrites. -/
theorem ring_holds_third :
    ∃ s, RunMeets Logged.step Roomy ⟨init (fun _ => 0) 40 .overwrite (some traceLostRecordFormatter), []⟩ (twenties 3) ∧
      run Logged.step ⟨init (fun _ => 0) 40 .overwrite (some traceLostRecordFormatter), []⟩ (twenties 3) = some s ∧
      s.Sound := by
  have roomy : RunMeets Logged.step Roomy ⟨init (fun _ => 0) 40 .overwrite (some traceLostRecordFormatter), []⟩
      (twenties 3) := by
    refine ⟨fun rec record is => ?_, fun s stepped => ?_⟩
    · cases is
      decide
    · obtain rfl := Option.some.inj stepped
      refine ⟨fun rec record is => ?_, fun s stepped => ?_⟩
      · cases is
        decide
      · obtain rfl := Option.some.inj stepped
        refine ⟨fun rec record is => ?_, fun s stepped => trivial⟩
        cases is
        decide
  exact ⟨_, roomy, rfl, ring_holds_records _ _ _ _ (by decide) _ roomy _ rfl⟩

/-- In a ring of 20 bytes a record of 10 and a marker of 16 do not both fit, and the
ring counts 26 used bytes. -/
theorem ring_overfills :
    ∃ s, run Logged.step ⟨init (fun _ => 0) 20 .overwrite (some traceLostRecordFormatter), []⟩
        [.write (blank 8) (blank_record (by decide)), .write (blank 8) (blank_record (by decide)),
          .write (blank 8) (blank_record (by decide))] = some s ∧
      s.ring.size < s.ring.used ∧ ¬ s.Sound := by
  refine ⟨_, rfl, by decide, fun sound => ?_⟩
  exact absurd sound.1 (by decide)

end Q9OS.RingBuf

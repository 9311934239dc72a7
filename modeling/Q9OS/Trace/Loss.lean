import Mathlib.Tactic
import Q9OS.Trace.Records

/-!
# Lost records

Every record taken is delivered, still in the ring or lost, and markers and
`lostCount` tell how many were lost, as long as no marker is itself given up.
-/

namespace Q9OS.RingBuf

/-- A formatter whose markers carry their count. -/
structure CountingFormatter extends LostFormatter where
  count : List UInt8 → Nat
  count_format : ∀ n < 4294967296, count (format n) = n

/-- What stands in the ring: the record taken as number `serial`, or a marker. -/
inductive Item where
  | user (serial : Nat) (bytes : List UInt8)
  | marker (bytes : List UInt8)

namespace Item

def bytes : Item → List UInt8
  | user _ bytes => bytes
  | marker bytes => bytes

def serial? : Item → Option Nat
  | user serial _ => some serial
  | marker _ => none

def marker? : Item → Option (List UInt8)
  | user _ _ => none
  | marker bytes => some bytes

end Item

def serials (items : List Item) : List Nat := items.filterMap Item.serial?

def markers (items : List Item) : List (List UInt8) := items.filterMap Item.marker?

/-- How many of the items the first `n` bytes make up. -/
def wholeItems : Nat → List Item → Nat
  | _, [] => 0
  | n, item :: rest => if item.bytes.length ≤ n then wholeItems (n - item.bytes.length) rest + 1 else 0

/-- The ring with its history: what was taken, what stands in it, what reads
delivered, and which records were given up. -/
structure Account where
  ring : RingBuf
  written : List (List UInt8)
  queue : List Item
  delivered : List Item
  output : List UInt8
  lost : List Nat

namespace Account

def wrote (s : Account) (rec : List UInt8) : Account :=
  let k := s.ring.lostFor rec
  { ring := (s.ring.write rec).2
    written := s.written ++ [rec]
    queue := (s.ring.lead k).map Item.marker ++ s.queue.drop k ++ [.user s.written.length rec]
    delivered := s.delivered
    output := s.output
    lost := s.lost ++ serials (s.queue.take k) }

def readOut (s : Account) (maxBytes : Nat) : Account :=
  let out := s.ring.read maxBytes
  let k := wholeItems out.1.1.length s.queue
  { s with ring := out.2, queue := s.queue.drop k, delivered := s.delivered ++ s.queue.take k,
           output := s.output ++ out.1.1 }

/-- Writes and reads; a cleared ring is not accounted for. -/
def step (s : Account) : RingOp → Option Account
  | .write rec _ => if (s.ring.write rec).1 then some (s.wrote rec) else some { s with ring := (s.ring.write rec).2 }
  | .read maxBytes => some (s.readOut maxBytes)
  | .clear => none

def start (data : Nat → UInt8) (size : Nat) (f : LostFormatter) : Account :=
  ⟨init data size .overwrite (some f), [], [], [], [], []⟩

/-- Everything taken is delivered, in the ring or lost, and the markers and
`lostCount` both count what is lost. -/
structure Balanced (f : CountingFormatter) (s : Account) : Prop where
  content : s.ring.content = (s.queue.map Item.bytes).flatten
  output : s.output = (s.delivered.map Item.bytes).flatten
  genuine : ∀ i b, Item.user i b ∈ s.delivered ++ s.queue → s.written[i]? = some b
  groups : (serials (s.delivered ++ s.queue) ++ s.lost).Perm (List.range s.written.length)
  marked : ((markers (s.delivered ++ s.queue)).map f.count).sum = s.lost.length
  counted : s.ring.lostCount = s.lost.length

/-- A write that overwrites has room for record and marker and finds no unread marker. -/
def Orderly (f : CountingFormatter) (s : Account) (op : RingOp) : Prop :=
  ∀ rec record, op = .write rec record → s.written.length < 4294967295 ∧
    (s.ring.size - s.ring.used < rec.length → rec.length ≤ s.ring.size →
      rec.length + f.len ≤ s.ring.size ∧ markers s.queue = [])

/-- The invariant of runs: markers stand in front only. -/
structure Kept (f : CountingFormatter) (s : Account) : Prop extends Balanced f s where
  holds : Holding s.ring (s.queue.map Item.bytes)
  fmt : s.ring.lostFmt = some f.toLostFormatter
  mode : s.ring.mode = .overwrite
  front : markers s.queue.tail = []

end Account

/-! ### Lists of items -/

theorem serials_append (a b : List Item) : serials (a ++ b) = serials a ++ serials b := List.filterMap_append

theorem markers_append (a b : List Item) : markers (a ++ b) = markers a ++ markers b := List.filterMap_append

theorem serials_length {items : List Item} (none : markers items = []) : (serials items).length = items.length := by
  induction items with
  | nil => rfl
  | cons item rest ih =>
    cases item with
    | user serial bytes =>
      have later : markers rest = [] := by simpa [markers, Item.marker?] using none
      have whole := ih later
      simpa [serials, Item.serial?] using whole
    | marker bytes => simp [markers, Item.marker?] at none

theorem markers_take_drop (items : List Item) (k : Nat) : markers items = markers (items.take k) ++ markers (items.drop k) := by
  rw [← markers_append, List.take_append_drop]

theorem serials_take_drop (items : List Item) (k : Nat) : serials items = serials (items.take k) ++ serials (items.drop k) := by
  rw [← serials_append, List.take_append_drop]

theorem serials_markers (l : List (List UInt8)) : serials (l.map Item.marker) = [] := by
  simp [serials, Item.serial?, List.filterMap_map, Function.comp_def]

theorem markers_markers (l : List (List UInt8)) : markers (l.map Item.marker) = l := by
  simp [markers, Item.marker?, List.filterMap_map, Function.comp_def]

theorem serials_singleton (i : Nat) (b : List UInt8) : serials [.user i b] = [i] := rfl

theorem markers_singleton (i : Nat) (b : List UInt8) : markers [.user i b] = [] := rfl

/-- The bytes of the first `k` items make up `k` items. -/
theorem wholeItems_take {items : List Item} (long : ∀ item ∈ items, 0 < item.bytes.length) {k : Nat}
    (le : k ≤ items.length) : wholeItems ((items.map Item.bytes).take k).flatten.length items = k := by
  induction items generalizing k with
  | nil =>
    rw [Nat.le_zero.mp le]
    rfl
  | cons item rest ih =>
    cases k with
    | zero =>
      have pos := long item List.mem_cons_self
      exact if_neg (by rw [List.take_zero, List.flatten_nil, List.length_nil]; omega)
    | succ k =>
      have later := ih (fun item within => long item (List.mem_cons_of_mem _ within)) (Nat.le_of_succ_le_succ le)
      rw [List.map_cons, List.take_succ_cons, List.flatten_cons, List.length_append, wholeItems,
        if_pos (Nat.le_add_right _ _), Nat.add_sub_cancel_left, later]

/-! ### Steps -/

namespace Account

variable {f : CountingFormatter} {s : Account}

/-- An overwriting ring that refuses a record stays as it is. -/
theorem write_refused {rb : RingBuf} (mode : rb.mode = .overwrite) {rec : List UInt8}
    (refused : (rb.write rec).1 = false) : (rb.write rec).2 = rb := by
  unfold write at refused ⊢
  split
  · rfl
  · next taken =>
    rw [if_neg taken] at refused
    split at refused
    · cases refused
    · rw [mode] at refused
      cases refused

theorem genuine_snoc {written : List (List UInt8)} {i : Nat} {b : List UInt8} (rec : List UInt8)
    (old : written[i]? = some b) : (written ++ [rec])[i]? = some b := by
  have inside := (List.getElem?_eq_some_iff.mp old).1
  rw [List.getElem?_append_left inside]
  exact old

/-- A record taken for `k` user records given up, with a marker that says so. -/
theorem wrote_kept (kept : Kept f s) {rec : List UInt8} (few : s.written.length < 4294967295)
    (taken : Taken s.ring (s.queue.map Item.bytes) rec (s.ring.lostFor rec) (s.ring.write rec).2)
    (users : markers (s.queue.take (s.ring.lostFor rec)) = [])
    (told : ((s.ring.lead (s.ring.lostFor rec)).map f.count).sum = s.ring.lostFor rec)
    (front : markers (s.wrote rec).queue.tail = []) : Kept f (s.wrote rec) := by
  have le := taken.le
  rw [List.length_map] at le
  have serialsTaken := serials_length users
  rw [List.length_take, Nat.min_eq_left le] at serialsTaken
  have serialsQueue := serials_take_drop s.queue (s.ring.lostFor rec)
  have markersQueue := markers_take_drop s.queue (s.ring.lostFor rec)
  rw [users, List.nil_append] at markersQueue
  have groups : (serials ((s.wrote rec).delivered ++ (s.wrote rec).queue) ++ (s.wrote rec).lost).Perm
      (List.range (s.wrote rec).written.length) := by
    have old := kept.groups
    show (serials (s.delivered ++ (_ ++ s.queue.drop (s.ring.lostFor rec) ++ [Item.user s.written.length rec])) ++
      (s.lost ++ serials (s.queue.take (s.ring.lostFor rec)))).Perm (List.range (s.written ++ [rec]).length)
    rw [List.length_append, List.length_singleton, List.range_succ, serials_append, serials_append, serials_append,
      serials_markers, serials_singleton]
    rw [serials_append, serialsQueue] at old
    rw [List.perm_iff_count] at old ⊢
    intro a
    have same := old a
    simp only [List.count_append] at same ⊢
    simp only [List.count_nil]
    omega
  have losses : (s.wrote rec).lost.length = s.lost.length + s.ring.lostFor rec := by
    show (s.lost ++ serials _).length = _
    rw [List.length_append, serialsTaken]
  have bound : s.lost.length + s.ring.lostFor rec < 4294967296 := by
    have length := groups.length_eq
    rw [List.length_append, losses, List.length_range] at length
    have one : (s.wrote rec).written.length = s.written.length + 1 := by
      show (s.written ++ [rec]).length = _
      rw [List.length_append, List.length_singleton]
    omega
  have holds : Holding (s.wrote rec).ring ((s.wrote rec).queue.map Item.bytes) := by
    have held := taken.holds
    rw [← List.map_drop] at held
    show Holding (s.ring.write rec).2 ((_ ++ s.queue.drop (s.ring.lostFor rec) ++ [Item.user s.written.length rec]).map Item.bytes)
    rw [List.map_append, List.map_append, List.map_map]
    simpa [Function.comp_def, Item.bytes] using held
  refine ⟨⟨holds.content, kept.output, ?_, groups, ?_, ?_⟩, holds, taken.setup.lostFmt.trans kept.fmt,
    taken.setup.mode.trans kept.mode, front⟩
  · intro i b within
    rcases List.mem_append.mp within with old | new
    · exact genuine_snoc rec (kept.genuine i b (List.mem_append_left _ old))
    · rcases List.mem_append.mp new with old | new
      · rcases List.mem_append.mp old with marker | old
        · obtain ⟨m, -, is⟩ := List.mem_map.mp marker
          cases is
        · exact genuine_snoc rec (kept.genuine i b (List.mem_append_right _ (List.mem_of_mem_drop old)))
      · obtain ⟨rfl, rfl⟩ := Item.user.inj (List.mem_singleton.mp new)
        exact List.getElem?_concat_length
  · have marked := kept.marked
    rw [markers_append, markersQueue, List.map_append, List.sum_append] at marked
    rw [losses]
    show ((markers (s.delivered ++ (_ ++ s.queue.drop (s.ring.lostFor rec) ++
      [Item.user s.written.length rec]))).map f.count).sum = _
    rw [markers_append, markers_append, markers_append, markers_markers, markers_singleton, List.append_nil,
      List.map_append, List.map_append, List.sum_append, List.sum_append, told]
    omega
  · rw [losses]
    have counted := taken.lostCount (by rw [kept.counted]; omega)
    rw [kept.counted, Nat.mod_eq_of_lt bound] at counted
    exact counted

/-- A write keeps the invariant. -/
theorem write_step_kept (kept : Kept f s) {rec : List UInt8} (record : IsRecord rec)
    (orderly : Orderly f s (.write rec record)) {s' : Account} (stepped : s.step (.write rec record) = some s') :
    Kept f s' := by
  obtain ⟨few, room⟩ := orderly rec record rfl
  have two : 2 ≤ f.len := by
    rw [← f.fixed 0]
    exact (f.record 0).two_le
  have reserved (fits : f.len ≤ s.ring.size) : s.ring.markerLen = f.len := by
    unfold markerLen
    rw [kept.fmt]
    simp only
    rw [f.fixed, if_neg (by omega)]
  have spacious : s.ring.Spacious rec := by
    intro _ full le
    have both := (room full le).1
    rw [reserved (by omega)]
    exact both
  simp only [step] at stepped
  rcases write_cases kept.holds record spacious with ⟨refused, -, -⟩ | ⟨accepted, taken, given⟩
  · rw [refused, if_neg Bool.false_ne_true, write_refused kept.mode refused] at stepped
    obtain rfl := Option.some.inj stepped
    exact kept
  · rw [accepted, if_pos rfl] at stepped
    obtain rfl := Option.some.inj stepped
    rcases given with none | ⟨-, full, le, pos⟩
    · have lead : s.ring.lead (s.ring.lostFor rec) = [] := by rw [none, lead_zero]
      refine wrote_kept kept few taken (by rw [none]; rfl) (by rw [lead, none]; rfl) ?_
      have front := kept.front
      show markers (List.tail (_ ++ s.queue.drop (s.ring.lostFor rec) ++ [Item.user s.written.length rec])) = []
      rw [lead, none, List.map_nil, List.nil_append, List.drop_zero]
      generalize s.queue = queue at front
      cases queue with
      | nil => rfl
      | cons first rest =>
        rw [List.cons_append, List.tail_cons, markers_append, markers_singleton, List.append_nil]
        exact front
    · obtain ⟨both, clear⟩ := room full le
      have len := reserved (by omega)
      have lead : s.ring.lead (s.ring.lostFor rec) = [f.format (s.ring.lostFor rec)] := by
        unfold RingBuf.lead
        rw [kept.fmt]
        exact if_pos ⟨pos, by omega⟩
      have split := markers_take_drop s.queue (s.ring.lostFor rec)
      rw [clear] at split
      obtain ⟨front, back⟩ := List.append_eq_nil_iff.mp split.symm
      have small : s.ring.lostFor rec < 4294967296 := by
        have total := kept.groups.length_eq
        have users := serials_length front
        have le := taken.le
        rw [List.length_map] at le
        rw [List.length_take, Nat.min_eq_left le] at users
        rw [List.length_append, List.length_range, serials_append, List.length_append,
          serials_take_drop s.queue (s.ring.lostFor rec), List.length_append, users] at total
        omega
      refine wrote_kept kept few taken front ?_ ?_
      · rw [lead]
        simp [f.count_format _ small]
      · show markers (List.tail (_ ++ s.queue.drop (s.ring.lostFor rec) ++ [Item.user s.written.length rec])) = []
        rw [lead]
        show markers (s.queue.drop (s.ring.lostFor rec) ++ [Item.user s.written.length rec]) = []
        rw [markers_append, back, markers_singleton]
        rfl

/-- A read keeps the invariant. -/
theorem read_step_kept (kept : Kept f s) {maxBytes : Nat} {s' : Account}
    (stepped : s.step (.read maxBytes) = some s') : Kept f s' := by
  obtain rfl := Option.some.inj stepped
  obtain ⟨k, le, bytes, -, held, setup, losses⟩ := read_holds kept.holds maxBytes
  rw [List.length_map] at le
  have long : ∀ item ∈ s.queue, 0 < item.bytes.length := by
    intro item within
    have two := (kept.holds.records _ (List.mem_map_of_mem within)).two_le
    omega
  have whole : wholeItems (s.ring.read maxBytes).1.1.length s.queue = k := by
    rw [bytes]
    exact wholeItems_take long le
  have moved : s.delivered ++ s.queue.take k ++ s.queue.drop k = s.delivered ++ s.queue := by
    rw [List.append_assoc, List.take_append_drop]
  have out : s.readOut maxBytes = { s with
      ring := (s.ring.read maxBytes).2, queue := s.queue.drop k, delivered := s.delivered ++ s.queue.take k,
      output := s.output ++ (s.ring.read maxBytes).1.1 } := by
    unfold readOut
    simp only
    rw [whole]
  have front : markers (s.queue.drop k).tail = [] := by
    have old := markers_take_drop s.queue.tail k
    rw [kept.front, List.drop_tail] at old
    rw [List.tail_drop]
    exact (List.append_eq_nil_iff.mp old.symm).2
  rw [out]
  rw [← List.map_drop] at held
  refine ⟨⟨held.content, ?_, ?_, ?_, ?_, losses.trans kept.counted⟩, held, setup.lostFmt.trans kept.fmt,
    setup.mode.trans kept.mode, front⟩
  · show s.output ++ _ = _
    rw [bytes, kept.output, List.map_append, List.flatten_append, List.map_take]
  · simp only [moved]
    exact kept.genuine
  · simp only [moved]
    exact kept.groups
  · simp only [moved]
    exact kept.marked

/-- In a ring of at most 2^31 bytes, a run whose overwriting writes all have room for
record and marker and find no unread marker accounts for every record. -/
theorem losses_accounted (data : Nat → UInt8) (size : Nat) (f : CountingFormatter) (small : size ≤ 2147483648)
    (ops : List RingOp) (orderly : RunMeets step (Orderly f) (start data size f.toLostFormatter) ops) (s : Account)
    (ran : run step (start data size f.toLostFormatter) ops = some s) : Balanced f s := by
  have first : Kept f (start data size f.toLostFormatter) :=
    ⟨⟨rfl, rfl, fun _ _ within => (List.not_mem_nil within).elim, List.Perm.refl _, rfl, rfl⟩,
      init_holds data small .overwrite (some f.toLostFormatter), rfl, rfl, rfl⟩
  refine (run_invariant ?_ first orderly ran).toBalanced
  intro s op s' kept meets stepped
  cases op with
  | write rec record => exact write_step_kept kept record meets stepped
  | read maxBytes => exact read_step_kept kept stepped
  | clear => cases stepped

end Account

/-! ### The trace -/

/-- The count in a marker of the trace. -/
def traceLostCount (marker : List UInt8) : Nat :=
  ((marker[12]?.getD 0).toNat * 256 + (marker[13]?.getD 0).toNat) * 65536 +
    (marker[14]?.getD 0).toNat * 256 + (marker[15]?.getD 0).toNat

def traceFormatter : CountingFormatter where
  toLostFormatter := traceLostRecordFormatter
  count := traceLostCount
  count_format n small := by
    have value : n.toUInt32.toNat = n := by
      rw [Nat.toUInt32_eq, UInt32.toNat_ofNat']
      exact Nat.mod_eq_of_lt small
    simp only [traceLostRecordFormatter, traceBuildLostRecord, tracePutHeader, traceLostCount, List.cons_append,
      List.nil_append, List.getElem?_cons_succ, List.getElem?_cons_zero, Option.getD_some, UInt32.toNat_toUInt8,
      UInt32.toNat_shiftRight, value, UInt32.reduceToNat, Nat.shiftRight_eq_div_pow, Nat.reduceMod,
      Nat.reducePow]
    omega

namespace Account

/-- The third record gives up two and leaves a marker. -/
theorem losses_accounted_third :
    ∃ s, RunMeets step (Orderly traceFormatter) (start (fun _ => 0) 40 traceLostRecordFormatter) (twenties 3) ∧
      run step (start (fun _ => 0) 40 traceLostRecordFormatter) (twenties 3) = some s ∧ Balanced traceFormatter s := by
  have orderly : RunMeets step (Orderly traceFormatter) (start (fun _ => 0) 40 traceLostRecordFormatter)
      (twenties 3) := by
    refine ⟨fun rec record is => ?_, fun s stepped => ?_⟩
    · cases is
      decide
    · obtain rfl := Option.some.inj stepped
      refine ⟨fun rec record is => ?_, fun s stepped => ?_⟩
      · cases is
        decide
      · obtain rfl := Option.some.inj stepped
        refine ⟨fun rec record is => ?_, fun s stepped => trivial⟩
        cases is
        decide
  have ran : (run step (start (fun _ => 0) 40 traceLostRecordFormatter) (twenties 3)).isSome := by decide
  obtain ⟨s, ran⟩ := Option.isSome_iff_exists.mp ran
  exact ⟨s, orderly, ran, losses_accounted _ _ traceFormatter (by decide) _ orderly _ ran⟩

/-- The fourth record gives up the marker and one more record: three are lost, the
marker left says two and `lostCount` four. -/
theorem marker_lost :
    ∃ s, run step (start (fun _ => 0) 40 traceLostRecordFormatter) (twenties 4) = some s ∧
      s.lost = [0, 1, 2] ∧ (markers (s.delivered ++ s.queue)).map traceLostCount = [2] ∧ s.ring.lostCount = 4 ∧
      ¬ Balanced traceFormatter s := by
  refine ⟨_, rfl, by decide, by decide, by decide, fun balanced => ?_⟩
  exact absurd balanced.counted (by decide)

end Account

end Q9OS.RingBuf

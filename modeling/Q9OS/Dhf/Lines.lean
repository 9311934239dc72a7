import Mathlib.Tactic
import Q9OS.Dhf.Device

/-!
# Lines

READLN on one handle, from the first line of the file to its end.
-/

namespace Q9OS

namespace Dhf

/-- What ends a line. -/
abbrev EndsLine (ch : UInt8) : Prop := ch = newline ∨ ch = carriageReturn

/-- A line with its end. -/
def IsLine (line : Bytes) : Prop := ∃ body ch, line = body ++ [ch] ∧ EndsLine ch ∧ ∀ b ∈ body, ¬ EndsLine b

/-- The first line, or what there is of it in `n` bytes. -/
def firstLine : Nat → Bytes → Bytes
  | 0, _ => []
  | _, [] => []
  | n + 1, ch :: rest => if EndsLine ch then [ch] else ch :: firstLine n rest

theorem firstLine_front (n : Nat) (rest : Bytes) : firstLine n rest <+: rest := by
  induction n generalizing rest with
  | zero => exact List.nil_prefix
  | succ n ih =>
    cases rest with
    | nil => exact List.nil_prefix
    | cons ch rest =>
      unfold firstLine
      split
      · simp
      · simpa using ih rest

theorem firstLine_length (n : Nat) (rest : Bytes) : (firstLine n rest).length ≤ n := by
  induction n generalizing rest with
  | zero => exact Nat.le_refl 0
  | succ n ih =>
    cases rest with
    | nil => exact Nat.zero_le _
    | cons ch rest =>
      unfold firstLine
      split
      · simp
      · simpa using ih rest

/-- Only the last byte can end the line. -/
theorem firstLine_ended (n : Nat) (rest : Bytes) : ∀ b ∈ (firstLine n rest).dropLast, ¬ EndsLine b := by
  induction n generalizing rest with
  | zero => simp [firstLine]
  | succ n ih =>
    cases rest with
    | nil => simp [firstLine]
    | cons ch rest =>
      unfold firstLine
      split
      · simp
      · next inner =>
        cases more : firstLine n rest with
        | nil => simp
        | cons ch' rest' =>
          intro b member
          rw [List.dropLast_cons_cons, ← more] at member
          obtain rfl | later := List.mem_cons.mp member
          · exact inner
          · exact ih rest b later

theorem firstLine_nil {n : Nat} {rest : Bytes} (some : 0 < n) (none : firstLine n rest = []) : rest = [] := by
  cases n with
  | zero => exact absurd some (Nat.lt_irrefl 0)
  | succ n =>
    cases rest with
    | nil => rfl
    | cons ch rest =>
      unfold firstLine at none
      split at none <;> cases none

theorem isLine_ne_nil {line : Bytes} (is : IsLine line) : line ≠ [] := by
  obtain ⟨body, ch, rfl, -, -⟩ := is
  simp

theorem isLine_cons {b : UInt8} {line : Bytes} (is : IsLine (b :: line)) :
    (EndsLine b ∧ line = []) ∨ (¬ EndsLine b ∧ IsLine line) := by
  obtain ⟨body, ch, split, ends, inner⟩ := is
  cases body with
  | nil =>
    obtain ⟨rfl, rfl⟩ := List.cons.inj split
    exact .inl ⟨ends, rfl⟩
  | cons b' body =>
    obtain ⟨rfl, rfl⟩ := List.cons.inj split
    exact .inr ⟨inner b (by simp), body, ch, rfl, ends, fun x member => inner x (by simp [member])⟩

/-- A line that fits is the first line. -/
theorem firstLine_line {n : Nat} {rest line : Bytes} (is : IsLine line) (front : line <+: rest) (fits : line.length ≤ n) :
    firstLine n rest = line := by
  induction n generalizing rest line with
  | zero => exact absurd (List.length_eq_zero_iff.mp (Nat.le_zero.mp fits)) (isLine_ne_nil is)
  | succ n ih =>
    cases line with
    | nil => exact absurd rfl (isLine_ne_nil is)
    | cons b line =>
      obtain ⟨after, rfl⟩ := front
      rw [List.cons_append]
      unfold firstLine
      obtain ⟨ends, rfl⟩ | ⟨inner, more⟩ := isLine_cons is
      · rw [if_pos ends]
      · rw [if_neg inner, ih more (List.prefix_append _ _) (by simpa using fits)]

section
variable {σ : Type} {host : Host σ} {fd : Nat}

/-- A file as the host reads it: its bytes in order, and none only at the end. -/
structure FileView (host : Host σ) (fd : Nat) where
  unread : σ → Bytes → Prop
  atEnd : ∀ s, unread s [] → ∃ s', host.read s fd 1 = (.ok [], s') ∧ unread s' []
  next : ∀ s b rest, unread s (b :: rest) → ∃ s', host.read s fd 1 = (.ok [b], s') ∧ unread s' rest

theorem readLine_first (view : FileView host fd) {s : σ} {rest : Bytes} (here : view.unread s rest) (n : Nat) (line : Bytes) :
    ∃ s', HostFs.readLine host s fd n line = (.ok (line ++ firstLine n rest), s') ∧
      view.unread s' (rest.drop (firstLine n rest).length) := by
  induction n generalizing s rest line with
  | zero => exact ⟨s, by simp [HostFs.readLine, firstLine], here⟩
  | succ n ih =>
    unfold HostFs.readLine
    cases rest with
    | nil =>
      obtain ⟨s', done, still⟩ := view.atEnd s here
      rw [done]
      exact ⟨s', by simp [firstLine], still⟩
    | cons ch rest =>
      obtain ⟨s', done, now⟩ := view.next s ch rest here
      rw [done]
      dsimp only
      unfold firstLine
      by_cases ends : EndsLine ch
      · rw [if_pos ends, if_pos ends]
        exact ⟨s', rfl, by simpa using now⟩
      · rw [if_neg ends, if_neg ends]
        obtain ⟨s'', read, after⟩ := ih now (line ++ [ch])
        exact ⟨s'', by rw [read, List.append_assoc]; rfl, by simpa using after⟩

/-! ### The memory -/

theorem storeBytes_outside (m : Mem) (a : Nat) (bytes : Bytes) (x : Nat) (outside : x < a) :
    Ram.storeBytes m a bytes x = m x := by
  induction bytes generalizing m a with
  | nil => rfl
  | cons b bytes ih =>
    rw [Ram.storeBytes, ih _ _ (by omega), if_neg (by omega)]

/-- What was stored is there. -/
theorem load_store (r : Ram) (a : Nat) (bytes : Bytes) : (r.store a bytes).load a bytes.length = bytes := by
  unfold Ram.load Ram.store
  dsimp only
  generalize r.bytes = m
  induction bytes generalizing m a with
  | nil => rfl
  | cons b bytes ih =>
    rw [List.length_cons, List.range_succ_eq_map, List.map_cons, List.map_map, Ram.storeBytes]
    refine congrArg₂ List.cons ?_ ?_
    · show Ram.storeBytes _ (a + 1) bytes a = b
      rw [storeBytes_outside _ _ _ _ (Nat.lt_add_one a), if_pos rfl]
    · refine Eq.trans (List.map_congr_left (fun i _ => ?_)) (ih (a + 1) (fun x => if x = a then b else m x))
      rw [Function.comp_apply, Nat.add_right_comm]
      rfl

/-! ### The command -/

/-- A READLN of at least one byte on handle `h`. -/
structure LineRead (h : Nat) where
  order : Order
  readln : order.shared.command = .readln
  handle : order.shared.d0 = h
  some : 1 ≤ order.shared.d1

namespace LineRead

variable {h : Nat}

/-- How many bytes a line can have. The buffer of the device keeps one for the NUL behind it. -/
def limit (o : LineRead h) : Nat := min o.order.shared.d1 Device.lineBuffer - 1

/-- The line that the command takes from the file. -/
def line (o : LineRead h) (rest : Bytes) : Bytes := firstLine o.limit rest

end LineRead

namespace Device

/-- The bytes delivered: d1 bytes at a1. -/
def delivered (done : Device σ) : Bytes :=
  if done.ram.holds done.shared.a1 done.shared.d1 then done.ram.load done.shared.a1 done.shared.d1 else []

/-- The bytes that each of the commands delivers, with the number it asked for. -/
def deliveries {h : Nat} (host : Host σ) (dev : Device σ) : List (LineRead h) → List (Nat × Bytes)
  | [] => []
  | o :: more =>
    let done := (dev.ordered o.order).process host
    (o.order.shared.d1, done.delivered) :: deliveries host done more

end Device

variable {h : Nat}

theorem processLocal_readln {dev : Device σ} (readln : dev.shared.command = .readln) : dev.processLocal host =
    dev.giveBytes (dev.fs.readln host dev.host dev.shared.d0 (min dev.shared.d1 Device.lineBuffer)) := by
  unfold Device.processLocal
  dsimp only
  rw [readln]

/-- One READLN takes the next line from the file, and delivers it when there is room. -/
theorem process_line (view : FileView host fd) (dev : Device σ) (file : dev.fs.fileOf h = some fd) {rest : Bytes}
    (here : view.unread dev.host rest) (o : LineRead h) :
    ((dev.ordered o.order).process host).fs = dev.fs ∧
      view.unread ((dev.ordered o.order).process host).host (rest.drop (o.line rest).length) ∧
      ((dev.ordered o.order).process host).delivered =
        if o.order.shared.a1 + (o.line rest).length ≤ o.order.ram.size then o.line rest else [] := by
  obtain ⟨s', read, after⟩ := readLine_first view here o.limit []
  have done : (dev.ordered o.order).fs.readln host (dev.ordered o.order).host (dev.ordered o.order).shared.d0
      (min (dev.ordered o.order).shared.d1 Device.lineBuffer) = (.ok (o.line rest), s') := by
    have room : min o.order.shared.d1 Device.lineBuffer ≠ 0 := by
      have full : Device.lineBuffer = 4096 := rfl
      have some := o.some
      omega
    show dev.fs.readln host dev.host o.order.shared.d0 (min o.order.shared.d1 Device.lineBuffer) = _
    unfold HostFs.readln HostFs.onFile
    rw [if_neg room, o.handle, file]
    dsimp only
    rw [show min o.order.shared.d1 Device.lineBuffer - 1 = o.limit from rfl, read]
    rfl
  have taken : (dev.ordered o.order).processLocal host =
      (dev.ordered o.order).giveBytes (.ok (o.line rest), s') := by
    rw [processLocal_readln o.readln, done]
  unfold Device.process
  rw [taken]
  refine ⟨rfl, after, ?_⟩
  unfold Device.giveBytes Device.delivered Ram.put Ram.holds Device.ordered
  dsimp only
  generalize o.line rest = line
  by_cases fits : o.order.shared.a1 + line.length ≤ o.order.ram.size
  · simp only [fits, decide_true, if_true]
    have still : o.order.shared.a1 + line.length ≤ (o.order.ram.store o.order.shared.a1 line).size := fits
    rw [if_pos (decide_eq_true still), load_store]
  · simp [fits]

/-! ### Reading without loss -/

/-- Lines are read without loss: `reads` are the numbers of bytes asked for with the bytes delivered. -/
structure LinesKept (content : Bytes) (reads : List (Nat × Bytes)) : Prop where
  front : (reads.map Prod.snd).flatten <+: content
  asked : ∀ read ∈ reads, read.2.length ≤ read.1
  ended : ∀ read ∈ reads, ∀ b ∈ read.2.dropLast, ¬ EndsLine b
  progress : ∀ before read after, reads = before ++ read :: after → read.2 = [] → (before.map Prod.snd).flatten = content
  whole : ∀ before read after line, reads = before ++ read :: after → IsLine line →
    (before.map Prod.snd).flatten ++ line <+: content → line.length ≤ read.1 → read.2 = line

/-- One read from the bytes that are left. -/
structure LineKept (rest : Bytes) (read : Nat × Bytes) : Prop where
  front : read.2 <+: rest
  asked : read.2.length ≤ read.1
  ended : ∀ b ∈ read.2.dropLast, ¬ EndsLine b
  progress : read.2 = [] → rest = []
  whole : ∀ line, IsLine line → line <+: rest → line.length ≤ read.1 → read.2 = line

theorem linesKept_nil (content : Bytes) : LinesKept content [] where
  front := List.nil_prefix
  asked := by simp
  ended := by simp
  progress := by simp
  whole := by simp

/-- What holds of the first read holds of the ones behind it. -/
theorem linesKept_cons {content : Bytes} {read : Nat × Bytes} {reads : List (Nat × Bytes)} :
    LinesKept content (read :: reads) ↔ LineKept content read ∧ LinesKept (content.drop read.2.length) reads := by
  constructor
  · intro kept
    have front := kept.front
    rw [List.map_cons, List.flatten_cons] at front
    obtain ⟨after, rfl⟩ := (List.prefix_append _ _).trans front
    refine ⟨⟨List.prefix_append _ _, kept.asked read (by simp), kept.ended read (by simp), fun none => ?_, fun line is fits => ?_⟩,
      ?_⟩
    · exact (kept.progress [] read reads rfl none).symm
    · exact kept.whole [] read reads line rfl is fits
    · rw [List.drop_left]
      refine ⟨(List.prefix_append_right_inj _).mp front, fun r member => kept.asked r (by simp [member]),
        fun r member => kept.ended r (by simp [member]), fun before r back split none => ?_,
        fun before r back line split is fits => ?_⟩
      · have all := kept.progress (read :: before) r back (by rw [split]; rfl) none
        rw [List.map_cons, List.flatten_cons] at all
        exact List.append_cancel_left all
      · refine kept.whole (read :: before) r back line (by rw [split]; rfl) is ?_
        rw [List.map_cons, List.flatten_cons, List.append_assoc]
        exact (List.prefix_append_right_inj _).mpr fits
  · rintro ⟨first, later⟩
    obtain ⟨after, rfl⟩ := first.front
    rw [List.drop_left] at later
    refine ⟨?_, ?_, ?_, fun before r back split none => ?_, fun before r back line split is fits => ?_⟩
    · rw [List.map_cons, List.flatten_cons]
      exact (List.prefix_append_right_inj _).mpr later.front
    · rintro r member
      obtain rfl | behind := List.mem_cons.mp member
      · exact first.asked
      · exact later.asked r behind
    · rintro r member
      obtain rfl | behind := List.mem_cons.mp member
      · exact first.ended
      · exact later.ended r behind
    · cases before with
      | nil =>
        obtain ⟨rfl, rfl⟩ := List.cons.inj split
        exact (first.progress none).symm
      | cons head before =>
        obtain ⟨rfl, rfl⟩ := List.cons.inj split
        rw [List.map_cons, List.flatten_cons, later.progress before r back rfl none]
    · cases before with
      | nil =>
        obtain ⟨rfl, rfl⟩ := List.cons.inj split
        exact first.whole line is fits
      | cons head before =>
        obtain ⟨rfl, rfl⟩ := List.cons.inj split
        rw [List.map_cons, List.flatten_cons, List.append_assoc] at fits
        exact later.whole before r back line rfl is ((List.prefix_append_right_inj _).mp fits)

/-- At the end of the file, or at least two bytes are asked for, the line has room at a1, and no line that just fits
needs the byte that is kept for the NUL. -/
def LineRead.Fits (rest : Bytes) (o : LineRead h) : Prop :=
  rest = [] ∨ (2 ≤ o.order.shared.d1 ∧ o.order.shared.a1 + (o.line rest).length ≤ o.order.ram.size ∧
    ∀ line, IsLine line → line <+: rest → line.length ≤ o.order.shared.d1 →
      line.length < min o.order.shared.d1 Device.lineBuffer)

/-- Every command fits the bytes that the ones before it have left. -/
def AllFit : Bytes → List (LineRead h) → Prop
  | _, [] => True
  | rest, o :: more => o.Fits rest ∧ AllFit (rest.drop (o.line rest).length) more

theorem limit_pos {o : LineRead h} (two : 2 ≤ o.order.shared.d1) : 0 < o.limit := by
  have full : Device.lineBuffer = 4096 := rfl
  unfold LineRead.limit
  omega

theorem lineKept_iff (rest : Bytes) (o : LineRead h) :
    LineKept rest (o.order.shared.d1,
      if o.order.shared.a1 + (o.line rest).length ≤ o.order.ram.size then o.line rest else []) ↔ o.Fits rest := by
  have full : Device.lineBuffer = 4096 := rfl
  have short : (o.line rest).length ≤ o.limit := firstLine_length _ _
  have limit : o.limit = min o.order.shared.d1 Device.lineBuffer - 1 := rfl
  have some := o.some
  constructor
  · intro kept
    by_cases atEnd : rest = []
    · exact .inl atEnd
    · have taken : ¬ (if o.order.shared.a1 + (o.line rest).length ≤ o.order.ram.size then o.line rest else []) = [] :=
        fun none => atEnd (kept.progress none)
      split at taken
      · next room =>
        have filled : 0 < (o.line rest).length := List.length_pos_iff.mpr taken
        refine .inr ⟨by omega, room, fun line is front fits => ?_⟩
        have one : o.line rest = line := by
          have whole := kept.whole line is front fits
          rw [if_pos room] at whole
          exact whole
        rw [one] at short
        have some_line := List.length_pos_iff.mpr (isLine_ne_nil is)
        omega
      · exact absurd rfl taken
  · rintro (rfl | ⟨two, room, lines⟩)
    · have none : o.line [] = [] := List.prefix_nil.mp (firstLine_front _ _)
      rw [none, ite_self]
      refine ⟨List.nil_prefix, Nat.zero_le _, by simp, fun _ => rfl, fun line is front _ => ?_⟩
      exact absurd (List.prefix_nil.mp front) (isLine_ne_nil is)
    · rw [if_pos room]
      refine ⟨firstLine_front _ _, ?_, firstLine_ended _ _, fun none => firstLine_nil (limit_pos two) none,
        fun line is front fits => ?_⟩
      · show (o.line rest).length ≤ o.order.shared.d1
        omega
      · have low := lines line is front fits
        exact firstLine_line is front (by omega)

/-- A delivery that keeps the line is the line that was taken. -/
theorem kept_drop {rest : Bytes} {o : LineRead h} (fits : o.Fits rest) :
    (if o.order.shared.a1 + (o.line rest).length ≤ o.order.ram.size then o.line rest else []).length =
      (o.line rest).length := by
  rcases fits with rfl | ⟨-, room, -⟩
  · have none : o.line [] = [] := List.prefix_nil.mp (firstLine_front _ _)
    rw [none, ite_self]
  · rw [if_pos room]

/-- READLN on one handle loses nothing and makes progress exactly when every command fits. -/
theorem lines_kept_iff (view : FileView host fd) (dev : Device σ) (file : dev.fs.fileOf h = some fd) {content : Bytes}
    (start : view.unread dev.host content) (orders : List (LineRead h)) :
    LinesKept content (dev.deliveries host orders) ↔ AllFit content orders := by
  induction orders generalizing dev content with
  | nil => exact iff_of_true (linesKept_nil content) trivial
  | cons o orders ih =>
    obtain ⟨same, after, delivered⟩ := process_line view dev file start o
    unfold Device.deliveries AllFit
    dsimp only
    rw [linesKept_cons, delivered, lineKept_iff]
    refine and_congr_right (fun fits => ?_)
    rw [kept_drop fits]
    exact ih _ (by rw [same]; exact file) after

end

/-! ### A file on a host -/

/-- A host whose state is what is left of its one file. -/
def fileHost : Host Bytes where
  realpath _ path := some path
  getcwd _ := [slash]
  openFile s _ _ _ := (.ok 0, s)
  closeFile s _ := s
  read s _ n := (.ok (s.take n), s.drop n)
  write s _ bytes := (.ok bytes.length, s)
  lseek s _ _ _ := (.ok 0, s)
  stat s _ := .ok ⟨s.length, 0o644, 0, 0, false⟩
  mkdir s _ _ := (.error .eexist, s)
  rmdir s _ := (.error .enotdir, s)
  unlink s _ := (.error .eacces, s)
  rename s _ _ := (.error .eacces, s)
  openDir s _ := (.error .enotdir, s)
  readDir s _ := (none, s)
  closeDir s _ := s

def fileHostView : FileView fileHost 0 where
  unread s rest := s = rest
  atEnd := by
    rintro s rfl
    exact ⟨[], rfl, rfl⟩
  next := by
    rintro s b rest rfl
    exact ⟨rest, rfl, rfl⟩

/-- The file of handle 1, of which "ab" and a newline are left. -/
def lineDevice : Device Bytes :=
  ⟨⟨[slash], [], fun i => if i = 1 then some ⟨.file 0, [slash]⟩ else none⟩, [0x61, 0x62, newline], ⟨fun _ => 0, 256⟩,
    ⟨.idle, 0, 0, 0, 0, 0, 0⟩⟩

def readLineOf (d1 : Nat) (some : 1 ≤ d1) : LineRead 1 where
  order := ⟨⟨fun _ => 0, 256⟩, ⟨.readln, 0, 0, 64, 1, d1, 0⟩⟩
  readln := rfl
  handle := rfl
  some := some

/-- With a byte to spare the line comes whole, and then the end of the file. -/
theorem lines_kept_spare : LinesKept [0x61, 0x62, newline]
    (lineDevice.deliveries fileHost [readLineOf 4 (by decide), readLineOf 4 (by decide)]) := by
  refine (lines_kept_iff fileHostView lineDevice rfl rfl _).mpr ⟨.inr ⟨by decide, by decide, fun line _ front _ => ?_⟩, .inl rfl, trivial⟩
  have short := front.length_le
  have full : min (readLineOf 4 (by decide)).order.shared.d1 Device.lineBuffer = 4 := rfl
  rw [full]
  exact Nat.lt_succ_of_le short

/-- A READLN of one byte delivers nothing, and the file is not at its end. -/
theorem readln_one_stuck : ¬ LinesKept [0x61, 0x62, newline] (lineDevice.deliveries fileHost [readLineOf 1 (by decide)]) := by
  intro kept
  have none : lineDevice.deliveries fileHost [readLineOf 1 (by decide)] = [(1, [])] := by decide
  have atEnd := kept.progress [] (1, []) [] none rfl
  cases atEnd

end Dhf

end Q9OS

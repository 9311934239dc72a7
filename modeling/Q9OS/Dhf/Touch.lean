import Mathlib.Tactic
import Q9OS.Dhf.Device
import Q9OS.Dhf.Ledger

/-!
# What the device touches

Every access of the local backend to the memory of the guest: the strings and
buffers a command reads and the results it writes.
-/

namespace Q9OS

namespace Dhf

inductive Touch where
  | read (a n : Nat)
  | write (a : Nat) (bytes : Bytes)

namespace Touch

/-- The addresses read. -/
def sources : Touch → List Nat
  | .read a n => List.range' a n
  | .write _ _ => []

/-- The addresses written. -/
def targets : Touch → List Nat
  | .read _ _ => []
  | .write a bytes => List.range' a bytes.length

/-- All of it lies in a memory of `size` bytes. -/
def Inside (size : Nat) : Touch → Prop
  | .read a n => a + n ≤ size
  | .write a bytes => a + bytes.length ≤ size

end Touch

namespace Ram

/-- A string is read up to its end. One that does not end in the memory is read on behind it, by one byte at
the least. -/
def touchText (r : Ram) (a : Nat) : List Touch :=
  match r.text a with
  | none => []
  | some string => [.read a (string.length + 1)]

/-- Result bytes, as `put` writes them. -/
def touchPut (r : Ram) (a : Nat) (bytes : Bytes) : List Touch := if r.holds a bytes.length then [.write a bytes] else []

/-- The memory after its accesses. -/
def after (r : Ram) : List Touch → Ram
  | [] => r
  | .read _ _ :: rest => r.after rest
  | .write a bytes :: rest => (r.store a bytes).after rest

/-- A string that starts in the memory ends there. -/
def Ended (r : Ram) (a : Nat) : Prop := r.text a ≠ none → ∃ x, a ≤ x ∧ x < r.size ∧ r.bytes x = 0

end Ram

section
variable {σ : Type} (host : Host σ)

namespace Device

/-- What READ, READLN, GETSTT and READDIR touch besides the path. -/
def touchResult (dev : Device σ) : List Touch :=
  let s := dev.shared
  match s.command with
  | .read =>
    if dev.ram.holds s.a1 s.d1 then
      match dev.fs.read host dev.host s.d0 s.d1 with
      | (.ok bytes, _) => [.write s.a1 bytes]
      | (.error _, _) => []
    else []
  | .readln =>
    match dev.fs.readln host dev.host s.d0 (min s.d1 lineBuffer) with
    | (.ok bytes, _) => dev.ram.touchPut s.a1 bytes
    | (.error _, _) => []
  | .getstt =>
    match dev.fs.getstat host dev.host (dev.ram.text s.a0) with
    | .ok st => if s.a1 ≠ 0 then dev.ram.touchPut s.a1 st.bytes else []
    | .error _ => []
  | .readdir =>
    match dev.fs.readdir host dev.host s.d0 with
    | (.ok (some entry), _) => if s.a1 ≠ 0 then dev.ram.touchPut s.a1 (entryBytes entry) else []
    | (.ok none, _) => []
    | (.error _, _) => []
  | _ => []

/-- What WRITE, WRITELN and RENAME read besides the path. The second path of a RENAME is only looked at when the
first is accepted, and no bytes are written without an open file. -/
def touchData (dev : Device σ) : List Touch :=
  let s := dev.shared
  let buffer := if dev.ram.holds s.a1 s.d1 ∧ dev.fs.fileOf s.d0 ≠ none then [.read s.a1 s.d1] else []
  match s.command with
  | .write => buffer
  | .writeln => buffer
  | .rename =>
    match dev.fs.resolveConfinedPath (host.realpath dev.host) (dev.ram.text s.a0) with
    | some _ => dev.ram.touchText s.a1
    | none => []
  | _ => []

/-- Every access of `dhf_emu_device_process` to the memory, in order. -/
def touches (dev : Device σ) : List Touch :=
  (if dev.shared.command.takesPath then dev.ram.touchText dev.shared.a0 else []) ++ dev.touchData host ++
    dev.touchResult host

/-- Commands that report how many bytes they put at a1. -/
def reports : Command → Bool
  | .read | .readln | .getstt | .readdir => true
  | _ => false

end Device

/-- A command stays in the memory, and a success with `k` in d1 has put `k` bytes at a1. -/
structure Sound (dev : Device σ) : Prop where
  inside : ∀ touch ∈ dev.touches host, touch.Inside dev.ram.size
  stored : Device.reports dev.shared.command = true → (dev.process host).shared.status = errOk →
    (dev.touches host).flatMap Touch.targets = List.range' dev.shared.a1 (dev.process host).shared.d1
  asked : dev.shared.command = .read ∨ dev.shared.command = .readln → (dev.process host).shared.status = errOk →
    (dev.process host).shared.d1 ≤ dev.shared.d1

/-- The strings of a command end in the memory. -/
def Strings (dev : Device σ) : Prop :=
  (dev.shared.command.takesPath = true → dev.ram.Ended dev.shared.a0) ∧
    (dev.shared.command = .rename → dev.fs.resolveConfinedPath (host.realpath dev.host) (dev.ram.text dev.shared.a0) ≠ none →
      dev.ram.Ended dev.shared.a1)

/-- There is room at a1 for the line, the status or the entry that the host has for the guest. -/
structure Room (dev : Device σ) : Prop where
  line : dev.shared.command = .readln → ∀ line s, dev.fs.readln host dev.host dev.shared.d0
    (min dev.shared.d1 Device.lineBuffer) = (.ok line, s) → line ≠ [] → dev.shared.a1 + line.length ≤ dev.ram.size
  stat : dev.shared.command = .getstt → ∀ st, dev.fs.getstat host dev.host (dev.ram.text dev.shared.a0) = .ok st →
    dev.shared.a1 ≠ 0 ∧ dev.shared.a1 + 16 ≤ dev.ram.size
  entry : dev.shared.command = .readdir → ∀ entry s, dev.fs.readdir host dev.host dev.shared.d0 = (.ok (some entry), s) →
    dev.shared.a1 ≠ 0 → dev.shared.a1 + (entry.1.length + 9) ≤ dev.ram.size

variable {host} {dev : Device σ}

/-! ### Strings -/

/-- What stands behind the longest front of a kind is not of the kind. -/
theorem takeWhile_stops {α : Type} {kind : α → Bool} {l : List α} {b : α}
    (next : l[(l.takeWhile kind).length]? = some b) : kind b = false := by
  induction l with
  | nil => simp at next
  | cons a l ih =>
    by_cases is : kind a = true
    · rw [List.takeWhile_cons_of_pos is, List.length_cons, List.getElem?_cons_succ] at next
      exact ih next
    · rw [List.takeWhile_cons_of_neg is] at next
      obtain rfl : a = b := by simpa using next
      simpa using is

/-- Two lists of one length that agree up to the stop have the same front. -/
theorem takeWhile_agree {α : Type} {kind : α → Bool} {l l' : List α} (length : l'.length = l.length)
    (same : ∀ i, i ≤ (l.takeWhile kind).length → l'[i]? = l[i]?) : l'.takeWhile kind = l.takeWhile kind := by
  induction l generalizing l' with
  | nil => rw [List.length_eq_zero_iff.mp length]
  | cons a l ih =>
    cases l' with
    | nil => cases length
    | cons a' l' =>
      obtain rfl : a' = a := by simpa using same 0 (Nat.zero_le _)
      by_cases is : kind a' = true
      · rw [List.takeWhile_cons_of_pos is] at same ⊢
        rw [List.takeWhile_cons_of_pos is, ih (by simpa using length) (fun i inside => ?_)]
        simpa using same (i + 1) (by simpa using inside)
      · rw [List.takeWhile_cons_of_neg is, List.takeWhile_cons_of_neg is]

theorem text_some {r : Ram} {a : Nat} {string : Bytes} (text : r.text a = some string) :
    a < r.size ∧ string = (r.load a (r.size - a)).takeWhile (· ≠ 0) := by
  unfold Ram.text at text
  split at text
  · cases text
  · next here =>
    cases text
    exact ⟨by omega, rfl⟩

/-- A string ends in the memory when the access for it does. -/
theorem touchText_inside (r : Ram) (a : Nat) : (∀ touch ∈ r.touchText a, touch.Inside r.size) ↔ r.Ended a := by
  unfold Ram.touchText Ram.Ended
  cases text : r.text a with
  | none => simp
  | some string =>
    obtain ⟨here, is⟩ := text_some text
    have length : (r.load a (r.size - a)).length = r.size - a := by simp [Ram.load]
    have cell (i : Nat) (low : i < r.size - a) : (r.load a (r.size - a))[i]? = some (r.bytes (a + i)) := by
      simp [Ram.load, low]
    simp only [List.mem_singleton, forall_eq, Touch.Inside]
    constructor
    · intro inside _
      refine ⟨a + string.length, by omega, by omega, ?_⟩
      have next := cell string.length (by omega)
      have stop : (r.load a (r.size - a))[((r.load a (r.size - a)).takeWhile (· ≠ 0)).length]? =
          some (r.bytes (a + string.length)) := by rw [← is, next]
      simpa using takeWhile_stops stop
    · intro ended
      obtain ⟨x, low, high, zero⟩ := ended (by simp)
      by_contra long
      have whole : string.length = r.size - a := by
        have le : string.length ≤ (r.load a (r.size - a)).length := by
          rw [is]
          exact (List.takeWhile_prefix _).length_le
        omega
      have same : (r.load a (r.size - a)).takeWhile (· ≠ 0) = r.load a (r.size - a) :=
        (List.takeWhile_prefix _).eq_of_length (by rw [← is, whole, length])
      have member : (0 : UInt8) ∈ r.load a (r.size - a) := by
        have found := cell (x - a) (by omega)
        rw [Nat.add_sub_cancel' low, zero] at found
        exact List.mem_of_getElem? found
      rw [← same] at member
      exact absurd (List.all_eq_true.mp List.all_takeWhile 0 member) (by decide)

theorem text_agree {r r' : Ram} {a : Nat} (size : r'.size = r.size)
    (same : ∀ touch ∈ r.touchText a, ∀ x ∈ touch.sources, x < r.size → r'.bytes x = r.bytes x) : r'.text a = r.text a := by
  unfold Ram.touchText at same
  cases text : r.text a with
  | none =>
    unfold Ram.text at text ⊢
    rw [size]
    split at text
    · next outside => rw [if_pos outside]
    · cases text
  | some string =>
    rw [text] at same
    simp only [List.mem_singleton, forall_eq, Touch.sources, List.mem_range'_1] at same
    obtain ⟨here, is⟩ := text_some text
    have zero : ¬ (a = 0 ∨ a ≥ r.size) := by
      intro outside
      rw [Ram.text, if_pos outside] at text
      cases text
    unfold Ram.text
    rw [size, if_neg zero, is]
    refine congrArg some (takeWhile_agree (by simp [Ram.load]) (fun i inside => ?_))
    rw [← is] at inside
    by_cases low : i < r.size - a
    · have cell := same (a + i) ⟨by omega, by omega⟩ (by omega)
      simp [Ram.load, low, cell]
    · simp [Ram.load, low]

theorem load_agree {r r' : Ram} {a n : Nat} (same : ∀ x ∈ List.range' a n, r'.bytes x = r.bytes x) :
    r'.load a n = r.load a n := by
  unfold Ram.load
  refine List.map_congr_left (fun i member => ?_)
  exact same (a + i) (List.mem_range'_1.mpr ⟨by omega, by have := List.mem_range.mp member; omega⟩)

/-! ### The accesses are those of the command -/

theorem after_append (r : Ram) (l l' : List Touch) : r.after (l ++ l') = (r.after l).after l' := by
  induction l generalizing r with
  | nil => rfl
  | cons touch l ih =>
    cases touch with
    | read a n => exact ih r
    | write a bytes => exact ih (r.store a bytes)

theorem after_touchText (r r' : Ram) (a : Nat) : r.after (r'.touchText a) = r := by
  unfold Ram.touchText
  split <;> rfl

theorem after_touchPut (r : Ram) (a : Nat) (bytes : Bytes) : r.after (r.touchPut a bytes) = r.put a bytes := by
  unfold Ram.touchPut Ram.put
  split <;> rfl

theorem after_touchData (r : Ram) (dev : Device σ) : r.after (dev.touchData host) = r := by
  unfold Device.touchData
  dsimp only
  split
  · split <;> rfl
  · split <;> rfl
  · split
    · exact after_touchText r dev.ram _
    · rfl
  · rfl

/-- The memory after a command is the memory after its writes. -/
theorem process_ram (reads : host.ReadsAtMost) (dev : Device σ) :
    (dev.process host).ram = dev.ram.after (dev.touches host) := by
  have local_ram : (dev.process host).ram = (dev.processLocal host).ram := rfl
  have path : dev.ram.after (if dev.shared.command.takesPath then dev.ram.touchText dev.shared.a0 else []) = dev.ram := by
    split
    · exact after_touchText _ _ _
    · rfl
  unfold Device.touches
  rw [local_ram, after_append, after_append, path, after_touchData]
  unfold Device.processLocal Device.touchResult
  dsimp only
  cases command : dev.shared.command with
  | read =>
    dsimp only
    by_cases inside : dev.ram.holds dev.shared.a1 dev.shared.d1 = true
    · rw [if_pos inside, if_pos inside]
      cases done : dev.fs.read host dev.host dev.shared.d0 dev.shared.d1 with
      | mk result s =>
        cases result with
        | error status => rfl
        | ok bytes =>
          have short := read_length reads done
          unfold Ram.holds at inside
          have fits : dev.ram.holds dev.shared.a1 bytes.length = true := by
            unfold Ram.holds
            have room := of_decide_eq_true inside
            exact decide_eq_true (by omega)
          unfold Device.giveBytes Ram.put
          dsimp only
          rw [if_pos fits]
          rfl
    · rw [if_neg inside, if_neg inside]
      rfl
  | readln =>
    dsimp only
    cases dev.fs.readln host dev.host dev.shared.d0 (min dev.shared.d1 Device.lineBuffer) with
    | mk result s =>
      cases result with
      | error status => rfl
      | ok line => exact (after_touchPut _ _ _).symm
  | getstt =>
    dsimp only
    cases dev.fs.getstat host dev.host (dev.ram.text dev.shared.a0) with
    | error status => rfl
    | ok st =>
      dsimp only
      split
      · exact (after_touchPut _ _ _).symm
      · rfl
  | readdir =>
    dsimp only
    cases dev.fs.readdir host dev.host dev.shared.d0 with
    | mk result s =>
      cases result with
      | error status => rfl
      | ok found =>
        cases found with
        | none => rfl
        | some entry =>
          dsimp only
          split
          · exact (after_touchPut _ _ _).symm
          · rfl
  | write =>
    dsimp only
    split <;> rfl
  | writeln =>
    dsimp only
    split <;> rfl
  | _ => rfl

/-- The registers after a command depend on the memory only where it is read. -/
theorem process_reads (ram : Ram) (size : ram.size = dev.ram.size)
    (same : ∀ touch ∈ dev.touches host, ∀ x ∈ touch.sources, x < dev.ram.size → ram.bytes x = dev.ram.bytes x) :
    ({ dev with ram := ram }.process host).shared = (dev.process host).shared ∧
      ({ dev with ram := ram }.process host).fs = (dev.process host).fs ∧
      ({ dev with ram := ram }.process host).host = (dev.process host).host := by
  have holds (a n : Nat) : ram.holds a n = dev.ram.holds a n := by
    unfold Ram.holds
    rw [size]
  have path : dev.shared.command.takesPath = true → ram.text dev.shared.a0 = dev.ram.text dev.shared.a0 := by
    intro takes
    refine text_agree size (fun touch member => same touch ?_)
    unfold Device.touches
    rw [if_pos takes]
    exact List.mem_append_left _ (List.mem_append_left _ member)
  have data (touch : Touch) (member : touch ∈ dev.touchData host) : ∀ x ∈ touch.sources, x < dev.ram.size →
      ram.bytes x = dev.ram.bytes x :=
    same touch (List.mem_append_left _ (List.mem_append_right _ member))
  have buffer (is : dev.touchData host = if dev.ram.holds dev.shared.a1 dev.shared.d1 ∧ dev.fs.fileOf dev.shared.d0 ≠ none then
      [.read dev.shared.a1 dev.shared.d1] else []) (inside : dev.ram.holds dev.shared.a1 dev.shared.d1 = true) :
      dev.fs.fileOf dev.shared.d0 = none ∨ ram.load dev.shared.a1 dev.shared.d1 = dev.ram.load dev.shared.a1 dev.shared.d1 := by
    by_cases file : dev.fs.fileOf dev.shared.d0 = none
    · exact .inl file
    · refine .inr (load_agree (fun x member => ?_))
      have room : dev.shared.a1 + dev.shared.d1 ≤ dev.ram.size := of_decide_eq_true inside
      have bound := List.mem_range'_1.mp member
      rw [if_pos ⟨inside, file⟩] at is
      exact data (.read dev.shared.a1 dev.shared.d1) (by rw [is]; exact List.mem_singleton_self _) x member (by omega)
  unfold Device.process Device.processLocal
  dsimp only
  cases command : dev.shared.command with
  | read =>
    dsimp only
    rw [holds]
    by_cases inside : dev.ram.holds dev.shared.a1 dev.shared.d1 = true
    · simp only [if_pos inside]
      cases dev.fs.read host dev.host dev.shared.d0 dev.shared.d1 with
      | mk result s => cases result <;> exact ⟨rfl, rfl, rfl⟩
    · simp only [if_neg inside]
      exact ⟨rfl, rfl, rfl⟩
  | readln =>
    dsimp only
    cases dev.fs.readln host dev.host dev.shared.d0 (min dev.shared.d1 Device.lineBuffer) with
    | mk result s => cases result <;> exact ⟨rfl, rfl, rfl⟩
  | write =>
    have is : dev.touchData host = if dev.ram.holds dev.shared.a1 dev.shared.d1 ∧ dev.fs.fileOf dev.shared.d0 ≠ none then
        [.read dev.shared.a1 dev.shared.d1] else [] := by
      unfold Device.touchData
      dsimp only
      rw [command]
    dsimp only
    rw [holds]
    by_cases inside : dev.ram.holds dev.shared.a1 dev.shared.d1 = true
    · simp only [if_pos inside]
      rcases buffer is inside with closed | loaded
      · have none (bytes : Bytes) : dev.fs.write host dev.host dev.shared.d0 bytes = (.error errBadPath, dev.host) := by
          unfold HostFs.write HostFs.onFile
          rw [closed]
        rw [none, none]
        exact ⟨rfl, rfl, rfl⟩
      · rw [loaded]
        exact ⟨rfl, rfl, rfl⟩
    · simp only [if_neg inside]
      exact ⟨rfl, rfl, rfl⟩
  | writeln =>
    have is : dev.touchData host = if dev.ram.holds dev.shared.a1 dev.shared.d1 ∧ dev.fs.fileOf dev.shared.d0 ≠ none then
        [.read dev.shared.a1 dev.shared.d1] else [] := by
      unfold Device.touchData
      dsimp only
      rw [command]
    dsimp only
    rw [holds]
    by_cases inside : dev.ram.holds dev.shared.a1 dev.shared.d1 = true
    · simp only [if_pos inside]
      rcases buffer is inside with closed | loaded
      · have none (bytes : Bytes) : dev.fs.writeln host dev.host dev.shared.d0 bytes = (.error errBadPath, dev.host) := by
          unfold HostFs.writeln HostFs.write HostFs.onFile
          rw [closed]
        rw [none, none]
        exact ⟨rfl, rfl, rfl⟩
      · rw [loaded]
        exact ⟨rfl, rfl, rfl⟩
    · simp only [if_neg inside]
      exact ⟨rfl, rfl, rfl⟩
  | rename =>
    rw [command] at path
    have old := path rfl
    dsimp only
    rw [old]
    cases accepted : dev.fs.resolveConfinedPath (host.realpath dev.host) (dev.ram.text dev.shared.a0) with
    | none =>
      have refused (new : Option Bytes) : dev.fs.rename host dev.host (dev.ram.text dev.shared.a0) new =
          (.error errNoPermission, dev.host) := by
        unfold HostFs.rename
        rw [accepted]
      rw [refused, refused]
      exact ⟨rfl, rfl, rfl⟩
    | some target =>
      have new : ram.text dev.shared.a1 = dev.ram.text dev.shared.a1 := by
        refine text_agree size (fun touch member => data touch ?_)
        unfold Device.touchData
        dsimp only
        rw [command]
        dsimp only
        rw [accepted]
        exact member
      rw [new]
      exact ⟨rfl, rfl, rfl⟩
  | getstt =>
    rw [command] at path
    dsimp only
    rw [path rfl]
    cases dev.fs.getstat host dev.host (dev.ram.text dev.shared.a0) <;> exact ⟨rfl, rfl, rfl⟩
  | readdir =>
    dsimp only
    cases dev.fs.readdir host dev.host dev.shared.d0 with
    | mk result s =>
      cases result with
      | error status => exact ⟨rfl, rfl, rfl⟩
      | ok found =>
        cases found with
        | none => exact ⟨rfl, rfl, rfl⟩
        | some entry =>
          dsimp only
          by_cases null : dev.shared.a1 ≠ 0
          · rw [if_pos null, if_pos null]
            exact ⟨rfl, rfl, rfl⟩
          · rw [if_neg null, if_neg null]
            exact ⟨rfl, rfl, rfl⟩
  | init =>
    rw [command] at path
    dsimp only
    rw [path rfl]
    exact ⟨rfl, rfl, rfl⟩
  | openPath =>
    rw [command] at path
    dsimp only
    rw [path rfl]
    exact ⟨rfl, rfl, rfl⟩
  | create =>
    rw [command] at path
    dsimp only
    rw [path rfl]
    exact ⟨rfl, rfl, rfl⟩
  | setstt =>
    rw [command] at path
    dsimp only
    rw [path rfl]
    exact ⟨rfl, rfl, rfl⟩
  | chdir =>
    rw [command] at path
    dsimp only
    rw [path rfl]
    exact ⟨rfl, rfl, rfl⟩
  | mkdir =>
    rw [command] at path
    dsimp only
    rw [path rfl]
    exact ⟨rfl, rfl, rfl⟩
  | rmdir =>
    rw [command] at path
    dsimp only
    rw [path rfl]
    exact ⟨rfl, rfl, rfl⟩
  | delete =>
    rw [command] at path
    dsimp only
    rw [path rfl]
    exact ⟨rfl, rfl, rfl⟩
  | opendir =>
    rw [command] at path
    dsimp only
    rw [path rfl]
    exact ⟨rfl, rfl, rfl⟩
  | _ => exact ⟨rfl, rfl, rfl⟩

/-! ### Where the accesses lie -/

theorem touchPut_inside (r : Ram) (a : Nat) (bytes : Bytes) : ∀ touch ∈ r.touchPut a bytes, touch.Inside r.size := by
  unfold Ram.touchPut
  intro touch member
  split at member
  · next fits =>
    obtain rfl := List.mem_singleton.mp member
    have room : a + bytes.length ≤ r.size := of_decide_eq_true fits
    exact room
  · cases member

theorem touchPut_targets (r : Ram) (a : Nat) (bytes : Bytes) :
    (r.touchPut a bytes).flatMap Touch.targets = List.range' a bytes.length ↔ bytes = [] ∨ a + bytes.length ≤ r.size := by
  unfold Ram.touchPut Ram.holds
  by_cases fits : a + bytes.length ≤ r.size
  · simp [fits, Touch.targets]
  · have some : bytes ≠ [] ∨ bytes = [] := by tauto
    simp only [fits, decide_false, Bool.false_eq_true, if_false, List.flatMap_nil, or_false]
    constructor
    · intro none
      have length := congrArg List.length none
      rw [List.length_range'] at length
      exact List.length_eq_zero_iff.mp length.symm
    · rintro rfl
      rfl

theorem touchText_targets (r : Ram) (a : Nat) : (r.touchText a).flatMap Touch.targets = [] := by
  unfold Ram.touchText
  split <;> rfl

theorem touchData_targets (dev : Device σ) : (dev.touchData host).flatMap Touch.targets = [] := by
  unfold Device.touchData
  dsimp only
  split
  · split <;> rfl
  · split <;> rfl
  · split
    · exact touchText_targets _ _
    · rfl
  · rfl

/-- Only the results are written. -/
theorem touches_targets (dev : Device σ) :
    (dev.touches host).flatMap Touch.targets = (dev.touchResult host).flatMap Touch.targets := by
  have path : (if dev.shared.command.takesPath then dev.ram.touchText dev.shared.a0 else []).flatMap Touch.targets = [] := by
    split
    · exact touchText_targets _ _
    · rfl
  unfold Device.touches
  rw [List.flatMap_append, List.flatMap_append, path, touchData_targets]
  rfl

theorem touchResult_inside (reads : host.ReadsAtMost) (dev : Device σ) :
    ∀ touch ∈ dev.touchResult host, touch.Inside dev.ram.size := by
  unfold Device.touchResult
  intro touch member
  dsimp only at member
  split at member
  · split at member
    · next fits =>
      cases done : dev.fs.read host dev.host dev.shared.d0 dev.shared.d1 with
      | mk result s =>
        rw [done] at member
        cases result with
        | error status => cases member
        | ok bytes =>
          obtain rfl := List.mem_singleton.mp member
          have short := read_length reads done
          have room : dev.shared.a1 + dev.shared.d1 ≤ dev.ram.size := of_decide_eq_true fits
          show dev.shared.a1 + bytes.length ≤ dev.ram.size
          omega
    · cases member
  · split at member
    · exact touchPut_inside _ _ _ touch member
    · cases member
  · split at member
    · split at member
      · exact touchPut_inside _ _ _ touch member
      · cases member
    · cases member
  · split at member
    · split at member
      · exact touchPut_inside _ _ _ touch member
      · cases member
    · cases member
    · cases member
  · cases member

theorem buffer_inside (dev : Device σ) (open' : Prop) [Decidable open'] (touch : Touch)
    (member : touch ∈ if dev.ram.holds dev.shared.a1 dev.shared.d1 ∧ open' then [Touch.read dev.shared.a1 dev.shared.d1] else []) :
    touch.Inside dev.ram.size := by
  split at member
  · next fits =>
    obtain rfl := List.mem_singleton.mp member
    have room : dev.shared.a1 + dev.shared.d1 ≤ dev.ram.size := of_decide_eq_true fits.1
    exact room
  · cases member

/-- Buffers are looked up in the memory first: only strings can leave it. -/
theorem touches_inside (reads : host.ReadsAtMost) (dev : Device σ) :
    (∀ touch ∈ dev.touches host, touch.Inside dev.ram.size) ↔ Strings host dev := by
  have path : (∀ touch ∈ if dev.shared.command.takesPath then dev.ram.touchText dev.shared.a0 else [],
      touch.Inside dev.ram.size) ↔ (dev.shared.command.takesPath = true → dev.ram.Ended dev.shared.a0) := by
    by_cases takes : dev.shared.command.takesPath = true
    · rw [if_pos takes, touchText_inside]
      simp [takes]
    · simp [takes]
  have data : (∀ touch ∈ dev.touchData host, touch.Inside dev.ram.size) ↔ (dev.shared.command = .rename →
      dev.fs.resolveConfinedPath (host.realpath dev.host) (dev.ram.text dev.shared.a0) ≠ none → dev.ram.Ended dev.shared.a1) := by
    unfold Device.touchData
    dsimp only
    cases command : dev.shared.command with
    | rename =>
      cases dev.fs.resolveConfinedPath (host.realpath dev.host) (dev.ram.text dev.shared.a0) with
      | none => simp
      | some target => simp [touchText_inside]
    | write =>
      refine ⟨fun _ other => (nomatch other), fun _ => ?_⟩
      exact buffer_inside dev _
    | writeln =>
      refine ⟨fun _ other => (nomatch other), fun _ => ?_⟩
      exact buffer_inside dev _
    | _ => simp
  unfold Device.touches Strings
  rw [← path, ← data]
  constructor
  · intro inside
    exact ⟨fun touch member => inside touch (List.mem_append_left _ (List.mem_append_left _ member)),
      fun touch member => inside touch (List.mem_append_left _ (List.mem_append_right _ member))⟩
  · rintro ⟨paths, buffers⟩ touch member
    rcases List.mem_append.mp member with first | result
    · rcases List.mem_append.mp first with here | there
      · exact paths touch here
      · exact buffers touch there
    · exact touchResult_inside reads dev touch result

/-! ### What is reported -/

/-- A success has put the bytes it reports at a1. -/
def Stored (host : Host σ) (dev : Device σ) : Prop :=
  (dev.process host).shared.status = errOk →
    (dev.touchResult host).flatMap Touch.targets = List.range' dev.shared.a1 (dev.process host).shared.d1

theorem read_stored (command : dev.shared.command = .read) : Stored host dev := by
  unfold Stored Device.process Device.processLocal Device.touchResult
  dsimp only
  rw [command]
  dsimp only
  by_cases inside : dev.ram.holds dev.shared.a1 dev.shared.d1 = true
  · rw [if_pos inside, if_pos inside]
    cases dev.fs.read host dev.host dev.shared.d0 dev.shared.d1 with
    | mk result s =>
      cases result with
      | error status => exact fun _ => rfl
      | ok bytes => exact fun _ => List.append_nil _
  · rw [if_neg inside, if_neg inside]
    exact fun _ => rfl

theorem readln_stored (command : dev.shared.command = .readln) : Stored host dev ↔
    ∀ line s, dev.fs.readln host dev.host dev.shared.d0 (min dev.shared.d1 Device.lineBuffer) = (.ok line, s) → line ≠ [] →
      dev.shared.a1 + line.length ≤ dev.ram.size := by
  unfold Stored Device.process Device.processLocal Device.touchResult
  dsimp only
  rw [command]
  dsimp only
  cases dev.fs.readln host dev.host dev.shared.d0 (min dev.shared.d1 Device.lineBuffer) with
  | mk result s =>
    cases result with
    | error status => exact ⟨fun _ line s done => by simp at done, fun _ _ => rfl⟩
    | ok line =>
      have stored := touchPut_targets dev.ram dev.shared.a1 line
      constructor
      · rintro put _ _ done some
        cases done
        exact (stored.mp (put rfl)).resolve_left some
      · intro room _
        exact stored.mpr ((eq_or_ne line []).imp_right (room line s rfl))

theorem getstt_stored (command : dev.shared.command = .getstt) : Stored host dev ↔
    ∀ st, dev.fs.getstat host dev.host (dev.ram.text dev.shared.a0) = .ok st →
      dev.shared.a1 ≠ 0 ∧ dev.shared.a1 + 16 ≤ dev.ram.size := by
  unfold Stored Device.process Device.processLocal Device.touchResult
  dsimp only
  rw [command]
  dsimp only
  cases dev.fs.getstat host dev.host (dev.ram.text dev.shared.a0) with
  | error status => exact ⟨fun _ st done => by simp at done, fun _ _ => rfl⟩
  | ok st =>
    have stored := touchPut_targets dev.ram dev.shared.a1 st.bytes
    by_cases null : dev.shared.a1 ≠ 0
    · dsimp only
      rw [if_pos null]
      constructor
      · rintro put _ -
        exact ⟨null, (stored.mp (put rfl)).resolve_left (List.cons_ne_nil _ _)⟩
      · intro room _
        exact stored.mpr (.inr (room st rfl).2)
    · dsimp only
      rw [if_neg null]
      constructor
      · intro put
        have none := congrArg List.length (put rfl)
        rw [List.length_range'] at none
        cases none
      · intro room
        exact absurd (room st rfl).1 null

theorem readdir_stored (command : dev.shared.command = .readdir) : Stored host dev ↔
    ∀ entry s, dev.fs.readdir host dev.host dev.shared.d0 = (.ok (some entry), s) → dev.shared.a1 ≠ 0 →
      dev.shared.a1 + (entry.1.length + 9) ≤ dev.ram.size := by
  unfold Stored Device.process Device.processLocal Device.touchResult
  dsimp only
  rw [command]
  dsimp only
  cases dev.fs.readdir host dev.host dev.shared.d0 with
  | mk result s =>
    cases result with
    | error status => exact ⟨fun _ entry s done => by simp at done, fun _ _ => rfl⟩
    | ok found =>
      cases found with
      | none => exact ⟨fun _ entry s done => by simp at done, fun _ _ => rfl⟩
      | some entry =>
        have stored := touchPut_targets dev.ram dev.shared.a1 (entryBytes entry)
        rw [entryBytes_length] at stored
        dsimp only
        by_cases null : dev.shared.a1 ≠ 0
        · rw [if_pos null, if_pos null]
          have filled : entryBytes entry ≠ [] := by simp [entryBytes]
          constructor
          · rintro put _ _ done -
            cases done
            have all := put rfl
            rw [entryBytes_length] at all
            exact (stored.mp all).resolve_left filled
          · intro room _
            have all := stored.mpr (.inr (room entry s rfl null))
            rw [← entryBytes_length] at all
            exact all
        · rw [if_neg null, if_neg null]
          exact ⟨fun _ _ _ _ some => absurd some null, fun _ _ => rfl⟩

theorem stored_iff (host : Host σ) (dev : Device σ) :
    (Device.reports dev.shared.command = true → Stored host dev) ↔ Room host dev := by
  constructor
  · intro stored
    refine ⟨fun command => ?_, fun command => ?_, fun command => ?_⟩
    · exact (readln_stored command).mp (stored (by rw [command]; rfl))
    · exact (getstt_stored command).mp (stored (by rw [command]; rfl))
    · exact (readdir_stored command).mp (stored (by rw [command]; rfl))
  · intro room reports
    cases command : dev.shared.command with
    | read => exact read_stored command
    | readln => exact (readln_stored command).mpr (room.line command)
    | getstt => exact (getstt_stored command).mpr (room.stat command)
    | readdir => exact (readdir_stored command).mpr (room.entry command)
    | _ =>
      rw [command] at reports
      cases reports

/-- READ and READLN report no more than they are asked for. -/
theorem process_asked (reads : host.ReadsAtMost) (command : dev.shared.command = .read ∨ dev.shared.command = .readln)
    (ok : (dev.process host).shared.status = errOk) : (dev.process host).shared.d1 ≤ dev.shared.d1 := by
  revert ok
  unfold Device.process Device.processLocal
  dsimp only
  rcases command with command | command
  · rw [command]
    dsimp only
    split
    · cases done : dev.fs.read host dev.host dev.shared.d0 dev.shared.d1 with
      | mk result s =>
        cases result with
        | error status => exact fun _ => Nat.zero_le _
        | ok bytes => exact fun _ => read_length reads done
    · exact fun _ => Nat.zero_le _
  · rw [command]
    dsimp only
    cases done : dev.fs.readln host dev.host dev.shared.d0 (min dev.shared.d1 Device.lineBuffer) with
    | mk result s =>
      cases result with
      | error status => exact fun _ => Nat.zero_le _
      | ok line =>
        intro _
        have short : line.length ≤ min dev.shared.d1 Device.lineBuffer := (readln_length done).le
        exact short.trans (Nat.min_le_left _ _)

/-- A command keeps to the memory, and stores what it reports, when its strings end in the memory and there is room
at a1 for the line, the status or the entry. -/
theorem process_sound_iff (host : Host σ) (reads : host.ReadsAtMost) (dev : Device σ) :
    (dev.process host).ram = dev.ram.after (dev.touches host) ∧
      (Sound host dev ↔ Strings host dev ∧ Room host dev) := by
  refine ⟨process_ram reads dev, ?_⟩
  rw [← touches_inside reads dev, ← stored_iff host dev]
  unfold Stored
  rw [← touches_targets dev]
  constructor
  · intro sound
    exact ⟨sound.inside, sound.stored⟩
  · rintro ⟨inside, stored⟩
    exact ⟨inside, stored, fun command ok => process_asked reads command ok⟩

end

/-- GETSTT of the base directory, with the path at 16 in a memory of 256 bytes. -/
def askStatus (a1 : Nat) : Device (Finset Resource) :=
  ⟨⟨[slash], [], fun _ => none⟩, ∅, ⟨fun x => if x = 16 then slash else 0, 256⟩, ⟨.getstt, 0, 16, a1, 0, 0, 0⟩⟩

/-- There is room for the status at 64. -/
theorem process_sound_getstt : Sound emptyHost (askStatus 64) := by
  refine (process_sound_iff emptyHost emptyHost_reads (askStatus 64)).2.mpr ⟨⟨fun _ _ => ?_, fun rename => ?_⟩, ?_, ?_, ?_⟩
  · exact ⟨17, by decide, by decide, by decide⟩
  · exact absurd rename (by decide)
  · exact fun readln => absurd readln (by decide)
  · exact fun _ _ _ => by decide
  · exact fun readdir => absurd readdir (by decide)

/-- Six bytes before the end of the memory GETSTT reports 16 bytes and stores none. -/
theorem getstt_unstored : ¬ Sound emptyHost (askStatus 250) := by
  intro sound
  have ok : ((askStatus 250).process emptyHost).shared.status = errOk := by decide
  have stored := sound.stored rfl ok
  have count : ((askStatus 250).process emptyHost).shared.d1 = 16 := by decide
  have none : ((askStatus 250).touches emptyHost).flatMap Touch.targets = [] := by decide
  rw [count, none] at stored
  cases stored

end Dhf

end Q9OS

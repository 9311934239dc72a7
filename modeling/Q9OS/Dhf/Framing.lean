import Mathlib.Data.List.GetD
import Mathlib.Tactic
import Q9OS.Lib.Run
import Q9OS.Dhf.Socket

/-!
# Requests on the wire

`handle_client_request` of `dhf_socket_server.c` on the bytes a client sends: the
header, what is received into the path and data buffers, and the answer as bytes.
-/

namespace Q9OS

namespace Dhf

def netMagic : Nat := 0x44484631

/-- `dhf_net_header_t` is packed. -/
def headerSize : Nat := 26

/-- `dhf_net_header_t` -/
structure Header where
  magic : Nat
  command : UInt8
  status : UInt8
  d0 : Nat
  d1 : Nat
  d2 : Nat
  pathLen : Nat
  dataLen : Nat

/-- `ntohl` of the four bytes at `i`. -/
def wordAt (bytes : Bytes) (i : Nat) : Nat :=
  (bytes.getD i 0).toNat * 16777216 + (bytes.getD (i + 1) 0).toNat * 65536 + (bytes.getD (i + 2) 0).toNat * 256 +
    (bytes.getD (i + 3) 0).toNat

def Header.parse (bytes : Bytes) : Header :=
  ⟨wordAt bytes 0, bytes.getD 4 0, bytes.getD 5 0, wordAt bytes 6, wordAt bytes 10, wordAt bytes 14, wordAt bytes 18,
    wordAt bytes 22⟩

/-- The command byte; the numbers of `dhf_proto.h`. -/
def Command.ofByte (byte : UInt8) : Command :=
  match byte.toNat with
  | 0 => .idle
  | 1 => .create
  | 2 => .openPath
  | 3 => .seek
  | 4 => .read
  | 5 => .write
  | 6 => .readln
  | 7 => .writeln
  | 8 => .getstt
  | 9 => .setstt
  | 10 => .close
  | 11 => .delete
  | 12 => .mkdir
  | 13 => .chdir
  | 14 => .rmdir
  | 15 => .rename
  | 16 => .opendir
  | 17 => .readdir
  | 18 => .init
  | 19 => .term
  | 254 => .ping
  | 255 => .ret
  | _ => .unknown

/-! ### Receiving -/

/-- `recv_all`: `n` bytes, or nothing when the stream ends before. -/
def recvAll (stream : Bytes) (n : Nat) : Option (Bytes × Bytes) :=
  if n ≤ stream.length then some (stream.take n, stream.drop n) else none

/-- What a call stores from the start of each buffer, and the header and what is left of the stream
unless the connection ends. -/
structure Reception where
  path : Bytes
  data : Bytes
  request : Option (Header × Bytes)

/-- The header, the path and the data of a request. -/
def receive (stream : Bytes) : Reception :=
  match recvAll stream headerSize with
  | none => ⟨[], [], none⟩
  | some (head, rest) =>
    let hdr := Header.parse head
    if hdr.magic ≠ netMagic then ⟨[], [], none⟩
    else
      -- all of path_len goes into the buffer
      match recvAll rest hdr.pathLen with
      | none => ⟨rest, [], none⟩
      | some (path, rest) =>
        if hdr.dataLen > dataBuffer then ⟨path, [], none⟩
        else
          match recvAll rest hdr.dataLen with
          | none => ⟨path, rest, none⟩
          | some (data, rest) => ⟨path, data, some (hdr, rest)⟩

/-- The path buffer: cleared, filled, and ended at `rplen`. -/
def pathBuffer (pathLen : Nat) (path : Bytes) : Bytes :=
  (path ++ List.replicate (pathMax - path.length) 0).set (min pathLen (pathMax - 1)) 0

/-- The string in a buffer. -/
def cString (buffer : Bytes) : Bytes := buffer.takeWhile (· ≠ 0)

namespace Header

def request (hdr : Header) (path data : Bytes) : Request :=
  ⟨Command.ofByte hdr.command, hdr.d0, hdr.d1, hdr.d2, cString (pathBuffer hdr.pathLen path), data⟩

/-- The buffers handed to the host functions as strings. -/
def handed (hdr : Header) (path data : Bytes) : List Bytes :=
  let command := Command.ofByte hdr.command
  (if command.takesPath then [pathBuffer hdr.pathLen path] else []) ++ (if command = .rename then [data] else [])

/-- The answer: a header and the data. -/
def responseBytes (hdr : Header) (response : Response) : Bytes :=
  be32 netMagic ++ [hdr.command, response.status.toUInt8] ++ be32 response.d0 ++ be32 response.d1 ++ be32 response.d2 ++
    be32 0 ++ be32 response.data.length ++ response.data

end Header

/-! ### A connection -/

structure Conn (σ : Type) where
  fs : HostFs
  host : σ
  /-- What the client is still going to send. -/
  stream : Bytes
  sent : Bytes
  closed : Bool

section
variable {σ : Type} (host : Host σ)

namespace Conn

def shutdown (conn : Conn σ) : Conn σ :=
  let done := conn.fs.cleanup host conn.host
  { conn with fs := done.1, host := done.2, closed := true }

/-- `handle_client_request` and what the loop around it does at its end. The client takes at most `room`
bytes of the answer. None when the path runs over its buffer or a string without an end is read. -/
def serve (conn : Conn σ) (room : Nat) : Option (Conn σ) :=
  if conn.closed then some conn
  else
    let got := receive conn.stream
    if got.path.length > pathMax then none
    else
      match got.request with
      | none => some (conn.shutdown host)
      | some (hdr, rest) =>
        match handleClientRequest host conn.fs conn.host (hdr.request got.path got.data) with
        | .undefined => none
        | .disconnected => some (conn.shutdown host)
        | .answered response fs s =>
          let answer := hdr.responseBytes response
          let conn := { conn with fs := fs, host := s, stream := rest, sent := conn.sent ++ answer.take room }
          some (if answer.length ≤ room then conn else conn.shutdown host)

end Conn

/-- A header and as many bytes as it announces. -/
def IsFrame (bytes : Bytes) : Prop :=
  bytes.length = headerSize + (Header.parse bytes).pathLen + (Header.parse bytes).dataLen

/-- A frame without a path. -/
def IsReply (bytes : Bytes) : Prop := IsFrame bytes ∧ (Header.parse bytes).pathLen = 0

/-- A call keeps to its buffers, hands over strings with an end, and takes one request for one answer
unless the connection ends. -/
structure Exchange (conn : Conn σ) (room : Nat) : Prop where
  path : (receive conn.stream).path.length ≤ pathMax
  data : (receive conn.stream).data.length ≤ dataBuffer
  strings : ∀ hdr rest, (receive conn.stream).request = some (hdr, rest) →
    ∀ buffer ∈ hdr.handed (receive conn.stream).path (receive conn.stream).data, 0 ∈ buffer
  framed : ∃ conn', conn.serve host room = some conn' ∧ (conn'.closed = true ∨
    ∃ frame reply, IsFrame frame ∧ IsReply reply ∧ conn.stream = frame ++ conn'.stream ∧ conn'.sent = conn.sent ++ reply)

/-- Nothing is asked of a connection that has ended. -/
def Framed (conn : Conn σ) (room : Nat) : Prop := conn.closed = false → Exchange host conn room

/-- No more of a path arrives than its buffer holds, and the data of a RENAME have an end. -/
def Fits (conn : Conn σ) : Prop :=
  let hdr := Header.parse conn.stream
  conn.closed = false → headerSize ≤ conn.stream.length → hdr.magic = netMagic →
    min hdr.pathLen (conn.stream.length - headerSize) ≤ pathMax ∧
      (Command.ofByte hdr.command = .rename → hdr.dataLen ≤ dataBuffer →
        headerSize + hdr.pathLen + hdr.dataLen ≤ conn.stream.length →
        0 ∈ (conn.stream.drop (headerSize + hdr.pathLen)).take hdr.dataLen)

/-- What was taken are whole requests, and what was sent is one answer for each. -/
def Aligned (conn conn' : Conn σ) : Prop :=
  ∃ frames replies : List Bytes, frames.length = replies.length ∧ (∀ frame ∈ frames, IsFrame frame) ∧
    (∀ reply ∈ replies, IsReply reply) ∧ conn.stream = frames.flatten ++ conn'.stream ∧
    conn'.sent = conn.sent ++ replies.flatten

/-! ### Headers -/

theorem wordAt_append {bytes : Bytes} (rest : Bytes) {i : Nat} (inside : i + 3 < bytes.length) :
    wordAt (bytes ++ rest) i = wordAt bytes i := by
  unfold wordAt
  rw [List.getD_append _ _ _ _ (by omega), List.getD_append _ _ _ _ (by omega), List.getD_append _ _ _ _ (by omega),
    List.getD_append _ _ _ _ inside]

/-- A header is read from its own bytes alone. -/
theorem parse_append {head : Bytes} (rest : Bytes) (whole : headerSize ≤ head.length) :
    Header.parse (head ++ rest) = Header.parse head := by
  unfold headerSize at whole
  unfold Header.parse
  rw [wordAt_append rest (by omega), wordAt_append rest (by omega), wordAt_append rest (by omega),
    wordAt_append rest (by omega), wordAt_append rest (by omega), wordAt_append rest (by omega),
    List.getD_append _ _ _ _ (by omega), List.getD_append _ _ _ _ (by omega)]

/-- `ntohl` takes back `htonl`. -/
theorem wordAt_be32 {n : Nat} (small : n < 4294967296) (front rest : Bytes) :
    wordAt (front ++ be32 n ++ rest) front.length = n := by
  have byte (i : Nat) : (front ++ be32 n ++ rest).getD (front.length + i) 0 = (be32 n ++ rest).getD i 0 := by
    rw [List.append_assoc, List.getD_append_right _ _ _ _ (Nat.le_add_right _ _), Nat.add_sub_cancel_left]
  have first := byte 0
  rw [Nat.add_zero] at first
  unfold wordAt
  rw [first, byte 1, byte 2, byte 3]
  simp [be32]
  omega

theorem responseBytes_isReply (hdr : Header) {response : Response} (small : response.data.length < 4294967296) :
    IsReply (hdr.responseBytes response) := by
  obtain ⟨front, is, size⟩ : ∃ front : Bytes,
      hdr.responseBytes response = front ++ be32 0 ++ (be32 response.data.length ++ response.data) ∧ front.length = 18 :=
    ⟨_, List.append_assoc _ _ _, by simp [be32]⟩
  have path : (Header.parse (hdr.responseBytes response)).pathLen = 0 := by
    have word := wordAt_be32 (by decide : 0 < 4294967296) front (be32 response.data.length ++ response.data)
    rw [size, ← is] at word
    exact word
  obtain ⟨front, is, size⟩ : ∃ front : Bytes,
      hdr.responseBytes response = front ++ be32 response.data.length ++ response.data ∧ front.length = 22 :=
    ⟨_, rfl, by simp [be32]⟩
  have data : (Header.parse (hdr.responseBytes response)).dataLen = response.data.length := by
    have word := wordAt_be32 small front response.data
    rw [size, ← is] at word
    exact word
  refine ⟨?_, path⟩
  have length : (hdr.responseBytes response).length = headerSize + response.data.length := by
    rw [is, List.length_append, List.length_append, size]
    rfl
  unfold IsFrame
  rw [path, data, length]
  rfl

/-! ### What is received -/

theorem recvAll_some {stream got rest : Bytes} {n : Nat} (received : recvAll stream n = some (got, rest)) :
    stream = got ++ rest ∧ got.length = n := by
  unfold recvAll at received
  split at received
  · next enough =>
    cases received
    exact ⟨(List.take_append_drop n stream).symm, by simp [enough]⟩
  · cases received

theorem recvAll_none {stream : Bytes} {n : Nat} (received : recvAll stream n = none) : stream.length < n := by
  unfold recvAll at received
  split at received
  · cases received
  · next short => exact Nat.not_le.mp short

/-- How far a reception gets. -/
inductive Received (stream : Bytes) : Prop where
  /-- There is no header, or it is not one of this protocol. -/
  | foreign (is : receive stream = ⟨[], [], none⟩)
      (bad : headerSize ≤ stream.length → (Header.parse stream).magic ≠ netMagic)
  | path (rest : Bytes) (head : Bytes) (split : stream = head ++ rest) (size : head.length = headerSize)
      (known : (Header.parse stream).magic = netMagic) (short : rest.length < (Header.parse stream).pathLen)
      (is : receive stream = ⟨rest, [], none⟩)
  | data (head path rest : Bytes) (split : stream = head ++ path ++ rest) (size : head.length = headerSize)
      (known : (Header.parse stream).magic = netMagic) (length : path.length = (Header.parse stream).pathLen)
      (short : (Header.parse stream).dataLen > dataBuffer ∨ rest.length < (Header.parse stream).dataLen) (stored : Bytes)
      (bound : stored.length ≤ dataBuffer) (is : receive stream = ⟨path, stored, none⟩)
  | whole (head path data rest : Bytes) (split : stream = head ++ path ++ data ++ rest) (size : head.length = headerSize)
      (known : (Header.parse stream).magic = netMagic) (length : path.length = (Header.parse stream).pathLen)
      (bound : data.length ≤ dataBuffer) (dataLength : data.length = (Header.parse stream).dataLen)
      (is : receive stream = ⟨path, data, some (Header.parse stream, rest)⟩)

theorem receive_cases (stream : Bytes) : Received stream := by
  cases header : recvAll stream headerSize with
  | none =>
    have short := recvAll_none header
    exact .foreign (by rw [receive, header]) (fun long => absurd long (Nat.not_le.mpr short))
  | some parts =>
    obtain ⟨head, rest⟩ := parts
    obtain ⟨rfl, size⟩ := recvAll_some header
    have parsed : Header.parse head = Header.parse (head ++ rest) := (parse_append rest (Nat.le_of_eq size.symm)).symm
    generalize hdrIs : Header.parse (head ++ rest) = hdr at parsed
    by_cases known : hdr.magic = netMagic
    · cases pathIs : recvAll rest hdr.pathLen with
      | none =>
        have short := recvAll_none pathIs
        have is : receive (head ++ rest) = ⟨rest, [], none⟩ := by
          rw [receive, header]
          dsimp only
          rw [parsed, if_neg (not_not.mpr known), pathIs]
        exact .path rest head rfl size (hdrIs ▸ known) (hdrIs ▸ short) is
      | some parts =>
        obtain ⟨path, rest'⟩ := parts
        obtain ⟨rfl, length⟩ := recvAll_some pathIs
        by_cases long : hdr.dataLen > dataBuffer
        · have is : receive (head ++ (path ++ rest')) = ⟨path, [], none⟩ := by
            rw [receive, header]
            dsimp only
            rw [parsed, if_neg (not_not.mpr known), pathIs]
            dsimp only
            rw [if_pos long]
          exact .data head path rest' (by simp) size (hdrIs ▸ known) (hdrIs ▸ length) (Or.inl (hdrIs ▸ long)) [] (by simp) is
        · cases dataIs : recvAll rest' hdr.dataLen with
          | none =>
            have short := recvAll_none dataIs
            have is : receive (head ++ (path ++ rest')) = ⟨path, rest', none⟩ := by
              rw [receive, header]
              dsimp only
              rw [parsed, if_neg (not_not.mpr known), pathIs]
              dsimp only
              rw [if_neg long, dataIs]
            exact .data head path rest' (by simp) size (hdrIs ▸ known) (hdrIs ▸ length) (Or.inr (hdrIs ▸ short)) rest'
              (by omega) is
          | some parts =>
            obtain ⟨data, rest''⟩ := parts
            obtain ⟨rfl, dataLength⟩ := recvAll_some dataIs
            have is : receive (head ++ (path ++ (data ++ rest''))) =
                ⟨path, data, some (Header.parse (head ++ (path ++ (data ++ rest''))), rest'')⟩ := by
              rw [receive, header, hdrIs]
              dsimp only
              rw [parsed, if_neg (not_not.mpr known), pathIs]
              dsimp only
              rw [if_neg long, dataIs]
            exact .whole head path data rest'' (by simp) size (hdrIs ▸ known) (hdrIs ▸ length) (by omega)
              (hdrIs ▸ dataLength) is
    · have is : receive (head ++ rest) = ⟨[], [], none⟩ := by
        rw [receive, header]
        dsimp only
        rw [parsed, if_pos known]
      exact .foreign is (fun _ => hdrIs ▸ known)

/-! ### The strings -/

theorem pathBuffer_ended {path : Bytes} (pathLen : Nat) (fits : path.length ≤ pathMax) : 0 ∈ pathBuffer pathLen path := by
  unfold pathBuffer
  have size : (path ++ List.replicate (pathMax - path.length) 0).length = pathMax := by
    simp
    omega
  refine List.mem_set ?_ 0
  rw [size]
  exact Nat.lt_of_le_of_lt (Nat.min_le_right _ _) (by decide)

theorem cString_length {buffer : Bytes} (ended : 0 ∈ buffer) : (cString buffer).length < buffer.length := by
  refine Nat.lt_of_le_of_ne (List.takeWhile_prefix _).length_le (fun same => ?_)
  have whole : cString buffer = buffer := (List.takeWhile_prefix _).eq_of_length same
  rw [← whole] at ended
  exact absurd (List.all_eq_true.mp List.all_takeWhile 0 ended) (by decide)

theorem path_short {path : Bytes} (pathLen : Nat) (fits : path.length ≤ pathMax) :
    (cString (pathBuffer pathLen path)).length < pathMax := by
  have below := cString_length (pathBuffer_ended pathLen fits)
  have size : (pathBuffer pathLen path).length = pathMax := by
    simp [pathBuffer]
    omega
  rwa [size] at below

theorem handed_ended {hdr : Header} {path data : Bytes} (fits : path.length ≤ pathMax) :
    (∀ buffer ∈ hdr.handed path data, 0 ∈ buffer) ↔ (Command.ofByte hdr.command = .rename → 0 ∈ data) := by
  unfold Header.handed
  constructor
  · intro ended rename
    refine ended data (List.mem_append_right _ ?_)
    rw [if_pos rename]
    exact List.mem_singleton_self data
  · intro ended buffer member
    rcases List.mem_append.mp member with first | second
    · split at first
      · obtain rfl := List.mem_singleton.mp first
        exact pathBuffer_ended _ fits
      · cases first
    · split at second
      · next rename =>
        obtain rfl := List.mem_singleton.mp second
        exact ended rename
      · cases second

/-! ### The answer -/

variable {host}

/-- Every request whose strings have an end gets an answer that fits the buffer for it. -/
theorem handleClientRequest_answered (reads : host.ReadsAtMost) (fs : HostFs) (s : σ) (req : Request)
    (path : req.path.length < pathMax) (data : req.data.length ≤ dataBuffer)
    (ended : req.command = .rename → 0 ∈ req.data) :
    ∃ response fs' s', handleClientRequest host fs s req = .answered response fs' s' ∧ response.data.length ≤ dataBuffer := by
  have handle (opened : Except Nat Nat × HostFs × σ) :
      ∃ response fs' s', req.answerHandle opened = .answered response fs' s' ∧ response.data.length ≤ dataBuffer := by
    obtain ⟨result, fs', s'⟩ := opened
    cases result <;> exact ⟨_, _, _, rfl, Nat.zero_le _⟩
  have count (done : Except Nat Nat × σ) :
      ∃ response fs' s', req.answerCount fs done = .answered response fs' s' ∧ response.data.length ≤ dataBuffer := by
    obtain ⟨result, s'⟩ := done
    cases result <;> exact ⟨_, _, _, rfl, Nat.zero_le _⟩
  have some_bytes (done : Except Nat Bytes × σ) (fits : ∀ bytes s', done = (.ok bytes, s') → bytes.length ≤ dataBuffer) :
      ∃ response fs' s', req.answerBytes fs done = .answered response fs' s' ∧ response.data.length ≤ dataBuffer := by
    obtain ⟨result, s'⟩ := done
    cases result with
    | ok bytes => exact ⟨_, _, _, rfl, fits bytes s' rfl⟩
    | error status => exact ⟨_, _, _, rfl, Nat.zero_le _⟩
  unfold handleClientRequest
  dsimp only
  rw [if_neg (Nat.not_le.mpr path), if_neg (Nat.not_lt.mpr data)]
  cases command : req.command with
  | openPath => exact handle _
  | create => exact handle _
  | opendir => exact handle _
  | write => exact count _
  | writeln => exact count _
  | read =>
    refine some_bytes _ (fun bytes s' done => ?_)
    exact (read_length reads done).trans (Nat.min_le_right _ _)
  | readln =>
    refine some_bytes _ (fun bytes s' done => ?_)
    exact (Nat.le_of_lt (readln_length done)).trans (Nat.min_le_right _ _)
  | getstt =>
    dsimp only
    split
    · exact ⟨_, _, _, rfl, by rw [stat_bytes_length]; decide⟩
    · exact ⟨_, _, _, rfl, Nat.zero_le _⟩
  | rename =>
    dsimp only
    rw [if_pos (ended command)]
    exact ⟨_, _, _, rfl, Nat.zero_le _⟩
  | readdir =>
    dsimp only
    split
    · next entry s' found =>
      refine ⟨_, _, _, rfl, ?_⟩
      have name := readdir_name found
      have room : pathMax + 9 ≤ dataBuffer := by decide
      dsimp only
      rw [entryBytes_length]
      omega
    · exact ⟨_, _, _, rfl, Nat.zero_le _⟩
    · exact ⟨_, _, _, rfl, Nat.zero_le _⟩
  | _ => exact ⟨_, _, _, rfl, Nat.zero_le _⟩

/-! ### One call -/

variable {conn : Conn σ} {path data rest : Bytes} {hdr : Header}

/-- A request that does not arrive in full ends the connection. -/
theorem exchange_ends (room : Nat) (opened : conn.closed = false) (is : receive conn.stream = ⟨path, data, none⟩)
    (bound : data.length ≤ dataBuffer) : Exchange host conn room ↔ path.length ≤ pathMax := by
  constructor
  · intro exchange
    have fits := exchange.path
    rwa [is] at fits
  · intro fits
    refine ⟨by rwa [is], by rwa [is], fun hdr rest request => ?_, conn.shutdown host, ?_, Or.inl rfl⟩
    · rw [is] at request
      cases request
    · unfold Conn.serve
      rw [opened, is]
      dsimp only
      rw [if_neg (by decide), if_neg (Nat.not_lt.mpr fits)]

/-- The answer to a whole request, as far as the client takes it. -/
theorem serve_answers (room : Nat) {response : Response} {fs : HostFs} {s : σ} (opened : conn.closed = false)
    (is : receive conn.stream = ⟨path, data, some (hdr, rest)⟩) (fits : path.length ≤ pathMax)
    (answered : handleClientRequest host conn.fs conn.host (hdr.request path data) = .answered response fs s) :
    ∃ conn', conn.serve host room = some conn' ∧ (conn'.closed = true ∨
      conn'.stream = rest ∧ conn'.sent = conn.sent ++ hdr.responseBytes response) := by
  unfold Conn.serve
  rw [opened, is]
  dsimp only
  rw [if_neg (by decide), if_neg (Nat.not_lt.mpr fits), answered]
  dsimp only
  by_cases taken : (hdr.responseBytes response).length ≤ room
  · rw [if_pos taken, List.take_of_length_le taken]
    exact ⟨_, rfl, Or.inr ⟨rfl, rfl⟩⟩
  · rw [if_neg taken]
    exact ⟨_, rfl, Or.inl rfl⟩

theorem exchange_whole (reads : host.ReadsAtMost) (room : Nat) (opened : conn.closed = false)
    (is : receive conn.stream = ⟨path, data, some (hdr, rest)⟩) (bound : data.length ≤ dataBuffer) {frame : Bytes}
    (framed : IsFrame frame) (split : conn.stream = frame ++ rest) :
    Exchange host conn room ↔ path.length ≤ pathMax ∧ (Command.ofByte hdr.command = .rename → 0 ∈ data) := by
  constructor
  · rintro ⟨fits, -, strings, -⟩
    rw [is] at fits strings
    exact ⟨fits, (handed_ended fits).mp (strings hdr rest rfl)⟩
  · rintro ⟨fits, ended⟩
    refine ⟨by rwa [is], by rwa [is], fun hdr' rest' request => ?_, ?_⟩
    · rw [is] at request ⊢
      cases request
      exact (handed_ended fits).mpr ended
    · obtain ⟨response, fs, s, answered, small⟩ := handleClientRequest_answered reads conn.fs conn.host
        (hdr.request path data) (path_short _ fits) bound ended
      obtain ⟨conn', served, closed | ⟨stream, sent⟩⟩ := serve_answers room opened is fits answered
      · exact ⟨conn', served, Or.inl closed⟩
      · have reply := responseBytes_isReply hdr (Nat.lt_of_le_of_lt small (by decide))
        exact ⟨conn', served, Or.inr ⟨frame, _, framed, reply, by rw [stream, split], sent⟩⟩

/-- A call keeps its framing exactly when the request fits. -/
theorem framed_iff (reads : host.ReadsAtMost) (conn : Conn σ) (room : Nat) : Framed host conn room ↔ Fits conn := by
  unfold Framed Fits
  dsimp only
  refine forall_congr' (fun opened => ?_)
  cases receive_cases conn.stream with
  | foreign is bad =>
    have ends : Exchange host conn room ↔ [].length ≤ pathMax := exchange_ends room opened is (Nat.zero_le _)
    exact ⟨fun _ long known => absurd known (bad long), fun _ => ends.mpr (Nat.zero_le _)⟩
  | path rest head split size known short is =>
    have total : conn.stream.length = headerSize + rest.length := by rw [split, List.length_append, size]
    rw [exchange_ends room opened is (Nat.zero_le _)]
    generalize Header.parse conn.stream = hdr at *
    constructor
    · intro fits long known
      exact ⟨by omega, fun _ _ whole => absurd whole (by omega)⟩
    · intro fits
      have bound := (fits (by omega) known).1
      omega
  | data head path rest split size known length short stored bound is =>
    have total : conn.stream.length = headerSize + path.length + rest.length := by
      rw [split, List.length_append, List.length_append, size]
    rw [exchange_ends room opened is bound]
    generalize Header.parse conn.stream = hdr at *
    constructor
    · intro fits long known
      refine ⟨by omega, fun _ small whole => ?_⟩
      rcases short with long | short
      · exact absurd small (Nat.not_le.mpr long)
      · exact absurd whole (by omega)
    · intro fits
      have bound := (fits (by omega) known).1
      omega
  | whole head path data rest split size known length bound dataLength is =>
    have total : conn.stream.length = headerSize + path.length + data.length + rest.length := by
      rw [split, List.length_append, List.length_append, List.length_append, size]
    have framed : IsFrame (head ++ path ++ data) := by
      have parsed : Header.parse (head ++ path ++ data) = Header.parse conn.stream := by
        rw [split, parse_append rest (by simp [size])]
      unfold IsFrame
      rw [parsed, List.length_append, List.length_append, size, length, dataLength]
    have here : (conn.stream.drop (headerSize + (Header.parse conn.stream).pathLen)).take (Header.parse conn.stream).dataLen =
        data := by
      have front : headerSize + (Header.parse conn.stream).pathLen = (head ++ path).length := by
        rw [List.length_append, size, length]
      rw [front, ← dataLength, split, List.append_assoc, List.drop_left, List.take_left]
    rw [exchange_whole reads room opened is bound framed split, here]
    generalize Header.parse conn.stream = hdr at *
    constructor
    · rintro ⟨fits, ended⟩ long known
      exact ⟨by omega, fun rename _ _ => ended rename⟩
    · intro fits
      obtain ⟨first, ended⟩ := fits (by omega) known
      exact ⟨by omega, fun rename => ended rename (by omega) (by omega)⟩

/-! ### All calls of a connection -/

theorem serve_closed {room : Nat} (closed : conn.closed = true) : conn.serve host room = some conn := by
  unfold Conn.serve
  rw [if_pos closed]

theorem run_closed (rooms : List Nat) (closed : conn.closed = true) : run (Conn.serve host) conn rooms = some conn := by
  induction rooms with
  | nil => rfl
  | cons room rooms ih => exact run_step (serve_closed closed) ih

theorem Aligned.start (conn : Conn σ) : Aligned conn conn :=
  ⟨[], [], rfl, nofun, nofun, rfl, (List.append_nil _).symm⟩

theorem Aligned.next {mid conn' : Conn σ} {frame reply : Bytes} (framed : IsFrame frame) (replied : IsReply reply)
    (taken : conn.stream = frame ++ mid.stream) (sent : mid.sent = conn.sent ++ reply) (aligned : Aligned mid conn') :
    Aligned conn conn' := by
  obtain ⟨frames, replies, same, all_framed, all_replied, stream, answers⟩ := aligned
  refine ⟨frame :: frames, reply :: replies, congrArg (· + 1) same, ?_, ?_, ?_, ?_⟩
  · exact List.forall_mem_cons.mpr ⟨framed, all_framed⟩
  · exact List.forall_mem_cons.mpr ⟨replied, all_replied⟩
  · rw [taken, stream, List.flatten_cons, List.append_assoc]
  · rw [answers, sent, List.flatten_cons, List.append_assoc]

/-- Calls that keep their framing leave whole requests taken and one answer sent for each. -/
theorem run_aligned {rooms : List Nat} (meets : RunMeets (Conn.serve host) (Framed host) conn rooms) :
    ∃ conn', run (Conn.serve host) conn rooms = some conn' ∧ (conn'.closed = true ∨ Aligned conn conn') := by
  induction rooms generalizing conn with
  | nil => exact ⟨conn, rfl, Or.inr (Aligned.start conn)⟩
  | cons room rooms ih =>
    by_cases closed : conn.closed = true
    · exact ⟨conn, run_closed _ closed, Or.inl closed⟩
    · obtain ⟨mid, served, ends | ⟨frame, reply, framed, replied, taken, sent⟩⟩ := (meets.1 (by simpa using closed)).framed
      · exact ⟨mid, run_step served (run_closed rooms ends), Or.inl ends⟩
      · obtain ⟨conn', ran, ends | aligned⟩ := ih (meets.2 mid served)
        · exact ⟨conn', run_step served ran, Or.inl ends⟩
        · exact ⟨conn', run_step served ran, Or.inr (aligned.next framed replied taken sent)⟩

/-- The calls of a connection keep their framing exactly as long as the requests fit, and then requests and
answers stay in step. -/
theorem framing_kept (host : Host σ) (reads : host.ReadsAtMost) (conn : Conn σ) (rooms : List Nat) :
    (RunMeets (Conn.serve host) (Framed host) conn rooms ↔ RunMeets (Conn.serve host) (fun conn _ => Fits conn) conn rooms) ∧
      (RunMeets (Conn.serve host) (fun conn _ => Fits conn) conn rooms →
        ∃ conn', run (Conn.serve host) conn rooms = some conn' ∧ (conn'.closed = true ∨ Aligned conn conn')) := by
  have same : Framed host = fun conn (_ : Nat) => Fits conn := by
    funext conn room
    exact propext (framed_iff reads conn room)
  rw [← same]
  exact ⟨Iff.rfl, run_aligned⟩

end

/-! ### Two clients -/

/-- A connection to a server whose files are empty. -/
def dialled (stream : Bytes) : Conn (Finset Resource) := ⟨HostFs.init emptyHost ∅ none, ∅, stream, [], false⟩

/-- A request with nothing in its registers. -/
def plainRequest (command : UInt8) (pathLen : Nat) (path : Bytes) : Bytes :=
  be32 netMagic ++ [command, 0] ++ be32 0 ++ be32 0 ++ be32 0 ++ be32 pathLen ++ be32 0 ++ path

/-- A request with a path and data. -/
def fullRequest (command : UInt8) (d0 d1 d2 : Nat) (path data : Bytes) : Bytes :=
  be32 netMagic ++ [command, 0] ++ be32 d0 ++ be32 d1 ++ be32 d2 ++ be32 path.length ++ be32 data.length ++ path ++ data

/-- "a" is opened for writing, and "hi" is written to it. -/
def writing : Bytes := fullRequest 2 0 0 2 [0x61] [] ++ fullRequest 5 0 2 0 [] [0x68, 0x69]

/-- Both requests are taken whole and answered. -/
theorem framing_kept_writing :
    ∃ conn', run (Conn.serve emptyHost) (dialled writing) [64, 64] = some conn' ∧ conn'.stream = [] ∧
      conn'.sent.length = 52 ∧ Aligned (dialled writing) conn' := by
  have first : (Conn.serve emptyHost (dialled writing) 64).map Conn.stream = some (fullRequest 5 0 2 0 [] [0x68, 0x69]) := by
    decide
  have both : (run (Conn.serve emptyHost) (dialled writing) [64, 64]).map
      (fun conn => (conn.closed, conn.stream, conn.sent.length)) = some (false, [], 52) := by decide
  have opens : min (Header.parse writing).pathLen (writing.length - headerSize) ≤ pathMax := by decide
  have writes : min (Header.parse (fullRequest 5 0 2 0 [] [0x68, 0x69])).pathLen
      ((fullRequest 5 0 2 0 [] [0x68, 0x69]).length - headerSize) ≤ pathMax := by decide
  have fits : RunMeets (Conn.serve emptyHost) (fun conn _ => Fits conn) (dialled writing) [64, 64] := by
    refine ⟨fun _ _ _ => ⟨opens, fun rename => absurd rename (by decide)⟩, fun mid served => ⟨?_, fun _ _ => trivial⟩⟩
    rw [served] at first
    have stream : mid.stream = fullRequest 5 0 2 0 [] [0x68, 0x69] := Option.some.inj first
    unfold Fits
    rw [stream]
    exact fun _ _ _ => ⟨writes, fun rename => absurd rename (by decide)⟩
  obtain ⟨conn', ran, kept⟩ := (framing_kept emptyHost emptyHost_reads (dialled writing) [64, 64]).2 fits
  rw [ran] at both
  obtain ⟨opened, rest⟩ := Prod.mk.inj (Option.some.inj both)
  obtain ⟨stream, sent⟩ := Prod.mk.inj rest
  refine ⟨conn', ran, stream, sent, kept.resolve_left ?_⟩
  rw [opened]
  decide

/-- A path of 1025 bytes runs over its buffer. -/
theorem path_overflows :
    ¬ RunMeets (Conn.serve emptyHost) (Framed emptyHost) (dialled (plainRequest 2 1025 (List.replicate 1025 0x61))) [64] := by
  intro meets
  have stored : (receive (plainRequest 2 1025 (List.replicate 1025 0x61))).path.length = 1025 := by decide +kernel
  have fits := (meets.1 rfl).path
  have same : (dialled (plainRequest 2 1025 (List.replicate 1025 0x61))).stream =
      plainRequest 2 1025 (List.replicate 1025 0x61) := rfl
  rw [same, stored] at fits
  exact absurd fits (by decide)

end Dhf

end Q9OS

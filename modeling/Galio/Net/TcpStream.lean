import Galio.Net.TcpTable

/-! The bytes of a connection: what is acknowledged, what is buffered and what is delivered. -/

namespace Galio

open TcpConnection

open Transition List UInt32

/-- A connection, what was read from it, and the calls of `tcp_receive` that wait. -/
structure TcpStream where
  conn : TcpConnection
  /-- The sizes of the buffers of calls that passed the first check. -/
  waiting : List Nat
  /-- The bytes that calls have returned. -/
  delivered : List UInt8
  /-- The bytes that arrived under the numbers from the initial `remote_seq` up to the present one, none in a gap. -/
  stream : List (Option UInt8)

/-- What happens to a connection that is only read from. -/
inductive StreamAction where
  /-- An intact segment for the connection arrives. -/
  | input (env : TcpEnv) (segment : TcpSegment)
  /-- A call of `tcp_receive` starts. -/
  | call (length : Nat)
  /-- The wait of a call ends. -/
  | resume (k : Nat)

/-- The bytes that `remote_seq` advances over; a last segment has one number more. -/
def advance (before after : TcpConnection) : Nat :=
  (after.remoteSeq - before.remoteSeq - if after.state = before.state then 0 else 1).toNat

/-- The byte that a segment has under a sequence number. -/
def TcpSegment.byteAt (segment : TcpSegment) (number : UInt32) : Option UInt8 :=
  segment.payload[(number - segment.seq).toNat]?

/-- The connection, what is delivered and the stream after a step. -/
def streamStep (state : TcpStream) : StreamAction → TcpStream
  | .input env segment =>
    let conn := (state.conn.input env segment).1
    let arrived := (range (advance state.conn conn)).map fun k =>
      segment.byteAt (state.conn.remoteSeq + UInt32.ofNat k)
    { state with conn := conn, stream := state.stream ++ arrived }
  | .call length => if state.conn.receivable then { state with waiting := state.waiting ++ [length] } else state
  | .resume k =>
    match state.waiting[k]? with
    | none => state
    | some length =>
      { state with
        conn := (state.conn.take length).1
        waiting := state.waiting.eraseIdx k
        delivered := state.delivered ++ (state.conn.take length).2 }

/-- A connection as it is found, with the bytes in its buffer. -/
def openStream (conn : TcpConnection) : TcpStream := ⟨conn, [], [], conn.recvBuffer.map some⟩

/-- The number of the first byte of a stream. -/
def firstSeq (conn : TcpConnection) : UInt32 := conn.remoteSeq - UInt32.ofNat conn.recvBuffer.length

/-- No byte that was acknowledged is lost. -/
structure NoneLost (first : UInt32) (state : TcpStream) : Prop where
  /-- What was delivered and what is buffered is the stream. -/
  bytes : (state.delivered ++ state.conn.recvBuffer).map some = state.stream
  /-- The next number expected is the one behind the stream, and behind the last segment. -/
  next : state.conn.remoteSeq =
    first + UInt32.ofNat state.stream.length + if state.conn.state = .finWait then 1 else 0
  /-- What is buffered can be read. -/
  readable : state.conn.recvBuffer ≠ [] → state.conn.receivable

/-- The data of a segment is in order. -/
def InOrder (conn : TcpConnection) (segment : TcpSegment) : Prop :=
  segment.payload ≠ [] ∧ segment.seq = conn.remoteSeq

instance (conn : TcpConnection) (segment : TcpSegment) : Decidable (InOrder conn segment) :=
  inferInstanceAs (Decidable (_ ∧ _))

/-- Data in order fits or finds the buffer full, and a last segment in order finds it empty. -/
def Untruncated (state : TcpStream) : StreamAction → Prop
  | .input _ segment => state.conn.state = .established →
      (InOrder state.conn segment → state.conn.recvBuffer.length + segment.payload.length ≤ tcpRecvBufferSize ∨
        state.conn.recvBuffer.length = tcpRecvBufferSize) ∧
      (segment.fin → segment.seq = state.conn.remoteSeq →
        segment.payload = [] ∨ state.conn.recvBuffer.length = tcpRecvBufferSize → state.conn.recvBuffer = [])
  | _ => True

/-- The segments that packets can hold. -/
def PacketSized : StreamAction → Prop
  | .input _ segment => segment.payload.length < 65536
  | _ => True

/-- The data of a segment is taken, as far as it fits. -/
def Taken (conn : TcpConnection) (segment : TcpSegment) : Prop :=
  InOrder conn segment ∧ conn.recvBuffer.length < tcpRecvBufferSize

instance (conn : TcpConnection) (segment : TcpSegment) : Decidable (Taken conn segment) :=
  inferInstanceAs (Decidable (_ ∧ _))

/-- A segment is the last one, in order, and its data is not taken. -/
def Ended (conn : TcpConnection) (segment : TcpSegment) : Prop :=
  segment.fin ∧ segment.seq = conn.remoteSeq ∧ ¬Taken conn segment

instance (conn : TcpConnection) (segment : TcpSegment) : Decidable (Ended conn segment) :=
  inferInstanceAs (Decidable (_ ∧ _))

/-- The part of a connection that its stream is about. -/
structure StreamFields where
  recvBuffer : List UInt8
  remoteSeq : UInt32
  state : TcpState
  used : Bool

/-- These fields of a connection. -/
def TcpConnection.streamFields (conn : TcpConnection) : StreamFields :=
  ⟨conn.recvBuffer, conn.remoteSeq, conn.state, conn.used⟩

lemma TcpConnection.inputData_fields (env : TcpEnv) (conn : TcpConnection) (segment : TcpSegment) :
    (conn.inputData env segment).1.streamFields = if Taken conn segment then
      ⟨conn.recvBuffer ++ segment.payload.take (tcpRecvBufferSize - conn.recvBuffer.length),
        conn.remoteSeq + ofNat segment.payload.length, conn.state, conn.used⟩ else conn.streamFields := by
  have room : segment.payload ≠ [] → (segment.payload.take (tcpRecvBufferSize - conn.recvBuffer.length) ≠ [] ↔
      conn.recvBuffer.length < tcpRecvBufferSize) := by
    intro some
    rw [ne_eq, take_eq_nil_iff]
    simp only [some, or_false]
    omega
  unfold inputData
  by_cases order : segment.payload ≠ [] ∧ segment.seq = conn.remoteSeq
  · rw [if_pos order]
    by_cases space : conn.recvBuffer.length < tcpRecvBufferSize
    · rw [if_pos ((room order.1).mpr space), if_pos (show Taken conn segment from ⟨order, space⟩)]
      unfold tcpSendSegment
      split <;> rfl
    · rw [if_neg fun some => space ((room order.1).mp some), if_neg fun taken => space taken.2]
  · rw [if_neg order, if_neg fun taken => order taken.1]

lemma TcpConnection.inputFin_fields (env : TcpEnv) (conn : TcpConnection) (segment : TcpSegment) :
    (conn.inputFin env segment).1.streamFields = if segment.fin ∧ segment.seq = conn.remoteSeq then
      ⟨conn.recvBuffer, conn.remoteSeq + 1, .finWait, conn.used⟩ else conn.streamFields := by
  unfold inputFin
  split
  · dsimp only
    rw [tcpSendSegment_fst]
    rfl
  · rfl

lemma add_ofNat_ne {number : UInt32} {length : Nat} (positive : 0 < length) (small : length < 65536) :
    number + ofNat length ≠ number := by
  intro same
  have zero : ofNat length = 0 := by simpa using same
  have value := congrArg toNat zero
  simp at value
  omega

variable {conn : TcpConnection}

lemma TcpConnection.input_established (state : conn.state = .established) (env : TcpEnv)
    (segment : TcpSegment) (small : segment.payload.length < 65536) : (conn.input env segment).1.streamFields =
      ⟨if Taken conn segment then
          conn.recvBuffer ++ segment.payload.take (tcpRecvBufferSize - conn.recvBuffer.length) else conn.recvBuffer,
        conn.remoteSeq + (if Taken conn segment then ofNat segment.payload.length else 0) +
          (if Ended conn segment then 1 else 0),
        if Ended conn segment then .finWait else .established, conn.used⟩ := by
  have parts : (conn.input env segment).1 =
      ((inputData env { conn with lastActivity := env.now } segment).1.inputFin env segment).1 := by
    simp [input, state]
  have data := inputData_fields env { conn with lastActivity := env.now } segment
  have same : Taken { conn with lastActivity := env.now } segment ↔ Taken conn segment := Iff.rfl
  rw [parts, inputFin_fields]
  generalize (inputData env { conn with lastActivity := env.now } segment).1 = middle at data ⊢
  by_cases taken : Taken conn segment
  · rw [if_pos (same.mpr taken)] at data
    have positive : 0 < segment.payload.length := length_pos_iff.mpr taken.1.1
    have later : ¬(segment.fin ∧ segment.seq = middle.remoteSeq) := by
      rintro ⟨-, order⟩
      have number : middle.remoteSeq = _ := congrArg StreamFields.remoteSeq data
      exact add_ofNat_ne positive small (number.symm.trans (order.symm.trans taken.1.2))
    have open' : ¬Ended conn segment := fun ended => ended.2.2 taken
    rw [if_neg later, data, if_pos taken, if_pos taken, if_neg open', if_neg open', ← state]
    simp
  · rw [if_neg fun also => taken (same.mp also)] at data
    have order : middle.remoteSeq = conn.remoteSeq := congrArg StreamFields.remoteSeq data
    have buffer : middle.recvBuffer = conn.recvBuffer := congrArg StreamFields.recvBuffer data
    have used : middle.used = conn.used := congrArg StreamFields.used data
    have ended : Ended conn segment ↔ segment.fin ∧ segment.seq = conn.remoteSeq :=
      ⟨fun ended => ⟨ended.1, ended.2.1⟩, fun both => ⟨both.1, both.2, taken⟩⟩
    rw [order, buffer, used, data, ← state]
    simp only [ended]
    split_ifs <;> simp [streamFields]

/-- What holds if nothing was lost: only an open connection has bytes left. -/
structure Intact (first : UInt32) (state : TcpStream) : Prop where
  bytes : (state.delivered ++ state.conn.recvBuffer).map some = state.stream
  next : state.conn.remoteSeq =
    first + UInt32.ofNat state.stream.length + if state.conn.state = .finWait then 1 else 0
  size : state.conn.recvBuffer.length ≤ tcpRecvBufferSize
  used : state.conn.used = true
  phase : state.conn.state = .established ∨ state.conn.state = .finWait ∧ state.conn.recvBuffer = []

variable {first : UInt32} {state : TcpStream} {segment : TcpSegment}

lemma Intact.noneLost (intact : Intact first state) : NoneLost first state := by
  refine ⟨intact.bytes, intact.next, fun some => ⟨intact.used, ?_⟩⟩
  rcases intact.phase with opened | ⟨-, none⟩
  · exact opened
  · exact absurd none some

/-- The bytes that a segment has under its own numbers are its data. -/
theorem byteAt_payload (small : segment.payload.length < 65536) :
    (range segment.payload.length).map (fun k => segment.byteAt (segment.seq + ofNat k)) =
      segment.payload.map some := by
  refine ext_getElem (by simp) fun k below inside => ?_
  have inData : k < segment.payload.length := by simpa using below
  have number : (segment.seq + ofNat k - segment.seq).toNat = k := by
    rw [UInt32.add_comm, UInt32.add_sub_cancel, toNat_ofNat', Nat.mod_eq_of_lt (by omega)]
  rw [getElem_map, getElem_map, getElem_range, TcpSegment.byteAt, number, getElem?_eq_getElem inData]

/-- The bytes that a segment for an open connection advances over: all of its data or none. -/
theorem advance_established (opened : conn.state = .established) (env : TcpEnv)
    (small : segment.payload.length < 65536) :
    (range (advance conn (conn.input env segment).1)).map (fun k => segment.byteAt (conn.remoteSeq + ofNat k)) =
      (if Taken conn segment then segment.payload else []).map some := by
  have fields := input_established opened env segment small
  have number : (conn.input env segment).1.remoteSeq = _ := congrArg StreamFields.remoteSeq fields
  have phase : (conn.input env segment).1.state = _ := congrArg StreamFields.state fields
  rw [advance, number, phase, opened]
  by_cases taken : Taken conn segment
  · have open' : ¬Ended conn segment := fun ended => ended.2.2 taken
    have length : (ofNat segment.payload.length).toNat = segment.payload.length := by
      rw [toNat_ofNat', Nat.mod_eq_of_lt (by omega)]
    simp only [if_pos taken, if_neg open', if_true]
    -- Data that is taken starts at the number that was expected.
    rw [UInt32.add_zero, UInt32.add_comm, UInt32.add_sub_cancel, UInt32.sub_zero, length, ← taken.1.2]
    exact byteAt_payload small
  · by_cases ended : Ended conn segment
    · have one : conn.remoteSeq + 1 - conn.remoteSeq - 1 = 0 := by
        rw [UInt32.add_comm, UInt32.add_sub_cancel, UInt32.sub_self]
      simp only [if_neg taken, if_pos ended, UInt32.add_zero, reduceCtorEq, if_false, one]
      rfl
    · simp [taken, ended]

section Input

variable (intact : Intact first state) {env : TcpEnv} (small : segment.payload.length < 65536)

/-- What a segment for an open connection changes. -/
structure Arrives (state : TcpStream) (env : TcpEnv) (segment : TcpSegment) (buffer gained : List UInt8) (last : Bool) :
    Prop where
  buffer : (streamStep state (.input env segment)).conn.recvBuffer = buffer
  stream : (streamStep state (.input env segment)).stream = state.stream ++ gained.map some
  number : (streamStep state (.input env segment)).conn.remoteSeq =
    state.conn.remoteSeq + UInt32.ofNat gained.length + if last then 1 else 0
  phase : (streamStep state (.input env segment)).conn.state = if last then .finWait else .established
  used : (streamStep state (.input env segment)).conn.used = state.conn.used

include small in
/-- A segment is taken, or it is the last one, or it changes nothing. -/
theorem arrives_cases (opened : state.conn.state = .established) :
    Taken state.conn segment ∧ Arrives state env segment
        (state.conn.recvBuffer ++ segment.payload.take (tcpRecvBufferSize - state.conn.recvBuffer.length))
        segment.payload false ∨ Ended state.conn segment ∧ Arrives state env segment state.conn.recvBuffer [] true ∨
      ¬Taken state.conn segment ∧ ¬Ended state.conn segment ∧
        Arrives state env segment state.conn.recvBuffer [] false := by
  have fields := input_established opened env segment small
  have gained := advance_established opened env small
  by_cases taken : Taken state.conn segment
  · have unended : ¬Ended state.conn segment := fun ended => ended.2.2 taken
    simp only [if_pos taken, if_neg unended] at fields gained
    exact .inl ⟨taken, congrArg StreamFields.recvBuffer fields, congrArg (state.stream ++ ·) gained,
      congrArg StreamFields.remoteSeq fields, congrArg StreamFields.state fields, congrArg StreamFields.used fields⟩
  · by_cases ended : Ended state.conn segment
    · simp only [if_neg taken, if_pos ended] at fields gained
      exact .inr (.inl ⟨ended, congrArg StreamFields.recvBuffer fields, congrArg (state.stream ++ ·) gained,
        congrArg StreamFields.remoteSeq fields, congrArg StreamFields.state fields, congrArg StreamFields.used fields⟩)
    · simp only [if_neg taken, if_neg ended] at fields gained
      exact .inr (.inr ⟨taken, ended, congrArg StreamFields.recvBuffer fields, congrArg (state.stream ++ ·) gained,
        congrArg StreamFields.remoteSeq fields, congrArg StreamFields.state fields, congrArg StreamFields.used fields⟩)

include intact in
lemma Intact.arrives (opened : state.conn.state = .established) {gained : List UInt8} {last : Bool}
    (arrives : Arrives state env segment (state.conn.recvBuffer ++ gained) gained last)
    (size : (state.conn.recvBuffer ++ gained).length ≤ tcpRecvBufferSize)
    (empty : last → state.conn.recvBuffer ++ gained = []) : Intact first (streamStep state (.input env segment)) := by
  have start : state.conn.remoteSeq = first + ofNat state.stream.length := by
    rw [intact.next, opened]
    simp
  refine ⟨?_, ?_, arrives.buffer ▸ size, arrives.used.trans intact.used, ?_⟩
  · rw [arrives.buffer, arrives.stream, ← intact.bytes, ← map_append, append_assoc]
    rfl
  · rw [arrives.number, arrives.phase, arrives.stream, start]
    cases last <;> simp [UInt32.add_assoc]
  · rw [arrives.phase, arrives.buffer]
    cases last with
    | false => exact .inl rfl
    | true => exact .inr ⟨rfl, empty rfl⟩

include intact in
lemma Intact.full_of_not_taken (order : InOrder state.conn segment) (untaken : ¬Taken state.conn segment) :
    state.conn.recvBuffer.length = tcpRecvBufferSize :=
  Nat.le_antisymm intact.size (Nat.le_of_not_lt fun space => untaken ⟨order, space⟩)

include intact small in
/-- A segment that arrives loses nothing exactly if nothing of it is cut off. -/
theorem Intact.input :
    (Untruncated state (.input env segment) → Intact first (streamStep state (.input env segment))) ∧
      (¬Untruncated state (.input env segment) → ¬NoneLost first (streamStep state (.input env segment))) := by
  rcases intact.phase with opened | ⟨closed, none⟩
  · rcases arrives_cases small opened with ⟨taken, arrives⟩ | ⟨ended, arrives⟩ | ⟨untaken, unended, arrives⟩
    · -- The data is taken as far as it fits, and the whole of it is acknowledged.
      by_cases fits : state.conn.recvBuffer.length + segment.payload.length ≤ tcpRecvBufferSize
      · rw [take_of_length_le (by omega)] at arrives
        refine ⟨fun _ => intact.arrives opened arrives (by rw [length_append]; exact fits) (by simp),
          fun cut => absurd (fun _ => ⟨fun _ => .inl fits, fun _ _ either => ?_⟩) cut⟩
        rcases either with empty | full
        · exact absurd empty taken.1.1
        · exact absurd full (Nat.ne_of_lt taken.2)
      · refine ⟨fun allowed => ?_, fun _ lost => ?_⟩
        · rcases (allowed opened).1 taken.1 with room | full
          · exact absurd room fits
          · exact absurd full (Nat.ne_of_lt taken.2)
        · have lengths := congrArg length lost.bytes
          have before := congrArg length intact.bytes
          have delivered : (streamStep state (.input env segment)).delivered = state.delivered := rfl
          have space := taken.2
          rw [arrives.stream, arrives.buffer, delivered] at lengths
          simp only [length_append, length_take, length_map] at lengths before
          omega
    · -- The last segment closes the connection to readers.
      have late : segment.payload = [] ∨ state.conn.recvBuffer.length = tcpRecvBufferSize := by
        by_cases none : segment.payload = []
        · exact .inl none
        · exact .inr (intact.full_of_not_taken ⟨none, ended.2.1⟩ ended.2.2)
      by_cases empty : state.conn.recvBuffer = []
      · have kept : Arrives state env segment (state.conn.recvBuffer ++ []) [] true := by
          rw [append_nil]
          exact arrives
        refine ⟨fun _ => intact.arrives opened kept (by rw [append_nil]; exact intact.size)
          (by rw [append_nil]; exact fun _ => empty),
          fun cut => absurd (fun _ => ⟨fun order => late.imp_left fun none => absurd none order.1,
            fun _ _ _ => empty⟩) cut⟩
      · refine ⟨fun allowed => absurd ((allowed opened).2 ended.1 ended.2.1 late) empty, fun _ lost => ?_⟩
        have readable := lost.readable (by rw [arrives.buffer]; exact empty)
        have stays := arrives.phase.symm.trans readable.2
        simp at stays
    · have kept : Arrives state env segment (state.conn.recvBuffer ++ []) [] false := by
        rw [append_nil]
        exact arrives
      refine ⟨fun _ => intact.arrives opened kept (by rw [append_nil]; exact intact.size) (by simp),
        fun cut => absurd (fun _ => ⟨fun order => .inr (intact.full_of_not_taken order untaken), ?_⟩) cut⟩
      exact fun fin order _ => absurd ⟨fin, order, untaken⟩ unended
  · -- Behind the last segment nothing is taken any more.
    have fields : (state.conn.input env segment).1.streamFields = state.conn.streamFields := by
      simp [TcpConnection.input, closed, TcpConnection.streamFields]
    have number : (state.conn.input env segment).1.remoteSeq = state.conn.remoteSeq :=
      congrArg StreamFields.remoteSeq fields
    have phase : (state.conn.input env segment).1.state = state.conn.state := congrArg StreamFields.state fields
    have buffer : (state.conn.input env segment).1.recvBuffer = state.conn.recvBuffer :=
      congrArg StreamFields.recvBuffer fields
    have used : (state.conn.input env segment).1.used = state.conn.used := congrArg StreamFields.used fields
    have stream : (streamStep state (.input env segment)).stream = state.stream := by
      simp [streamStep, advance, number, phase]
    have allowed : Untruncated state (.input env segment) := fun opened => by simp [closed] at opened
    refine ⟨fun _ => ⟨?_, ?_, ?_, used.trans intact.used, .inr ⟨phase.trans closed, buffer.trans none⟩⟩,
      fun cut => absurd allowed cut⟩
    · rw [stream, ← intact.bytes]
      exact congrArg (fun bytes => (state.delivered ++ bytes).map some) buffer
    · rw [stream]
      exact number.trans (intact.next.trans (by simp only [streamStep, phase]))
    · exact (congrArg length buffer).le.trans intact.size

end Input

lemma Intact.call (intact : Intact first state) {action : StreamAction}
    (calls : ∀ env segment, action ≠ .input env segment) : Intact first (streamStep state action) := by
  cases action with
  | input env segment => exact absurd rfl (calls env segment)
  | call length =>
    rw [streamStep]
    split
    · exact { intact with }
    · exact intact
  | resume k =>
    rw [streamStep]
    split
    · exact intact
    refine ⟨?_, intact.next, ?_, intact.used, intact.phase.imp_right fun closed => ⟨closed.1, ?_⟩⟩
    · simp only [TcpConnection.take]
      rw [append_assoc, take_append_drop, intact.bytes]
    · simp only [TcpConnection.take, length_drop]
      have size := intact.size
      omega
    · simp [TcpConnection.take, closed.2]

/--
No acknowledged byte is lost in a run exactly if data is never cut off.

Data in order fits the buffer whole or finds it full, and a last segment in order finds it empty.
-/
theorem noneLost_run_iff {conn : TcpConnection} (used : conn.used = true) (opened : conn.state = .established)
    (size : conn.recvBuffer.length ≤ tcpRecvBufferSize) {actions : List StreamAction}
    (sized : ∀ action ∈ actions, PacketSized action) :
    Visits (NoneLost (firstSeq conn)) (openStream conn) (record streamStep (openStream conn) actions) ↔
      Along (fun state action _ => Untruncated state action) (openStream conn)
        (record streamStep (openStream conn) actions) := by
  have taken : Along (fun state action after => after = streamStep state action ∧ PacketSized action) (openStream conn)
      (record streamStep (openStream conn) actions) :=
    along_record _ fun _ action listed => ⟨rfl, sized action listed⟩
  have start : Intact (firstSeq conn) (openStream conn) := by
    refine ⟨rfl, ?_, size, used, .inl opened⟩
    simp [openStream, firstSeq, opened]
  refine visits_iff_along (Intact (firstSeq conn)) (fun _ => Intact.noneLost) ?_ ?_ start taken
  · rintro state action after intact ⟨rfl, small⟩ allowed
    cases action with
    | input env segment => exact (intact.input small).1 allowed
    | call length => exact intact.call (by simp)
    | resume k => exact intact.call (by simp)
  · rintro state action after intact ⟨rfl, small⟩ cut
    cases action with
    | input env segment => exact (intact.input small).2 cut
    | call length => exact absurd trivial cut
    | resume k => exact absurd trivial cut

/-- An open connection that expects number 5, with some buffered bytes. -/
def smallConnection (buffer : List UInt8) : TcpConnection :=
  { used := true, state := .established, tuple := ⟨1, 80, 2, 3000⟩, remoteSeq := 5, recvBuffer := buffer }

/-- A segment for it. -/
def smallSegment (seq : UInt32) (flags : Nat) (payload : List UInt8) : TcpSegment :=
  ⟨2, 3000, 1, 80, seq, 0, flags, payload, true⟩

/-- No acknowledgement can be sent. -/
def silentEnv : TcpEnv := ⟨0, fun _ => none⟩

/-- Two bytes that arrive, are read and followed by the last segment. -/
theorem noneLost_run_iff_read_first :
    Visits (NoneLost (firstSeq (smallConnection []))) (openStream (smallConnection []))
      (record streamStep (openStream (smallConnection [])) [.input silentEnv (smallSegment 5 tcpFlagAck [7, 8]),
        .call 4,
        .resume 0, .input silentEnv (smallSegment 7 tcpFlagFinAck [])]) := by
  refine (noneLost_run_iff rfl rfl (by decide) ?_).mpr ⟨?_, trivial, trivial, ?_, trivial⟩
  · simp [PacketSized, smallSegment]
  · exact fun _ => ⟨fun _ => .inl (by decide), fun fin => absurd fin (by decide)⟩
  · exact fun _ => ⟨fun order => absurd rfl order.1, fun _ _ _ => by decide +kernel⟩

/--
Two segments that lose bytes.

With 8190 bytes buffered two of four bytes in order are stored and all of them acknowledged; and a byte that is
buffered cannot be read any more after the last segment.
-/
theorem acknowledged_bytes_lost :
    ¬Visits (NoneLost (firstSeq (smallConnection (List.replicate 8190 0))))
        (openStream (smallConnection (List.replicate 8190 0)))
        (record streamStep (openStream (smallConnection (List.replicate 8190 0)))
          [.input silentEnv (smallSegment 5 tcpFlagAck [1, 2, 3, 4])]) ∧
      ¬Visits (NoneLost (firstSeq (smallConnection [9]))) (openStream (smallConnection [9]))
        (record streamStep (openStream (smallConnection [9]))
          [.input silentEnv (smallSegment 5 tcpFlagFinAck [])]) := by
  have start : ∀ buffer, buffer.length ≤ tcpRecvBufferSize →
      Intact (firstSeq (smallConnection buffer)) (openStream (smallConnection buffer)) := by
    intro buffer size
    refine ⟨rfl, ?_, size, rfl, .inl rfl⟩
    simp [openStream, firstSeq, smallConnection]
  refine ⟨fun visits => ?_, fun visits => ?_⟩
  · have full : (replicate 8190 (0 : UInt8)).length = 8190 := length_replicate
    refine ((start _ (by rw [full]; decide)).input (by decide)).2 (fun allowed => ?_) visits.2
    rcases (allowed rfl).1 ⟨by decide, rfl⟩ with fits | same
    · exact absurd (full ▸ fits) (by decide)
    · exact absurd (full ▸ same) (by decide)
  · refine ((start [9] (by decide)).input (by decide)).2 (fun allowed => ?_) visits.2
    exact absurd ((allowed rfl).2 rfl rfl (.inl rfl)) (by decide)

end Galio

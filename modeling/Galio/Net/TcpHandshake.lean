import Galio.Net.TcpTable

/-! Two hosts that open a connection over a channel which delays, drops and repeats segments. -/

namespace Galio

open List Option TcpConnection

/-- Two hosts, and every segment that one of them has sent. -/
structure Handshake where
  client : Tcp
  server : Tcp
  wire : List TcpSegment

/-- What happens at a host; the channel delivers any segment, at any time and any number of times. -/
inductive HostEvent where
  | deliver (env : TcpEnv) (position : Nat)
  | poll (env : TcpEnv)
  /-- `tcp_accept` with a connection pending. -/
  | accept (i : Nat)
  /-- `tcp_receive` after its wait. -/
  | receive (i length : Nat)
  | close (env : TcpEnv) (i : Nat)

/-- The table of a host after an event, and what it sends. -/
def hostStep (wire : List TcpSegment) (tcp : Tcp) : HostEvent → Tcp × List TcpSegment
  | .deliver env position =>
    match wire[position]? with
    | none => (tcp, [])
    | some segment => tcpInput env tcp segment
  | .poll env => tcpPoll env tcp
  | .accept i => if (tcp.conns i).pendingCount ≠ 0 then ((tcpAcceptTake tcp i).1, []) else (tcp, [])
  | .receive i length => (tcp.setConn i ((tcp.conns i).take length).1, [])
  | .close env i => ((tcpClose env tcp i).1, (tcpClose env tcp i).2.toList)

/-- The steps of both hosts; no data is sent. -/
inductive HandshakeAction where
  | client (event : HostEvent)
  /-- `tcp_connect` after its wait. -/
  | finish (i : Nat)
  | server (event : HostEvent)
  | listen (localIp localPort backlog : Nat)

namespace Handshake

/-- The hosts after a step. -/
def step (state : Handshake) : HandshakeAction → Handshake
  | .client event =>
    let next := hostStep state.wire state.client event
    { state with client := next.1, wire := state.wire ++ next.2 }
  | .finish i => { state with client := (tcpConnectFinish state.client i).1 }
  | .server event =>
    let next := hostStep state.wire state.server event
    { state with server := next.1, wire := state.wire ++ next.2 }
  | .listen localIp localPort backlog => { state with server := (tcpListen state.server localIp localPort backlog).1 }

/-- The hosts after the client's `tcp_connect` has sent its first segment, or failed to. -/
def start (env : TcpEnv) (device : Option Nat) (destIp destPort : Nat) : Handshake :=
  let started := tcpConnectStart env device tcpInit destIp destPort
  ⟨started.1, tcpInit, started.2.2.toList⟩

/-- A connection of the client and the one of the server that answers it. -/
structure Joined (state : Handshake) (i j : Nat) : Prop where
  client : state.client.Active i
  server : state.server.Active j
  source : (state.client.conns i).tuple.srcIp = (state.server.conns j).tuple.destIp
  sourcePort : (state.client.conns i).tuple.srcPort = (state.server.conns j).tuple.destPort
  destination : (state.client.conns i).tuple.destIp = (state.server.conns j).tuple.srcIp
  destinationPort : (state.client.conns i).tuple.destPort = (state.server.conns j).tuple.srcPort
  clientOpen : (state.client.conns i).state = .established
  serverOpen : (state.server.conns j).state = .established

/-- The two ends of a connection expect of each other the numbers that they will send. -/
def Agree (state : Handshake) (i j : Nat) : Prop :=
  (state.client.conns i).seq = (state.server.conns j).remoteSeq ∧
    (state.server.conns j).seq = (state.client.conns i).remoteSeq

end Handshake

/-- A segment without data, whose number is among the first ones if it opens a connection. -/
structure Opening (first : UInt32) (count : Nat) (segment : TcpSegment) : Prop where
  empty : segment.payload = []
  numbered : segment.syn = true → segment.acks = false → ∃ k, k < count ∧ segment.seq = first + UInt32.ofNat k

/-- The client's connection after some first segments: its number is past them, and one more once open. -/
structure Asking (first : UInt32) (count slot : Nat) (conn : TcpConnection) : Prop where
  /-- Only one slot is ever in use. -/
  only : slot = 0
  plain : conn.listener = false
  phase : conn.state = .synSent ∧ conn.seq = first + UInt32.ofNat count ∧ count ≤ conn.retries + 1 ∨
    conn.state = .established ∧ conn.seq = first + UInt32.ofNat count + 1 ∨ conn.state = .finWait

/-- A server's connection expects the number after one of the first segments. -/
def Answering (first : UInt32) (count _slot : Nat) (conn : TcpConnection) : Prop :=
  conn.state = .closed ∨ conn.state = .finWait ∨
    (conn.state = .synReceived ∨ conn.state = .established) ∧
      ∃ k, k < count ∧ conn.remoteSeq = first + UInt32.ofNat k + 1

/-- A property of every connection in use and its slot. -/
def Tcp.Every (holds : Nat → TcpConnection → Prop) (tcp : Tcp) : Prop :=
  ∀ i, (tcp.conns i).used = true → holds i (tcp.conns i)

/-- Of the first segments in transit, as many as the client has sent, every number is accounted for. -/
structure Handshake.Counted (state : Handshake) (first : UInt32) (count : Nat) : Prop where
  few : count ≤ 4
  client : state.client.Every (Asking first count)
  server : state.server.Every (Answering first count)
  wire : ∀ segment ∈ state.wire, Opening first count segment

variable {address : Option Nat} {after conn : TcpConnection} {count flags i more : Nat} {first now : UInt32}
  {segment : TcpSegment} {told : Bool} {slot : Nat}

section Sending

lemma Opening.mono (opening : Opening first count segment) (grown : count ≤ more) : Opening first more segment := by
  refine ⟨opening.empty, fun syn acks => ?_⟩
  obtain ⟨k, below, number⟩ := opening.numbered syn acks
  exact ⟨k, by omega, number⟩

lemma Answering.mono (answering : Answering first count slot conn)
    (grown : count ≤ more) : Answering first more slot conn := by
  rcases answering with closed | closing | ⟨opened, k, below, number⟩
  · exact .inl closed
  · exact .inr (.inl closing)
  · exact .inr (.inr ⟨opened, k, by omega, number⟩)

lemma tcpSendSegment_snd {payload : List UInt8}
    (sent : (tcpSendSegment now address conn payload flags).2 = some segment) :
    segment.payload = payload ∧ segment.flags = flags ∧ segment.seq = conn.seq := by
  cases address with
  | none => simp [tcpSendSegment] at sent
  | some ip =>
    simp only [tcpSendSegment, some.injEq] at sent
    simp [← sent]

lemma tcpSendSegment_ack (now : UInt32) (address : Option Nat) (conn : TcpConnection) :
    (tcpSendSegment now address conn [] tcpFlagAck).1.seq = conn.seq := by
  cases address with
  | none => rfl
  | some ip => simp [tcpSendSegment, tcpFlagAck, Nat.testBit]

lemma opening_of_sent (later : flags.testBit 1 → flags.testBit 4) :
    ∀ segment ∈ (tcpSendSegment now address conn [] flags).2.toList, Opening first count segment := by
  intro segment mem
  obtain ⟨empty, given, -⟩ := tcpSendSegment_snd (mem_toList.mp mem)
  refine ⟨empty, fun syn acks => ?_⟩
  rw [TcpSegment.syn, given] at syn
  rw [TcpSegment.acks, given] at acks
  simp [later syn] at acks

end Sending

namespace TcpConnection

/-- What a segment without data can do to a connection. -/
inductive Heard (conn : TcpConnection) (segment : TcpSegment) : TcpConnection → Bool → Prop where
  /-- Only the tick changes. -/
  | kept (now : UInt32) : Heard conn segment { conn with lastActivity := now } false
  /-- The answer to a first segment. -/
  | answered (now : UInt32) (asked : conn.state = .synSent) :
    Heard conn segment { conn with
      lastActivity := now, remoteSeq := segment.seq + 1, ack := segment.seq + 1, seq := conn.seq + 1
      state := .established } false
  /-- The answer to that. -/
  | confirmed (now : UInt32) (received : conn.state = .synReceived) :
    Heard conn segment { conn with lastActivity := now, state := .established } true
  /-- The last segment. -/
  | ended (after : TcpConnection) (opened : conn.state = .established) (state : after.state = .finWait)
    (plain : after.listener = conn.listener) : Heard conn segment after false

lemma sent_ack (now : UInt32) (address : Option Nat) (conn : TcpConnection) :
    ∃ tick, (tcpSendSegment now address conn [] tcpFlagAck).1 = { conn with lastActivity := tick } := by
  refine ⟨(tcpSendSegment now address conn [] tcpFlagAck).1.lastActivity, ?_⟩
  rw [tcpSendSegment_fst, tcpSendSegment_ack]

lemma input_heard (env : TcpEnv) (conn : TcpConnection) (empty : segment.payload = []) :
    Heard conn segment (conn.input env segment).1 (conn.input env segment).2.2 := by
  unfold input
  dsimp only
  split
  · rename_i asked
    obtain ⟨tick, sent⟩ := sent_ack env.now (env.sends 0) { conn with
      lastActivity := env.now, remoteSeq := segment.seq + 1, ack := segment.seq + 1, seq := conn.seq + 1
      state := .established }
    rw [sent]
    exact .answered tick asked.1
  split
  · rename_i received
    exact .confirmed env.now received.1
  split
  · rename_i opened
    simp only [inputData, empty, ne_eq, not_true_eq_false, false_and, if_false, inputFin]
    split
    · exact .ended _ opened rfl (by rw [tcpSendSegment_fst])
    · exact .kept env.now
  · exact .kept env.now

lemma input_sent (env : TcpEnv) (conn : TcpConnection) (segment : TcpSegment) :
    ∀ answer ∈ (conn.input env segment).2.1, Opening first count answer := by
  have quiet : ∀ (address : Option Nat) (sender : TcpConnection),
      ∀ answer ∈ (tcpSendSegment env.now address sender [] tcpFlagAck).2.toList, Opening first count answer :=
    fun _ _ => opening_of_sent (by decide)
  unfold input
  dsimp only
  split
  · exact quiet _ _
  split
  · simp
  split
  · intro answer mem
    rcases mem_append.mp mem with data | fin
    · unfold inputData at data
      dsimp only at data
      split at data
      · split at data
        · exact quiet _ _ answer data
        · simp at data
      · simp at data
    · unfold inputFin at fin
      split at fin
      · exact quiet _ _ answer fin
      · simp at fin
  · simp

lemma Heard.asking (heard : Heard conn segment after told)
    (asking : Asking first count slot conn) : Asking first count slot after ∧ told = false := by
  cases heard with
  | kept now => exact ⟨⟨asking.only, asking.plain, asking.phase⟩, rfl⟩
  | answered now asked =>
    rcases asking.phase with ⟨-, number, -⟩ | ⟨opened, -⟩ | closing
    · exact ⟨⟨asking.only, asking.plain, .inr (.inl ⟨rfl, by rw [number]⟩)⟩, rfl⟩
    · simp [asked] at opened
    · simp [asked] at closing
  | confirmed now received =>
    rcases asking.phase with ⟨asked, -⟩ | ⟨opened, -⟩ | closing
    · simp [received] at asked
    · simp [received] at opened
    · simp [received] at closing
  | ended _ _ state plain => exact ⟨⟨asking.only, plain.trans asking.plain, .inr (.inr state)⟩, rfl⟩

lemma Heard.answering (heard : Heard conn segment after told)
    (answering : Answering first count slot conn) : Answering first count slot after := by
  cases heard with
  | kept now => exact answering
  | answered now asked =>
    rcases answering with closed | closing | ⟨received | opened, -⟩
    · simp [asked] at closed
    · simp [asked] at closing
    · simp [asked] at received
    · simp [asked] at opened
  | confirmed now received =>
    rcases answering with closed | closing | ⟨-, number⟩
    · simp [received] at closed
    · simp [received] at closing
    · exact .inr (.inr ⟨.inr rfl, number⟩)
  | ended _ _ state => exact .inr (.inl state)

end TcpConnection

variable {tcp : Tcp} {holds : Nat → TcpConnection → Prop}

namespace Tcp

/-- A property of a connection's state, numbers and whether it is a listener. -/
def Numeric (holds : Nat → TcpConnection → Prop) : Prop :=
  ∀ i (before after : TcpConnection), holds i before → after.state = before.state → after.seq = before.seq →
    after.remoteSeq = before.remoteSeq → after.retries = before.retries → after.listener = before.listener →
      holds i after

lemma Every.setConn (every : tcp.Every holds) (i : Nat) (own : conn.used → holds i conn) :
    (tcp.setConn i conn).Every holds := by
  intro j used
  by_cases here : j = i
  · subst here
    rw [setConn_here] at used ⊢
    exact own used
  · rw [setConn_other _ _ here] at used ⊢
    exact every j used

lemma every_free (numeric : Numeric holds) (others : ∀ j ≠ i, (tcp.conns j).used → holds j (tcp.conns j)) :
    (tcp.free i).Every holds := by
  intro j used
  have core := tcp.free_core i j
  by_cases here : j = i
  · subst here
    rw [if_pos rfl] at core
    have unused : ((tcp.free j).conns j).used = false := congrArg TcpConnection.used core
    simp [unused] at used
  · rw [if_neg here] at core
    have same : ∀ {Value : Type} (field : TcpConnection → Value),
      (∀ conn : TcpConnection, field conn.core = field conn) →
        field ((tcp.free i).conns j) = field (tcp.conns j) := fun field => of_core core field
    have before : (tcp.conns j).used = true := (same TcpConnection.used fun _ => rfl).symm.trans used
    exact numeric j _ _ (others j here before) (same state fun _ => rfl)
      (same seq fun _ => rfl) (same remoteSeq fun _ => rfl)
      (same retries fun _ => rfl) (same listener fun _ => rfl)

lemma search_used {tuple : TcpTuple} : ∀ {steps : Nat} {head : Option Nat},
    tcp.search tuple steps head = some i → (tcp.conns i).used := by
  intro steps
  induction steps with
  | zero => intro head found; simp [search] at found
  | succ steps ih =>
    intro head found
    cases head with
    | none => simp [search] at found
    | some node =>
      rw [search] at found
      split at found
      · rename_i here
        cases found
        exact here.1
      · exact ih found

lemma Every.close (every : tcp.Every holds) (numeric : Numeric holds) (env : TcpEnv)
    (i : Nat) : (tcpClose env tcp i).1.Every holds ∧
      ∀ segment ∈ (tcpClose env tcp i).2.toList, Opening first count segment := by
  unfold tcpClose
  split
  · exact ⟨every, by simp⟩
  split
  · refine ⟨every_free numeric fun j other used => ?_, opening_of_sent (by decide)⟩
    rw [setConn_other _ _ other] at used ⊢
    exact every j used
  · exact ⟨every_free numeric fun j _ used => every j used, by simp⟩

lemma Every.setConn_same (every : tcp.Every holds) (numeric : Numeric holds)
    (used : conn.used = (tcp.conns i).used) (state : conn.state = (tcp.conns i).state)
    (seq : conn.seq = (tcp.conns i).seq) (remoteSeq : conn.remoteSeq = (tcp.conns i).remoteSeq)
    (retries : conn.retries = (tcp.conns i).retries) (listener : conn.listener = (tcp.conns i).listener) :
    (tcp.setConn i conn).Every holds :=
  every.setConn i fun own => numeric i _ _ (every i (used.symm.trans own)) state seq remoteSeq retries listener

end Tcp

lemma hostStep_every {wire : List TcpSegment} {event : HostEvent}
    (numeric : Tcp.Numeric holds) (every : tcp.Every holds)
    (deliver : ∀ env, ∀ segment ∈ wire, (tcpInput env tcp segment).1.Every holds ∧
      ∀ answer ∈ (tcpInput env tcp segment).2, Opening first count answer) (calm : ∀ env, event ≠ .poll env) :
    (hostStep wire tcp event).1.Every holds ∧ ∀ segment ∈ (hostStep wire tcp event).2, Opening first count segment := by
  cases event with
  | deliver env position =>
    simp only [hostStep]
    cases found : wire[position]? with
    | none => exact ⟨every, by simp⟩
    | some segment => exact deliver env segment (mem_of_getElem? found)
  | poll env => exact absurd rfl (calm env)
  | accept i =>
    simp only [hostStep]
    split
    · exact ⟨every.setConn_same numeric rfl rfl rfl rfl rfl rfl, by simp⟩
    · exact ⟨every, by simp⟩
  | receive i length => exact ⟨every.setConn_same numeric rfl rfl rfl rfl rfl rfl, by simp [hostStep]⟩
  | close env i => exact every.close numeric env i

section Client

lemma asking_numeric : Tcp.Numeric (Asking first count) := by
  intro i before after asking state seq _ retries listener
  refine ⟨asking.only, listener.trans asking.plain, ?_⟩
  rw [state, seq, retries]
  exact asking.phase

lemma client_input (env : TcpEnv) (every : tcp.Every (Asking first count))
    (opening : Opening first count segment) : (tcpInput env tcp segment).1.Every (Asking first count) ∧
      ∀ answer ∈ (tcpInput env tcp segment).2, Opening first count answer := by
  have deaf : ∀ destination port, tcpFindListener tcp destination port = none := by
    intro destination port
    refine find?_eq_none.mpr fun i _ => ?_
    simp only [decide_eq_true_eq]
    rintro ⟨used, listens, -⟩
    simp [(every i used).plain] at listens
  unfold tcpInput
  split
  · split
    · simpa [tcpInputSyn, deaf] using every
    · simpa using every
  · rename_i i found
    have used := Tcp.search_used found
    split
    · obtain ⟨kept, untold⟩ := (input_heard env (tcp.conns i) opening.empty).asking (every i used)
      dsimp only
      rw [untold]
      exact ⟨every.setConn i fun _ => kept, input_sent env _ segment⟩
    · simpa using every

lemma every_of_first {before : Tcp} (every : before.Every (Asking first count))
    (own : Asking first more 0 conn) : (before.setConn 0 conn).Every (Asking first more) := by
  intro j used
  by_cases here : j = 0
  · subst here
    rwa [Tcp.setConn_here]
  · rw [Tcp.setConn_other _ _ here] at used
    exact absurd (every j used).only here

/-- `tcp_poll` sends one more first segment at most, and not more than four in all. -/
theorem client_pollSlot (env : TcpEnv) (every : tcp.Every (Asking first count)) (few : count ≤ 4) :
    ∃ more, count ≤ more ∧ more ≤ 4 ∧ (tcpPollSlot env tcp 0).1.Every (Asking first more) ∧
      ∀ segment ∈ (tcpPollSlot env tcp 0).2.toList, Opening first more segment := by
  unfold tcpPollSlot
  dsimp only
  split
  · rename_i waits
    have asking := every 0 waits.1
    obtain ⟨-, number, counted⟩ : (tcp.conns 0).state = .synSent ∧ (tcp.conns 0).seq = first + UInt32.ofNat count ∧
        count ≤ (tcp.conns 0).retries + 1 := by
      rcases asking.phase with asked | ⟨opened, -⟩ | closing
      · exact asked
      · simp [waits.2.1] at opened
      · simp [waits.2.1] at closing
    split
    · refine ⟨count, le_rfl, few, Tcp.every_free asking_numeric fun j other used => ?_, by simp⟩
      rw [Tcp.setConn_other _ _ other] at used ⊢
      exact every j used
    · rename_i again
      have left : (tcp.conns 0).retries < 3 := Nat.lt_of_not_le again
      cases sends : env.sends 0 with
      | none =>
        refine ⟨count, le_rfl, few, every_of_first every ?_, by simp [tcpSendSegment]⟩
        exact ⟨rfl, asking.plain, .inl ⟨waits.2.1, number, Nat.le_succ_of_le counted⟩⟩
      | some ip =>
        -- The number of the segment is the count so far, and the connection goes on to the next one.
        refine ⟨count + 1, Nat.le_succ count, by omega, every_of_first every ?_, fun segment mem => ?_⟩
        · refine ⟨rfl, asking.plain, .inl ⟨waits.2.1, ?_, Nat.succ_le_succ counted⟩⟩
          simp [tcpSendSegment, tcpFlagSyn, Nat.testBit, number, UInt32.add_assoc]
        · obtain ⟨empty, -, numbered⟩ := tcpSendSegment_snd (mem_toList.mp mem)
          exact ⟨empty, fun _ _ => ⟨count, Nat.lt_succ_self count, numbered.trans number⟩⟩
  · exact ⟨count, le_rfl, few, every, by simp⟩

lemma client_poll (env : TcpEnv) (every : tcp.Every (Asking first count)) (few : count ≤ 4) :
    ∃ more, count ≤ more ∧ more ≤ 4 ∧ (tcpPoll env tcp).1.Every (Asking first more) ∧
      ∀ segment ∈ (tcpPoll env tcp).2, Opening first more segment := by
  obtain ⟨more, grown, small, polled, sent⟩ := client_pollSlot env every few
  have slots : range tcpMaxConnections = 0 :: (range 63).map Nat.succ := range_succ_eq_map
  have rest := Tcp.pollFold_quiet env (tcpPollSlot env tcp 0).1 ((range 63).map Nat.succ)
    (tcpPollSlot env tcp 0).2.toList fun i mem used => by
      obtain ⟨k, -, rfl⟩ := mem_map.mp mem
      exact absurd (polled _ used).only (Nat.succ_ne_zero k)
  have all : tcpPoll env tcp = ((tcpPollSlot env tcp 0).1, (tcpPollSlot env tcp 0).2.toList) := by
    rw [tcpPoll, slots, foldl_cons]
    exact rest
  rw [all]
  exact ⟨more, grown, small, polled, sent⟩

end Client

section Server

lemma answering_numeric : Tcp.Numeric (Answering first count) := by
  intro i before after answering state _ remoteSeq _ _
  rw [Answering, state, remoteSeq]
  exact answering

lemma server_inputSyn (env : TcpEnv) (every : tcp.Every (Answering first count))
    (number : ∃ k < count, segment.seq = first + UInt32.ofNat k) :
    (tcpInputSyn env tcp segment).1.Every (Answering first count) ∧
      ∀ answer ∈ (tcpInputSyn env tcp segment).2, Opening first count answer := by
  unfold tcpInputSyn
  split
  · exact ⟨every, by simp⟩
  split
  · exact ⟨every, by simp⟩
  split
  · exact ⟨every, by simp⟩
  rename_i l _ _ _ i _
  obtain ⟨here, others⟩ :=
    Tcp.insert_conns tcp i (show (passiveConnection env.now l segment).hashLinked = false from rfl)
  refine ⟨fun j used => ?_, opening_of_sent (by decide)⟩
  by_cases own : j = i
  · subst own
    rw [Tcp.setConn_here, here, tcpSendSegment_fst]
    obtain ⟨k, below, equal⟩ := number
    exact .inr (.inr ⟨.inl rfl, k, below, by rw [← equal]; rfl⟩)
  · rw [Tcp.setConn_other _ _ own, others j own] at used ⊢
    exact every j used

lemma server_input (env : TcpEnv) (every : tcp.Every (Answering first count))
    (opening : Opening first count segment) : (tcpInput env tcp segment).1.Every (Answering first count) ∧
      ∀ answer ∈ (tcpInput env tcp segment).2, Opening first count answer := by
  unfold tcpInput
  split
  · split
    · rename_i asks
      exact server_inputSyn env every (opening.numbered asks.1 (by simpa using asks.2))
    · exact ⟨every, by simp⟩
  · rename_i i found
    split
    · have kept := (input_heard env (tcp.conns i) opening.empty).answering
        (every i (Tcp.search_used found))
      have stored := every.setConn i fun _ => kept
      refine ⟨?_, input_sent env _ segment⟩
      dsimp only
      split
      · unfold Tcp.enqueue
        dsimp only
        split
        · exact stored.setConn_same answering_numeric rfl rfl rfl rfl rfl rfl
        · exact stored
      · exact stored
    · exact ⟨every, by simp⟩

lemma server_poll (env : TcpEnv) (every : tcp.Every (Answering first count)) : tcpPoll env tcp = (tcp, []) := by
  refine Tcp.pollFold_quiet env tcp _ [] fun i _ used asked => ?_
  rcases every i used with closed | closing | ⟨received | opened, -⟩
  · simp [asked] at closed
  · simp [asked] at closing
  · simp [asked] at received
  · simp [asked] at opened

end Server

namespace Handshake

variable {state : Handshake}

/-- A connection opened in an empty table, with its first segment sent, or given back. -/
theorem opened_asking (env : TcpEnv) (tuple : TcpTuple) {base : Tcp} (idle : ∀ j, (base.conns j).used = false) :
    let tcp := tcpHashInsert (base.setConn 0 (activeConnection env.now tuple)) 0
    let sent := tcpSendSegment env.now (env.sends 0) (tcp.conns 0) [] tcpFlagSyn
    (sent.2.isSome → (tcp.setConn 0 sent.1).Every (Asking (initialSeq env.now) 1) ∧
      ∀ segment ∈ sent.2.toList, Opening (initialSeq env.now) 1 segment) ∧
      (tcp.free 0).Every (Asking (initialSeq env.now) 1) := by
  obtain ⟨here, others⟩ := Tcp.insert_conns base 0 (show (activeConnection env.now tuple).hashLinked = false from rfl)
  dsimp only
  rw [here]
  refine ⟨fun sent => ⟨fun j used => ?_, fun segment mem => ?_⟩,
    Tcp.every_free asking_numeric fun j other used => ?_⟩
  · by_cases own : j = 0
    · subst own
      cases sends : env.sends 0 with
      | none => simp [sends, tcpSendSegment] at sent
      | some ip =>
        refine ⟨rfl, rfl, .inl ⟨rfl, ?_, by simp⟩⟩
        simp [tcpSendSegment, tcpFlagSyn, Nat.testBit, activeConnection]
    · rw [Tcp.setConn_other _ _ own, others j own] at used
      simp [idle j] at used
  · obtain ⟨silent, -, numbered⟩ := tcpSendSegment_snd (mem_toList.mp mem)
    exact ⟨silent, fun _ _ => ⟨0, Nat.one_pos, numbered.trans (by simp [activeConnection])⟩⟩
  · rw [others j other] at used
    simp [idle j] at used

lemma start_counted (env : TcpEnv) (device : Option Nat) (destIp destPort : Nat) :
    (start env device destIp destPort).Counted (initialSeq env.now) 1 := by
  have empty : ∀ holds, tcpInit.Every holds := fun holds i used => by simp [tcpInit] at used
  have server : tcpInit.Every (Answering (initialSeq env.now) 1) := empty _
  have unused : tcpInit.unused = some 0 := rfl
  unfold start tcpConnectStart
  split
  · exact ⟨by omega, empty _, server, by simp⟩
  rw [unused]
  cases device with
  | none =>
    refine ⟨by omega, ?_, server, by simp⟩
    exact (empty _).setConn 0 fun used => by simp at used
  | some address =>
    have opened := opened_asking env ⟨address, tcpInit.ephemeralPort, destIp, destPort⟩
      (show ∀ j, (({ tcpInit with ephemeralPort := tcpInit.ephemeralPort + 1 } : Tcp).conns j).used =
        false from fun _ => rfl)
    dsimp only at opened ⊢
    rw [if_neg (show ¬(tcpInit.ephemeralPort + 1) % 65536 = 0 by decide)]
    split
    · rename_i sent
      exact ⟨by omega, (opened.1 sent).1, server, (opened.1 sent).2⟩
    · exact ⟨by omega, opened.2, server, by simp⟩

lemma Counted.step (counted : state.Counted first count) (action : HandshakeAction) :
    ∃ more, (state.step action).Counted first more := by
  cases action with
  | client event =>
    by_cases polls : ∃ env, event = .poll env
    · obtain ⟨env, rfl⟩ := polls
      obtain ⟨more, grown, small, client, sent⟩ := client_poll env counted.client counted.few
      refine ⟨more, small, ?_, fun i used => (counted.server i used).mono grown, fun segment mem => ?_⟩
      · simpa only [Handshake.step, hostStep] using client
      simp only [Handshake.step, mem_append] at mem
      rcases mem with old | new
      · exact (counted.wire segment old).mono grown
      · exact sent segment new
    · obtain ⟨client, sent⟩ := hostStep_every asking_numeric counted.client
        (fun env segment mem => client_input env counted.client (counted.wire segment mem))
        fun env same => polls ⟨env, same⟩
      refine ⟨count, counted.few, client, counted.server, fun segment mem => ?_⟩
      rcases mem_append.mp mem with old | new
      · exact counted.wire segment old
      · exact sent segment new
  | finish i =>
    refine ⟨count, counted.few, ?_, counted.server, counted.wire⟩
    simp only [Handshake.step, tcpConnectFinish]
    split
    · exact counted.client
    · exact Tcp.every_free asking_numeric fun j _ used => counted.client j used
  | server event =>
    by_cases polls : ∃ env, event = .poll env
    · obtain ⟨env, rfl⟩ := polls
      have still : state.step (.server (.poll env)) = state := by
        simp only [Handshake.step, hostStep, server_poll env counted.server, append_nil]
      rw [still]
      exact ⟨count, counted⟩
    · obtain ⟨server, sent⟩ := hostStep_every answering_numeric counted.server
        (fun env segment mem => server_input env counted.server (counted.wire segment mem))
        fun env same => polls ⟨env, same⟩
      refine ⟨count, counted.few, counted.client, server, fun segment mem => ?_⟩
      rcases mem_append.mp mem with old | new
      · exact counted.wire segment old
      · exact sent segment new
  | listen localIp localPort backlog =>
    refine ⟨count, counted.few, counted.client, ?_, counted.wire⟩
    simp only [Handshake.step, tcpListen]
    split
    · exact counted.server
    split
    · exact counted.server
    · exact counted.server.setConn _ fun _ => .inl rfl

lemma run_counted (actions : List HandshakeAction) (counted : state.Counted first count) :
    ∃ more, (actions.foldl Handshake.step state).Counted first more := by
  induction actions generalizing state count with
  | nil => exact ⟨count, counted⟩
  | cons action rest ih =>
    obtain ⟨more, next⟩ := counted.step action
    exact ih next

lemma Counted.disagree (counted : state.Counted first count) {j : Nat} (joined : state.Joined i j) :
    (state.client.conns i).seq ≠ (state.server.conns j).remoteSeq := by
  have asked : (state.client.conns i).seq = first + UInt32.ofNat count + 1 := by
    rcases (counted.client i joined.client.2.1).phase with ⟨asking, -⟩ | ⟨-, number⟩ | closing
    · simp [joined.clientOpen] at asking
    · exact number
    · simp [joined.clientOpen] at closing
  obtain ⟨k, below, answered⟩ : ∃ k < count, (state.server.conns j).remoteSeq = first + UInt32.ofNat k + 1 := by
    rcases counted.server j joined.server.2.1 with closed | closing | ⟨-, number⟩
    · simp [joined.serverOpen] at closed
    · simp [joined.serverOpen] at closing
    · exact number
  rw [asked, answered]
  intro same
  have equal := congrArg UInt32.toNat ((UInt32.add_right_inj first).mp ((UInt32.add_left_inj 1).mp same))
  simp only [UInt32.toNat_ofNat'] at equal
  have few := counted.few
  omega

/--
Two ends that are both open never agree on the client's numbers, whatever was lost, delayed or repeated.

The client counts its first segment when it sends it, again at each repetition, and once more when the answer arrives,
while the server expects the number after one of the first segments.
-/
theorem handshake_disagrees (env : TcpEnv) (device : Option Nat) (destIp destPort : Nat)
    (actions : List HandshakeAction)
    (i j : Nat) (joined : (actions.foldl step (start env device destIp destPort)).Joined i j) :
    ¬(actions.foldl step (start env device destIp destPort)).Agree i j := by
  obtain ⟨count, counted⟩ := run_counted actions (start_counted env device destIp destPort)
  exact fun agree => counted.disagree joined agree.1

/-- Client 1 and server 2, with every segment sent and delivered once, in order. -/
def plainOpening : Handshake :=
  [HandshakeAction.listen 0 80 1, .server (.deliver ⟨0, fun _ => some 2⟩ 0), .client (.deliver ⟨0, fun _ => some 1⟩ 1),
    .server (.deliver ⟨0, fun _ => some 2⟩ 2)].foldl step (start ⟨0, fun _ => some 1⟩ (some 1) 2 80)

lemma plainOpening_joined : plainOpening.Joined 0 1 := by
  refine ⟨⟨?_, ?_, ?_⟩, ⟨?_, ?_, ?_⟩, ?_, ?_, ?_, ?_, ?_, ?_⟩ <;> decide

/-- The theorem at the shortest run. -/
theorem handshake_disagrees_plain : plainOpening.Joined 0 1 ∧ ¬plainOpening.Agree 0 1 :=
  ⟨plainOpening_joined, handshake_disagrees _ _ _ _ _ 0 1 plainOpening_joined⟩

/-- Without a loss, a delay or a repetition the client is at 0x1002, and the server expects 0x1001. -/
theorem opened_ends_disagree :
    ¬∀ i j, plainOpening.Joined i j → plainOpening.Agree i j := by
  intro agree
  have numbers := (agree 0 1 plainOpening_joined).1
  revert numbers
  decide

end Handshake

end Galio

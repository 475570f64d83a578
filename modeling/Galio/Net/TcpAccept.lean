import Galio.Lib.Ring
import Galio.Net.AcceptLedger
import Galio.Net.TcpTuples

/-! Connections that are opened through listeners, and what `tcp_accept` returns of them over whole runs. -/

namespace Galio

open Function List TcpConnection

open Transition

variable {segment : TcpSegment} {state : Acceptor} {conn : TcpConnection}

namespace TcpConnection

/-- What accepting depends on in a connection. -/
def seat (conn : TcpConnection) : Seat :=
  ⟨conn.used, conn.listener, conn.state, conn.tuple.srcPort, conn.parentListener, conn.waiting⟩

lemma waiting_push (room : conn.pendingCount < tcpListenBacklog) (i : Nat) : ({ conn with
      pending := update conn.pending ((conn.pendingHead + conn.pendingCount) % tcpListenBacklog) i
      pendingCount := conn.pendingCount + 1 } : TcpConnection).waiting = conn.waiting ++ [i] :=
  Ring.window_push room i

lemma waiting_pop (some : conn.pendingCount ≠ 0) (inside : conn.pendingHead < tcpListenBacklog) :
    conn.waiting = conn.pending conn.pendingHead :: ({ conn with
      pendingHead := (conn.pendingHead + 1) % tcpListenBacklog
      pendingCount := conn.pendingCount - 1 } : TcpConnection).waiting := by
  obtain ⟨count, positive⟩ := Nat.exists_eq_succ_of_ne_zero some
  have first : conn.pending conn.pendingHead = conn.pending (conn.pendingHead % tcpListenBacklog) := by
    rw [Nat.mod_eq_of_lt inside]
  simp only [waiting, positive, first]
  exact Ring.window_pop

/-- What accepting depends on in a connection, apart from its state. -/
structure SameLobby (before after : TcpConnection) : Prop where
  used : after.used = before.used
  listener : after.listener = before.listener
  tuple : after.tuple = before.tuple
  parent : after.parentListener = before.parentListener
  count : after.pendingCount = before.pendingCount
  head : after.pendingHead = before.pendingHead
  pending : after.pending = before.pending

lemma SameLobby.seat {after : TcpConnection} (same : conn.SameLobby after) :
    after.seat = { conn.seat with state := after.state } := by
  simp only [TcpConnection.seat, waiting, same.used, same.listener, same.tuple, same.parent, same.count, same.head,
    same.pending]

lemma sent_lobby (now : UInt32) (address : Option Nat) (conn : TcpConnection) (payload : List UInt8)
    (flags : Nat) : conn.SameLobby (tcpSendSegment now address conn payload flags).1 ∧
      (tcpSendSegment now address conn payload flags).1.state = conn.state := by
  rw [tcpSendSegment_fst]
  exact ⟨⟨rfl, rfl, rfl, rfl, rfl, rfl, rfl⟩, rfl⟩

lemma input_lobby (env : TcpEnv) (segment : TcpSegment) (calm : conn.state ≠ .synSent) :
    conn.SameLobby (conn.input env segment).1 ∧
      if conn.state = .synReceived ∧ segment.acks ∧ segment.ack = conn.seq then
        (conn.input env segment).1.state = .established ∧ (conn.input env segment).2.2
      else ((conn.input env segment).1.state = conn.state ∨
          conn.state = .established ∧ (conn.input env segment).1.state = .finWait) ∧
        (conn.input env segment).2.2 = false := by
  unfold input
  dsimp only
  rw [if_neg (fun asks => calm asks.1)]
  by_cases confirms : conn.state = .synReceived ∧ segment.acks ∧ segment.ack = conn.seq
  · rw [if_pos confirms, if_pos confirms]
    exact ⟨⟨rfl, rfl, rfl, rfl, rfl, rfl, rfl⟩, rfl, rfl⟩
  · rw [if_neg confirms]
    split
    · rename_i opened
      obtain ⟨_, _, _, _, data⟩ := inputData_frame env { conn with lastActivity := env.now } segment
      rw [data]
      obtain ⟨_, _, _, _, ends, fin⟩ := inputFin_frame env _ segment
      rw [fin]
      exact ⟨⟨rfl, rfl, rfl, rfl, rfl, rfl, rfl⟩, ends.imp (fun same => same) fun ends => ⟨opened, ends⟩, rfl⟩
    · exact ⟨⟨rfl, rfl, rfl, rfl, rfl, rfl, rfl⟩, .inl rfl, rfl⟩

end TcpConnection

variable {tcp : Tcp} {i l : Nat}

namespace Tcp

/-- The seats of the table. -/
def seats (tcp : Tcp) (i : Nat) : Seat := (tcp.conns i).seat

/-- The rings of the queues start inside. -/
def Rings (tcp : Tcp) : Prop := ∀ i, (tcp.conns i).pendingHead < tcpListenBacklog

lemma seats_setConn (tcp : Tcp) (i : Nat) (conn : TcpConnection) :
    (tcp.setConn i conn).seats = update tcp.seats i conn.seat := by
  funext j
  by_cases here : j = i
  · subst here
    simp [seats]
  · simp [seats, here]

lemma seats_insert (tcp : Tcp) (i : Nat) (unlinked : conn.hashLinked = false) :
    (tcpHashInsert (tcp.setConn i conn) i).seats = update tcp.seats i conn.seat := by
  obtain ⟨here, others⟩ := insert_conns tcp i unlinked
  funext j
  by_cases same : j = i
  · subst same
    rw [seats, here, update_self]
    rfl
  · rw [seats, others j same, update_of_ne same]
    rfl

lemma seats_free (tcp : Tcp) (i : Nat) :
    (tcp.free i).seats = update tcp.seats i { tcp.seats i with used := false } := by
  funext j
  have core := congrArg seat (tcp.free_core i j)
  by_cases here : j = i
  · subst here
    rw [if_pos rfl] at core
    rw [update_self]
    exact core
  · rw [if_neg here] at core
    rw [update_of_ne here]
    exact core

variable (rings : tcp.Rings)
include rings

lemma Rings.setConn (inside : conn.pendingHead < tcpListenBacklog) : (tcp.setConn i conn).Rings := by
  intro j
  by_cases here : j = i
  · subst here
    rwa [setConn_here]
  · rw [setConn_other _ _ here]
    exact rings j

lemma Rings.insert (unlinked : conn.hashLinked = false)
    (inside : conn.pendingHead < tcpListenBacklog) : (tcpHashInsert (tcp.setConn i conn) i).Rings := by
  obtain ⟨here, others⟩ := insert_conns tcp i unlinked
  intro j
  by_cases same : j = i
  · subst same
    rw [here]
    exact inside
  · rw [others j same]
    exact rings j

lemma Rings.free (i : Nat) : (tcp.free i).Rings := by
  intro j
  have core := congrArg pendingHead (tcp.free_core i j)
  by_cases here : j = i
  · subst here
    rw [if_pos rfl] at core
    exact core ▸ rings j
  · rw [if_neg here] at core
    exact core ▸ rings j

lemma listen_seats (localIp localPort backlog : Nat) :
    (tcpListen tcp localIp localPort backlog).1.Rings ∧ match (tcpListen tcp localIp localPort backlog).2 with
      | none => (tcpListen tcp localIp localPort backlog).1.seats = tcp.seats
      | some i => (tcp.seats i).used = false ∧ (tcpListen tcp localIp localPort backlog).1.seats =
          update tcp.seats i ⟨true, true, .closed, localPort, 0, []⟩ := by
  unfold tcpListen
  split
  · exact ⟨rings, rfl⟩
  cases found : tcp.unused with
  | none => exact ⟨rings, rfl⟩
  | some i =>
    have start : 0 < tcpListenBacklog := by decide
    exact ⟨rings.setConn start, (unused_some found).2, seats_setConn ..⟩

lemma acceptTake_seats (pending : (tcp.conns i).pendingCount ≠ 0) :
    (tcpAcceptTake tcp i).1.Rings ∧ ∃ rest, (tcp.seats i).queue = (tcpAcceptTake tcp i).2 :: rest ∧
      (tcpAcceptTake tcp i).1.seats = update tcp.seats i { tcp.seats i with queue := rest } :=
  ⟨rings.setConn (Nat.mod_lt _ (by decide)), _, waiting_pop pending (rings i), seats_setConn ..⟩

lemma close_seats (env : TcpEnv) (used : (tcp.conns i).used) : (tcpClose env tcp i).1.Rings ∧
      (tcpClose env tcp i).1.seats = update tcp.seats i { tcp.seats i with used := false } := by
  unfold tcpClose
  rw [if_neg (not_not.mpr used)]
  split
  · obtain ⟨same, state⟩ := sent_lobby env.now (env.sends 0) (tcp.conns i) [] tcpFlagFinAck
    refine ⟨(rings.setConn (same.head ▸ rings i)).free i, ?_⟩
    rw [seats_free, seats_setConn, update_self, update_idem, same.seat, state]
    rfl
  · exact ⟨rings.free i, seats_free tcp i⟩

lemma enqueue_seats (used : (tcp.conns l).used)
    (listener : (tcp.conns l).listener) (room : (tcp.conns l).pendingCount < tcpListenBacklog) (i : Nat) :
    (tcp.enqueue l i).Rings ∧ (tcp.enqueue l i).seats =
      update tcp.seats l { tcp.seats l with queue := (tcp.seats l).queue ++ [i] } := by
  unfold enqueue
  rw [if_pos ⟨used, listener, room⟩]
  refine ⟨rings.setConn (rings l), ?_⟩
  rw [seats_setConn]
  congr 1
  simp only [seat, seats]
  rw [waiting_push room]

end Tcp

lemma Tcp.Sound.step (sound : tcp.Sound) (action : TcpAction) : (tcpStep tcp action).Sound := by
  rcases sound.step_cases action with ⟨_, gains, -⟩ | ⟨-, ⟨_, gains, -⟩ | shrinks⟩
  · exact gains.sound
  · exact gains.sound
  · exact shrinks.sound

/-- Whatever is called and arrives, the chains end and have just the active connections, each once and in its bucket. -/
theorem tcp_sound_run (actions : List TcpAction) : (actions.foldl tcpStep tcpInit).Sound := by
  -- A step enters one connection, or takes some out.
  exact foldlRecOn actions tcpStep tcpInit_sound fun _ sound action _ => sound.step action

/-- The listener and the slot of the child that a first segment opens. -/
def tcpOpens (tcp : Tcp) (segment : TcpSegment) : Option (Nat × Nat) :=
  if tcpLookup tcp segment.tuple = none ∧ segment.syn ∧ ¬segment.acks then
    match tcpFindListener tcp segment.destIp segment.destPort with
    | none => none
    | some l => if (tcp.conns l).pendingCount ≥ tcpListenBacklog then none else tcp.unused.map fun i => (l, i)
  else none

/-- The child that a segment establishes. -/
def tcpConfirms (tcp : Tcp) (segment : TcpSegment) : Option Nat :=
  match tcpLookup tcp segment.tuple with
  | none => none
  | some i =>
    if segment.intact ∧ (tcp.conns i).state = .synReceived ∧ segment.acks ∧ segment.ack = (tcp.conns i).seq then some i
    else none

namespace Tcp

lemma opens_seats (rings : tcp.Rings) (env : TcpEnv) (opens : tcpOpens tcp segment = some (l, i)) :
    (tcp.conns l).used ∧ (tcp.conns l).listener ∧ i < tcpMaxConnections ∧ (tcp.conns i).used = false ∧
      (tcpInput env tcp segment).1.Rings ∧ (tcpInput env tcp segment).1.seats =
        update tcp.seats i ⟨true, false, .synReceived, (tcp.seats l).port, l, []⟩ := by
  unfold tcpOpens at opens
  split at opens
  · rename_i first
    cases found : tcpFindListener tcp segment.destIp segment.destPort with
    | none => simp [found] at opens
    | some listener =>
      rw [found] at opens
      dsimp only at opens
      split at opens
      · simp at opens
      rename_i room
      cases free : tcp.unused with
      | none => simp [free] at opens
      | some slot =>
        simp only [free, Option.map_some, Option.some.injEq, Prod.mk.injEq] at opens
        obtain ⟨rfl, rfl⟩ := opens
        have holds := find?_some found
        simp only [decide_eq_true_eq] at holds
        refine ⟨holds.1, holds.2.1, (unused_some free).1, (unused_some free).2, ?_⟩
        have unlinked : (passiveConnection env.now listener segment).hashLinked = false := rfl
        obtain ⟨same, -⟩ := sent_lobby env.now (env.sends 0)
          ((tcpHashInsert (tcp.setConn slot (passiveConnection env.now listener segment)) slot).conns slot) []
          tcpFlagSynAck
        have here := (insert_conns tcp slot unlinked).1
        rw [tcpInput, first.1]
        rw [if_pos first.2, tcpInputSyn, found]
        dsimp only
        rw [if_neg room, free]
        dsimp only
        have start : 0 < tcpListenBacklog := by decide
        rw [here] at same ⊢
        refine ⟨(rings.insert unlinked start).setConn (Nat.lt_of_le_of_lt (Nat.le_of_eq same.head) start), ?_⟩
        rw [seats_setConn, seats_insert tcp slot unlinked, update_idem]
        congr 1
        have seat := congrArg (fun seat : Seat => { seat with state := .synReceived }) same.seat
        have port : (tcp.seats listener).port = segment.destPort := holds.2.2.1
        rw [port]
        exact seat
  · simp at opens

lemma inputSyn_closed (env : TcpEnv) (closed : (match tcpFindListener tcp segment.destIp segment.destPort with
      | none => none
      | some l => if (tcp.conns l).pendingCount ≥ tcpListenBacklog then none else tcp.unused.map fun i =>
        (l, i)) = none) : tcpInputSyn env tcp segment = (tcp, []) := by
  unfold tcpInputSyn
  split
  · rfl
  rename_i l found
  rw [found] at closed
  dsimp only at closed
  split
  · rfl
  · rename_i room
    rw [if_neg room, Option.map_eq_none_iff] at closed
    rw [closed]

/-- A segment that opens no child changes one connection's state at most, and may queue a child. -/
theorem input_seats (sound : tcp.Sound) (rings : tcp.Rings)
    (calm : ∀ i, (tcp.conns i).used → (tcp.conns i).state ≠ .synSent) (env : TcpEnv)
    (closed : tcpOpens tcp segment = none)
    (room : ∀ i, tcpConfirms tcp segment = some i → (tcp.conns (tcp.conns i).parentListener).used ∧
      (tcp.conns (tcp.conns i).parentListener).listener ∧
      (tcp.conns (tcp.conns i).parentListener).pendingCount < tcpListenBacklog) :
    (tcpInput env tcp segment).1.Rings ∧ match tcpConfirms tcp segment with
      | some i => tcp.Active i ∧ (tcp.conns i).state = .synReceived ∧ (tcpInput env tcp segment).1.seats =
          update (update tcp.seats i { tcp.seats i with state := .established }) (tcp.conns i).parentListener
            { tcp.seats (tcp.conns i).parentListener with queue :=
              (tcp.seats (tcp.conns i).parentListener).queue ++ [i] }
      | none => (tcpInput env tcp segment).1.seats = tcp.seats ∨ ∃ i, (tcp.conns i).used ∧
          (tcp.conns i).state = .established ∧
          (tcpInput env tcp segment).1.seats = update tcp.seats i { tcp.seats i with state := .finWait } := by
  unfold tcpInput
  cases found : tcpLookup tcp segment.tuple with
  | none =>
    have unconfirmed : tcpConfirms tcp segment = none := by rw [tcpConfirms, found]
    rw [unconfirmed]
    dsimp only
    split
    · rename_i first
      rw [inputSyn_closed env (by simpa [tcpOpens, found, first] using closed)]
      exact ⟨rings, .inl rfl⟩
    · exact ⟨rings, .inl rfl⟩
  | some i =>
    obtain ⟨active, -⟩ := sound.lookup_some found
    dsimp only
    by_cases intact : segment.intact
    · obtain ⟨same, states⟩ := input_lobby env segment (calm i active.2.1)
      rw [if_pos intact]
      have stored : (tcp.setConn i ((tcp.conns i).input env segment).1).Rings := rings.setConn (same.head ▸ rings i)
      by_cases confirms : (tcp.conns i).state = .synReceived ∧ segment.acks ∧ segment.ack = (tcp.conns i).seq
      · have confirmed : tcpConfirms tcp segment = some i := by
          rw [tcpConfirms, found]
          exact if_pos ⟨intact, confirms⟩
        rw [if_pos confirms] at states
        obtain ⟨used, listener, space⟩ := room i confirmed
        rw [confirmed]
        rw [states.2, if_pos rfl, same.parent]
        have apart : (tcp.conns i).parentListener ≠ i := by
          intro own
          rw [own, active.2.2] at listener
          simp at listener
        have still := setConn_other tcp ((tcp.conns i).input env segment).1 apart
        obtain ⟨queued, seats⟩ := enqueue_seats stored (by rw [still]; exact used) (by rw [still]; exact listener)
          (by rw [still]; exact space) i
        refine ⟨queued, active, confirms.1, ?_⟩
        rw [seats, seats_setConn, same.seat, states.1, update_of_ne apart]
        rfl
      · have unconfirmed : tcpConfirms tcp segment = none := by
          rw [tcpConfirms, found]
          exact if_neg fun both => confirms both.2
        rw [if_neg confirms] at states
        rw [unconfirmed]
        rw [states.2, if_neg (by simp)]
        refine ⟨stored, ?_⟩
        rw [seats_setConn, same.seat]
        rcases states.1 with still | ⟨opened, ends⟩
        · rw [still]
          exact .inl (update_eq_self i _)
        · rw [ends]
          exact .inr ⟨i, active.2.1, opened, rfl⟩
    · have unconfirmed : tcpConfirms tcp segment = none := by
        rw [tcpConfirms, found]
        exact if_neg fun both => intact both.1
      rw [if_neg intact, unconfirmed]
      exact ⟨rings, .inl rfl⟩

end Tcp

/-- The table, and a record of what happened to its slots. -/
structure Acceptor where
  tcp : Tcp
  held : Nat → Bool
  name : Nat → Nat
  through : Nat → Nat
  fresh : Nat
  established : Nat → List Nat
  returned : Nat → List Nat
  calls : List (Nat × Nat)

/-- The calls of `tcp.c` by sockets, and what arrives. -/
inductive AcceptAction where
  | listen (localIp localPort backlog : Nat)
  | input (env : TcpEnv) (segment : TcpSegment)
  /-- `tcp_accept` up to its wait. -/
  | call (l : Nat)
  /-- A call of `tcp_accept` that goes on with a connection pending. -/
  | take (call : Nat × Nat)
  /-- A call of `tcp_accept` that ends without one. -/
  | giveUp (call : Nat × Nat)
  | close (env : TcpEnv) (i : Nat)
  | poll (env : TcpEnv)

namespace Acceptor

/-- After `tcp_init`. -/
def start : Acceptor := ⟨tcpInit, fun _ => false, fun _ => 0, fun _ => 0, 0, fun _ => [], fun _ => [], []⟩

/-- What the record says of the table. -/
def ledger (state : Acceptor) : AcceptLedger :=
  ⟨state.tcp.seats, state.held, state.name, state.through, state.fresh, state.established, state.returned, state.calls⟩

/-- The record of a segment: the child it opens gets a name, the one it establishes is noted. -/
def note (state : Acceptor) (segment : TcpSegment) : Acceptor :=
  match tcpOpens state.tcp segment with
  | some (l, i) =>
    { state with
      held := update state.held i false
      name := update state.name i state.fresh
      through := update state.through i (state.name l)
      fresh := state.fresh + 1 }
  | none =>
    match tcpConfirms state.tcp segment with
    | some i =>
      { state with
        established := update state.established (state.through i)
          (state.established (state.through i) ++ [state.name i]) }
    | none => state

/-- One step of the table and of the record. -/
def step (state : Acceptor) : AcceptAction → Acceptor
  | .listen localIp localPort backlog =>
    let listened := tcpListen state.tcp localIp localPort backlog
    match listened.2 with
    | none => { state with tcp := listened.1 }
    | some i =>
      { state with
        tcp := listened.1
        held := update state.held i true
        name := update state.name i state.fresh
        fresh := state.fresh + 1 }
  | .input env segment => { state.note segment with tcp := (tcpInput env state.tcp segment).1 }
  | .call l =>
    if l < tcpMaxConnections ∧ (state.tcp.conns l).used ∧ (state.tcp.conns l).listener then
      { state with calls := (l, state.name l) :: state.calls }
    else state
  | .take call =>
    if call ∈ state.calls ∧ (state.tcp.conns call.1).pendingCount ≠ 0 then
      let taken := tcpAcceptTake state.tcp call.1
      { state with
        tcp := taken.1
        held := update state.held taken.2 true
        returned := update state.returned call.2 (state.returned call.2 ++ [state.name taken.2])
        calls := state.calls.erase call }
    else state
  | .giveUp call => { state with calls := state.calls.erase call }
  | .close env i =>
    if i < tcpMaxConnections ∧ (state.tcp.conns i).used then
      { state with tcp := (tcpClose env state.tcp i).1, held := update state.held i false }
    else state
  | .poll env => { state with tcp := (tcpPoll env state.tcp).1 }

/-- An open listener of that name. -/
def Listens (state : Acceptor) (l name : Nat) : Prop :=
  l < tcpMaxConnections ∧ (state.tcp.conns l).used = true ∧ (state.tcp.conns l).listener = true ∧ state.name l = name

/--
What `tcp_accept` owes: each child established through a listener was returned or waits, in order and once, or is
closed with the listener; and every slot in use can be reached.
-/
structure Fair (state : Acceptor) : Prop where
  once : ∀ listener, (state.established listener).Nodup
  ordered : ∀ listener, ∃ rest, state.established listener = state.returned listener ++ rest ∧
    (∀ l, state.Listens l listener → rest = (state.tcp.conns l).waiting.map state.name) ∧
    ((∀ l, ¬state.Listens l listener) → ∀ child ∈ rest, ∀ i, state.tcp.Active i → state.name i ≠ child)
  /-- The queue of a listener has children that were opened for its port. -/
  bound : ∀ l listener, state.Listens l listener → ∀ i ∈ (state.tcp.conns l).waiting,
    state.tcp.Active i ∧ (state.tcp.conns i).tuple.srcPort = (state.tcp.conns l).tuple.srcPort ∧
      state.through i = listener
  /-- A slot in use belongs to a socket or to an open listener, which has it queued or waits for its last segment. -/
  reachable : ∀ i, i < tcpMaxConnections → (state.tcp.conns i).used = true → state.held i = true ∨
    ∃ l, state.Listens l (state.through i) ∧
      (i ∈ (state.tcp.conns l).waiting ∨ (state.tcp.conns i).state = .synReceived)

/--
The steps that keep it: a handshake ends with room in the queue, and sockets close what they have or what is not in use,
a listener only without children and waiting calls.
-/
def Allowed (state : Acceptor) : AcceptAction → Prop
  | .input _ segment => ∀ i, tcpConfirms state.tcp segment = some i →
      (state.tcp.conns (state.tcp.conns i).parentListener).pendingCount < tcpListenBacklog
  | .close _ i => i < tcpMaxConnections ∧ (state.tcp.conns i).used = true → state.held i = true ∧
      ((state.tcp.conns i).listener = true →
        (state.tcp.conns i).pendingCount = 0 ∧ (∀ call ∈ state.calls, call.1 ≠ i) ∧
        ∀ j, state.tcp.Active j → (state.tcp.conns j).state = .synReceived → (state.tcp.conns j).parentListener ≠ i)
  | _ => True

/-- The slots in use are those of the table, and none awaits an answer to a first segment. -/
def Placed (seats : Nat → Seat) : Prop :=
  ∀ i, (seats i).used = true → i < tcpMaxConnections ∧ (seats i).state ≠ .synSent

lemma Placed.update {seats : Nat → Seat} (placed : Placed seats) {seat : Seat}
    (own : seat.used → i < tcpMaxConnections ∧ seat.state ≠ .synSent) : Placed (update seats i seat) := by
  intro j used
  by_cases here : j = i
  · subst here
    rw [update_self] at used ⊢
    exact own used
  · rw [update_of_ne here] at used ⊢
    exact placed j used

/-- The table is sound, and the record of its slots is kept. -/
structure Orderly (state : Acceptor) : Prop where
  sound : state.tcp.Sound
  rings : state.tcp.Rings
  placed : Placed state.tcp.seats
  kept : state.ledger.Kept

lemma start_orderly : start.Orderly := by
  have empty : ∀ i, ¬(start.ledger.seats i).used = true := fun _ => Bool.false_ne_true
  have inside : 0 < tcpListenBacklog := by decide
  refine ⟨tcpInit_sound, fun _ => inside, fun i used => absurd used (empty i), ?_⟩
  exact ⟨fun l opens => absurd opens.1 (empty l), fun i child => absurd child.1 (empty i),
    fun l opens => absurd opens.1 (empty l), fun l opens => absurd opens.1 (empty l),
    fun i used => absurd used (empty i), fun i _ used => absurd used (empty i), fun l opens => absurd opens.1 (empty l),
    fun _ _ => rfl, fun _ _ mem => absurd mem not_mem_nil, fun _ => nodup_nil,
    fun _ mem => absurd mem not_mem_nil⟩

section

variable (orderly : state.Orderly)
include orderly

lemma Orderly.fair : state.Fair := by
  have kept := orderly.kept
  have listens : ∀ l listener, state.Listens l listener ↔ state.ledger.Listens l ∧ state.name l = listener := by
    intro l listener
    exact ⟨fun ⟨_, used, opens, name⟩ => ⟨⟨used, opens⟩, name⟩,
      fun ⟨opens, name⟩ => ⟨(orderly.placed l opens.1).1, opens.1, opens.2, name⟩⟩
  refine ⟨kept.once, fun listener => ?_, fun l listener opens i mem => ?_, fun i _ used => ?_⟩
  · by_cases found : ∃ l, state.Listens l listener
    · obtain ⟨l, opens⟩ := found
      obtain ⟨here, rfl⟩ := (listens l listener).mp opens
      refine ⟨_, kept.recorded l here, fun other also => ?_, fun absent => absurd opens (absent l)⟩
      obtain ⟨there, same⟩ := (listens other _).mp also
      obtain rfl := kept.distinct other l there.1 here.1 same
      rfl
    · have absent : ∀ l, ¬state.Listens l listener := fun l opens => found ⟨l, opens⟩
      refine ⟨[], ?_, fun l opens => absurd opens (absent l), fun _ child mem => absurd mem not_mem_nil⟩
      rw [append_nil]
      exact kept.finished listener fun l opens name => absent l ((listens l listener).mpr ⟨opens, name⟩)
  · obtain ⟨here, rfl⟩ := (listens l listener).mp opens
    obtain ⟨child, unheld, parent, -⟩ := kept.queue l here i mem
    rcases kept.child i child with ⟨held, -⟩ | ⟨-, waits⟩
    · exact absurd (held.symm.trans unheld) (by simp)
    · have port := waits.port
      have through := waits.through
      rw [parent] at port through
      exact ⟨⟨(orderly.placed i child.1).1, child.1, child.2⟩, port, through⟩
  · by_cases listener : (state.tcp.conns i).listener
    · exact .inl (kept.listener i ⟨used, listener⟩)
    · have plain : (state.tcp.conns i).listener = false := by simpa using listener
      rcases kept.child i ⟨used, plain⟩ with ⟨held, -⟩ | ⟨-, waits⟩
      · exact .inl held
      · refine .inr ⟨_, (listens _ _).mpr ⟨waits.listens, waits.through.symm⟩, ?_⟩
        by_cases half : (state.tcp.conns i).state = .synReceived
        · exact .inr half
        · exact .inl (waits.queued.mpr half)

lemma Orderly.listen (localIp localPort backlog : Nat) :
    (state.step (.listen localIp localPort backlog)).Orderly := by
  have sound : (tcpListen state.tcp localIp localPort backlog).1.Sound :=
    orderly.sound.step (.listen localIp localPort backlog)
  obtain ⟨rings, seats⟩ := Tcp.listen_seats orderly.rings localIp localPort backlog
  have inTable : ∀ i, (tcpListen state.tcp localIp localPort backlog).2 = some i → i < tcpMaxConnections := by
    intro i found
    unfold tcpListen at found
    split at found
    · simp at found
    split at found
    · simp at found
    · rename_i slot free
      cases found
      exact (Tcp.unused_some free).1
  unfold step
  dsimp only
  cases result : (tcpListen state.tcp localIp localPort backlog).2 with
  | none =>
    rw [result] at seats
    refine ⟨sound, rings, ?_, ?_⟩
    · simpa only [seats] using orderly.placed
    · simpa only [ledger, seats] using orderly.kept
  | some i =>
    rw [result] at seats
    refine ⟨sound, rings, ?_, ?_⟩
    · simp only [seats.2]
      exact orderly.placed.update fun _ => ⟨inTable i result, by simp⟩
    · have noted := orderly.kept.listen seats.1 localPort
      simpa only [ledger, seats.2, AcceptLedger.listen] using noted

/-- A segment keeps the order, if the queue of the child that it establishes has room. -/
theorem Orderly.input (env : TcpEnv)
    (allowed : state.Allowed (.input env segment)) : (state.step (.input env segment)).Orderly := by
  have sound : (tcpInput env state.tcp segment).1.Sound := orderly.sound.step (.input env segment)
  cases opens : tcpOpens state.tcp segment with
  | some pair =>
    obtain ⟨l, i⟩ := pair
    obtain ⟨used, listener, small, free, rings, seats⟩ := Tcp.opens_seats orderly.rings env opens
    have shape : (state.step (.input env segment)).ledger = state.ledger.opened l i := by
      simp only [step, note, opens, ledger, AcceptLedger.opened, seats]
    refine ⟨sound, rings, ?_, shape ▸ orderly.kept.opened free ⟨used, listener⟩⟩
    change Placed (tcpInput env state.tcp segment).1.seats
    rw [seats]
    exact orderly.placed.update fun _ => ⟨small, by simp⟩
  | none =>
    have calm : ∀ i, (state.tcp.conns i).used → (state.tcp.conns i).state ≠ .synSent :=
      fun i used => (orderly.placed i used).2
    have confirmable : ∀ i, tcpConfirms state.tcp segment = some i → state.tcp.Active i ∧
        (state.tcp.conns i).state = .synReceived := by
      intro i confirms
      unfold tcpConfirms at confirms
      split at confirms
      · simp at confirms
      rename_i j found
      split at confirms
      · rename_i both
        cases confirms
        exact ⟨(orderly.sound.lookup_some found).1, both.2.1⟩
      · simp at confirms
    have room : ∀ i, tcpConfirms state.tcp segment = some i →
        (state.tcp.conns (state.tcp.conns i).parentListener).used ∧
        (state.tcp.conns (state.tcp.conns i).parentListener).listener ∧
        (state.tcp.conns (state.tcp.conns i).parentListener).pendingCount < tcpListenBacklog := by
      intro i confirms
      obtain ⟨active, half⟩ := confirmable i confirms
      obtain ⟨-, waits, -⟩ := orderly.kept.waits ⟨active.2.1, active.2.2⟩ half
      exact ⟨waits.listens.1, waits.listens.2, allowed i confirms⟩
    obtain ⟨rings, seats⟩ := Tcp.input_seats orderly.sound orderly.rings calm env opens room
    cases confirms : tcpConfirms state.tcp segment with
    | some i =>
      rw [confirms] at seats
      obtain ⟨active, half, seats⟩ := seats
      have apart : (state.tcp.conns i).parentListener ≠ i := by
        intro own
        have listener := (room i confirms).2.1
        rw [own, active.2.2] at listener
        simp at listener
      have shape : (state.step (.input env segment)).ledger = state.ledger.confirmed i := by
        simp only [step, note, opens, confirms, ledger, AcceptLedger.confirmed, seats]
        rw [show (state.tcp.seats i).parent = (state.tcp.conns i).parentListener from rfl, update_of_ne apart]
      refine ⟨sound, rings, ?_, shape ▸ orderly.kept.confirmed ⟨active.2.1, active.2.2⟩ half⟩
      change Placed (tcpInput env state.tcp segment).1.seats
      rw [seats]
      refine (orderly.placed.update fun _ => ⟨active.1, by simp⟩).update fun used => ?_
      exact orderly.placed _ used
    | none =>
      rw [confirms] at seats
      have same : (state.step (.input env segment)).ledger =
          { state.ledger with seats := (tcpInput env state.tcp segment).1.seats } := by
        simp only [step, note, opens, confirms, ledger]
      rcases seats with seats | ⟨i, used, opened, seats⟩
      · refine ⟨sound, rings, ?_, ?_⟩
        · change Placed (tcpInput env state.tcp segment).1.seats
          rw [seats]
          exact orderly.placed
        · rw [same, seats]
          exact orderly.kept
      · refine ⟨sound, rings, ?_, ?_⟩
        · change Placed (tcpInput env state.tcp segment).1.seats
          rw [seats]
          exact orderly.placed.update fun _ => ⟨(orderly.placed i used).1, by simp⟩
        · rw [same, seats]
          exact orderly.kept.ended opened

lemma Orderly.take (call : Nat × Nat) : (state.step (.take call)).Orderly := by
  simp only [step]
  split
  · rename_i waits
    obtain ⟨rings, rest, queue, seats⟩ := Tcp.acceptTake_seats orderly.rings waits.2
    obtain ⟨listens, -⟩ := orderly.kept.calls call waits.1
    have small := (orderly.placed call.1 listens.1).1
    have sound : (tcpAcceptTake state.tcp call.1).1.Sound := by
      have stepped := orderly.sound.step (.accept call.1)
      rwa [tcpStep, if_pos ⟨small, waits.2⟩] at stepped
    refine ⟨sound, rings, ?_, ?_⟩
    · simp only [seats]
      exact orderly.placed.update fun used => orderly.placed call.1 used
    · have noted := orderly.kept.taken waits.1 queue
      simpa only [ledger, AcceptLedger.taken, seats] using noted
  · exact orderly

lemma Orderly.close (env : TcpEnv)
    (allowed : state.Allowed (.close env i)) : (state.step (.close env i)).Orderly := by
  simp only [step]
  split
  · rename_i given
    obtain ⟨rings, seats⟩ := Tcp.close_seats orderly.rings env given.2
    have sound : (tcpClose env state.tcp i).1.Sound := by
      have stepped := orderly.sound.step (.close env i)
      rwa [tcpStep, if_pos given.1] at stepped
    refine ⟨sound, rings, ?_, ?_⟩
    · simp only [seats]
      exact orderly.placed.update fun used => absurd used (by simp)
    · have noted := orderly.kept.closed (allowed given).1 fun listens => by
        obtain ⟨empty, calls, alone⟩ := (allowed given).2 listens.2
        refine ⟨?_, calls, fun j child half => ?_⟩
        · exact length_eq_zero_iff.mp
            (show (state.tcp.conns i).waiting.length = 0 by simpa [waiting] using empty)
        · exact alone j ⟨(orderly.placed j child.1).1, child.1, child.2⟩ half
      simpa only [ledger, AcceptLedger.closed, seats] using noted
  · exact orderly

lemma Orderly.withCalls {calls : List (Nat × Nat)}
    (opens : ∀ call ∈ calls, state.ledger.Listens call.1 ∧ state.name call.1 = call.2) :
    ({ state with calls := calls } : Acceptor).Orderly :=
  ⟨orderly.sound, orderly.rings, orderly.placed, { orderly.kept with
    child := fun i child => (orderly.kept.child i child).imp_right fun both =>
      ⟨both.1, both.2.listens, both.2.through, both.2.port, both.2.queued⟩
    calls := opens }⟩

lemma Orderly.step {action : AcceptAction} (allowed : state.Allowed action) : (state.step action).Orderly := by
  cases action with
  | listen localIp localPort backlog => exact orderly.listen localIp localPort backlog
  | input env segment => exact orderly.input env allowed
  | call l =>
    simp only [Acceptor.step]
    split
    · rename_i opens
      refine orderly.withCalls fun call mem => ?_
      rcases mem_cons.mp mem with rfl | old
      · exact ⟨⟨opens.2.1, opens.2.2⟩, rfl⟩
      · exact orderly.kept.calls call old
    · exact orderly
  | take call => exact orderly.take call
  | giveUp call => exact orderly.withCalls fun other mem => orderly.kept.calls other (mem_of_mem_erase mem)
  | close env i => exact orderly.close env allowed
  | poll env =>
    have quiet : tcpPoll env state.tcp = (state.tcp, []) :=
      Tcp.pollFold_quiet env state.tcp _ [] fun i _ used => (orderly.placed i used).2
    have same : state.step (.poll env) = state := by simp only [Acceptor.step, quiet]
    rwa [same]

end

/--
Children are accepted once and in order, and no slot is lost, in every run whose steps are all allowed.

Whatever segments arrive, a queue with room takes the child that is established,
and no listener is closed under a child.
-/
theorem fair_run (actions : List AcceptAction)
    (allowed : Along (fun state action _ => state.Allowed action) start (record step start actions)) :
    Visits Fair start (record step start actions) := by
  have taken : Along (fun state action after => after = state.step action) start (record step start actions) :=
    along_record _ fun _ _ _ => rfl
  refine visits_mono (fun state orderly => orderly.fair) (visits_of_invariant Orderly ?_ start_orderly
    (along_and taken allowed))
  rintro state action after orderly ⟨rfl, may⟩
  exact orderly.step may

/-- A host at 10.0.0.1 where every segment can be sent. -/
def acceptingEnv : TcpEnv := ⟨0, fun _ => some 0x0A000001⟩

/-- A first segment from 10.0.0.2 for port 80. -/
def asking : TcpSegment := ⟨0x0A000002, 5000, 0x0A000001, 80, 7, 0, tcpFlagSyn, [], true⟩

/-- The segment that ends its handshake. -/
def answering : TcpSegment := ⟨0x0A000002, 5000, 0x0A000001, 80, 8, 0x1001, tcpFlagAck, [], true⟩

/-- The theorem at a connection that is opened and accepted. -/
theorem fair_run_accepted :
    Visits Fair start (record step start [.listen 0 80 1, .input acceptingEnv asking, .input acceptingEnv answering,
      .call 0, .take (0, 0)]) := by
  refine fair_run _ ⟨trivial, ?_, ?_, trivial, trivial, trivial⟩
  · intro i confirms
    exact absurd confirms (by decide +revert)
  · intro i confirms
    obtain rfl : 1 = i := Option.some.inj ((show tcpConfirms _ answering = some 1 by decide +kernel).symm.trans
      confirms)
    decide +kernel

/-- A listener that is closed before the last segment of a handshake. -/
def closedEarly : List AcceptAction :=
  [.listen 0 80 1, .input acceptingEnv asking, .close acceptingEnv 0, .input acceptingEnv answering]

/-- A child that is established after its listener was closed is never returned, and its slot is lost. -/
theorem child_lost : ¬Visits Fair start (record step start closedEarly) := by
  rintro ⟨-, -, -, -, last⟩
  rcases last.reachable 1 (by decide) (by decide +kernel) with held | ⟨l, ⟨small, used, listener, -⟩, -⟩
  · exact absurd held (by decide +kernel)
  · have none : ∀ l, l < tcpMaxConnections → ((closedEarly.foldl step start).tcp.conns l).used →
        ((closedEarly.foldl step start).tcp.conns l).listener = false := by
      decide +kernel
    exact absurd (listener.symm.trans (none l small used)) (by simp)

end Acceptor

end Galio

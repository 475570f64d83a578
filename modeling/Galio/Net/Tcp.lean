import Galio.Lib.Chain
import Galio.Net.Ipv4

/-! `kernel/net/tcp.c`: segments on the wire, the connection table, and the calls that change it. -/

namespace Galio

open Function OnesComplement

def tcpMaxConnections : Nat := 64

def tcpHashBuckets : Nat := 64

def tcpRecvBufferSize : Nat := 8192

def tcpRetransmitTicks : UInt32 := 1000

def tcpMaxRetries : Nat := 3

def tcpListenBacklog : Nat := 8

/-- The first ephemeral port. -/
def tcpFirstPort : Nat := 30000

inductive TcpState where
  | closed
  | synSent
  | synReceived
  | established
  | finWait
  deriving DecidableEq

/-- Addresses and ports of a connection, its own ones first. -/
structure TcpTuple where
  srcIp : Nat
  srcPort : Nat
  destIp : Nat
  destPort : Nat
  deriving DecidableEq

/-- `tcp_connection_t`, with the buffered bytes; `none` is the end of a chain. -/
structure TcpConnection where
  used : Bool := false
  state : TcpState := .closed
  tuple : TcpTuple := ⟨0, 0, 0, 0⟩
  seq : UInt32 := 0
  ack : UInt32 := 0
  remoteSeq : UInt32 := 0
  lastActivity : UInt32 := 0
  retries : Nat := 0
  hashBucket : Nat := 0
  hashLinked : Bool := false
  hashNext : Option Nat := some 0
  listener : Bool := false
  parentListener : Nat := 0
  pendingCount : Nat := 0
  pendingHead : Nat := 0
  pending : Nat → Nat := fun _ => 0
  recvBuffer : List UInt8 := []

/-- A segment, as `tcp_input` reads it from a packet. -/
structure TcpSegment where
  srcIp : Nat
  srcPort : Nat
  destIp : Nat
  destPort : Nat
  seq : UInt32
  ack : UInt32
  flags : Nat
  payload : List UInt8
  /-- The checksum is the one that is expected. -/
  intact : Bool

def TcpSegment.fin (segment : TcpSegment) : Bool := segment.flags.testBit 0

def TcpSegment.syn (segment : TcpSegment) : Bool := segment.flags.testBit 1

/-- `TCP_FLAG_ACK`. -/
def TcpSegment.acks (segment : TcpSegment) : Bool := segment.flags.testBit 4

/-- The tuple of the connection that a segment is for. -/
def TcpSegment.tuple (segment : TcpSegment) : TcpTuple :=
  ⟨segment.destIp, segment.destPort, segment.srcIp, segment.srcPort⟩

/-- The connection table, the heads of its hash chains and the next ephemeral port. -/
structure Tcp where
  conns : Nat → TcpConnection
  heads : Nat → Option Nat
  ephemeralPort : Nat

/-- What a call finds outside: the tick counter, and each segment's source address, if it can be sent. -/
structure TcpEnv where
  now : UInt32
  sends : Nat → Option Nat

namespace Tcp

/-- The table with another connection in a slot. -/
def setConn (tcp : Tcp) (i : Nat) (conn : TcpConnection) : Tcp := { tcp with conns := update tcp.conns i conn }

/-- The links of the chains. -/
def next (tcp : Tcp) (i : Nat) : Option Nat := (tcp.conns i).hashNext

end Tcp

def tcpInit : Tcp := ⟨fun _ => {}, fun _ => none, tcpFirstPort⟩

def tcpTupleHash (tuple : TcpTuple) : Nat :=
  let hash := tuple.srcIp ^^^ tuple.destIp ^^^ tuple.srcPort <<< 16 ^^^ tuple.destPort
  (hash ^^^ hash >>> 16) % tcpHashBuckets

def tcpHashInsert (tcp : Tcp) (i : Nat) : Tcp :=
  let conn := tcp.conns i
  if conn.hashLinked then tcp
  else
    let bucket := tcpTupleHash conn.tuple
    let tcp := tcp.setConn i { conn with hashBucket := bucket, hashNext := tcp.heads bucket, hashLinked := true }
    { tcp with heads := update tcp.heads bucket (some i) }

/-- The link that leads to a slot is set to what follows; no chain is longer than the table. -/
def Tcp.unlink (tcp : Tcp) (bucket i : Nat) : Tcp :=
  match tcp.heads bucket with
  | none => tcp
  | some first =>
    if first = i then { tcp with heads := update tcp.heads bucket (tcp.next i) }
    else
      match Chain.before tcp.next i tcpMaxConnections first with
      | some (some before) => tcp.setConn before { tcp.conns before with hashNext := tcp.next i }
      | _ => tcp

def tcpHashRemove (tcp : Tcp) (i : Nat) : Tcp :=
  if (tcp.conns i).hashLinked then
    let tcp := tcp.unlink (tcp.conns i).hashBucket i
    tcp.setConn i { tcp.conns i with hashLinked := false }
  else tcp

/-- A slot given back, after `tcp_hash_remove`. -/
def Tcp.free (tcp : Tcp) (i : Nat) : Tcp :=
  let tcp := tcpHashRemove tcp i
  tcp.setConn i { tcp.conns i with used := false }

/-- The slot that `tcp_alloc` takes, the first one not in use. -/
def Tcp.unused (tcp : Tcp) : Option Nat := (List.range tcpMaxConnections).find? fun i => !(tcp.conns i).used

/-- What `tcp_alloc` puts into it. -/
def freshConnection : TcpConnection := { used := true, hashNext := none }

/-- The walk of `tcp_lookup` along a chain, which is never longer than the table. -/
def Tcp.search (tcp : Tcp) (tuple : TcpTuple) : Nat → Option Nat → Option Nat
  | 0, _ => none
  | _, none => none
  | steps + 1, some i =>
    if (tcp.conns i).used ∧ (tcp.conns i).tuple = tuple then some i else tcp.search tuple steps (tcp.next i)

/-- `tcp_lookup`, for the tuple of the connection. -/
def tcpLookup (tcp : Tcp) (tuple : TcpTuple) : Option Nat :=
  tcp.search tuple tcpMaxConnections (tcp.heads (tcpTupleHash tuple))

def tcpFindListener (tcp : Tcp) (destination port : Nat) : Option Nat :=
  (List.range tcpMaxConnections).find? fun i =>
    (tcp.conns i).used ∧ (tcp.conns i).listener ∧ (tcp.conns i).tuple.srcPort = port ∧
      ((tcp.conns i).tuple.srcIp = 0 ∨ (tcp.conns i).tuple.srcIp = destination)

/-- `tcp_send_segment`, without effect if the segment cannot be sent. -/
def tcpSendSegment (now : UInt32) (address : Option Nat) (conn : TcpConnection) (payload : List UInt8) (flags : Nat) :
    TcpConnection × Option TcpSegment :=
  match address with
  | none => (conn, none)
  | some ip =>
    ({ conn with
      lastActivity := now
      seq := conn.seq + (if flags.testBit 1 then 1 else 0) + (if flags.testBit 0 then 1 else 0) +
        UInt32.ofNat payload.length },
      some ⟨ip, conn.tuple.srcPort, conn.tuple.destIp, conn.tuple.destPort, conn.seq, conn.remoteSeq, flags, payload,
        true⟩)

/-- The flags of a first segment. -/
def tcpFlagSyn : Nat := 0x02

/-- The flags of an acknowledgement. -/
def tcpFlagAck : Nat := 0x10

/-- The flags of the answer to a first segment. -/
def tcpFlagSynAck : Nat := 0x12

/-- The flags of a segment with data. -/
def tcpFlagPshAck : Nat := 0x18

/-- The flags of a last segment. -/
def tcpFlagFinAck : Nat := 0x11

/-- The number that a connection starts with. -/
def initialSeq (now : UInt32) : UInt32 := 0x1000 + now

/-- The connection that `tcp_connect` fills in. -/
def activeConnection (now : UInt32) (tuple : TcpTuple) : TcpConnection :=
  { freshConnection with state := .synSent, tuple := tuple, seq := initialSeq now, lastActivity := now }

/-- `tcp_connect` up to its wait: the slot it waits for, and what is sent. -/
def tcpConnectStart (env : TcpEnv) (device : Option Nat) (tcp : Tcp) (destIp destPort : Nat) :
    Tcp × Option Nat × Option TcpSegment :=
  if destIp = 0 ∨ destPort = 0 then (tcp, none, none)
  else
    match tcp.unused with
    | none => (tcp, none, none)
    | some i =>
      match device with
      | none => (tcp.setConn i { freshConnection with used := false }, none, none)
      | some address =>
        let port := tcp.ephemeralPort
        let tcp := { tcp with ephemeralPort := if (port + 1) % 65536 = 0 then tcpFirstPort else port + 1 }
        let tcp := tcpHashInsert (tcp.setConn i (activeConnection env.now ⟨address, port, destIp, destPort⟩)) i
        let sent := tcpSendSegment env.now (env.sends 0) (tcp.conns i) [] tcpFlagSyn
        if sent.2.isSome then (tcp.setConn i sent.1, some i, sent.2) else (tcp.free i, none, none)

/-- `tcp_connect` after its wait: the connection is kept if it is established. -/
def tcpConnectFinish (tcp : Tcp) (i : Nat) : Tcp × Option Nat :=
  if (tcp.conns i).state = .established then (tcp, some i) else (tcp.free i, none)

/-- `tcp_listen`: the slot of the listener. -/
def tcpListen (tcp : Tcp) (localIp localPort backlog : Nat) : Tcp × Option Nat :=
  if localPort = 0 ∨ backlog = 0 then (tcp, none)
  else
    match tcp.unused with
    | none => (tcp, none)
    | some i => (tcp.setConn i { freshConnection with listener := true, tuple := ⟨localIp, localPort, 0, 0⟩ }, some i)

/-- The queue of a listener, the first one to accept first. -/
def TcpConnection.waiting (conn : TcpConnection) : List Nat :=
  (List.range conn.pendingCount).map fun k => conn.pending ((conn.pendingHead + k) % tcpListenBacklog)

/-- `tcp_accept` where a connection is pending: the slot of the first one. -/
def tcpAcceptTake (tcp : Tcp) (i : Nat) : Tcp × Nat :=
  let listener := tcp.conns i
  (tcp.setConn i { listener with
    pendingHead := (listener.pendingHead + 1) % tcpListenBacklog, pendingCount := listener.pendingCount - 1 },
    listener.pending listener.pendingHead)

/-- `tcp_send`: what is sent. -/
def tcpSend (env : TcpEnv) (tcp : Tcp) (i : Nat) (data : List UInt8) : Tcp × Option TcpSegment :=
  if ¬(tcp.conns i).used ∨ (tcp.conns i).state ≠ .established ∨ data = [] then (tcp, none)
  else
    let sent := tcpSendSegment env.now (env.sends 0) (tcp.conns i) data tcpFlagPshAck
    (tcp.setConn i sent.1, sent.2)

/-- The first check of `tcp_receive`. -/
def TcpConnection.receivable (conn : TcpConnection) : Prop := conn.used ∧ conn.state = .established

instance (conn : TcpConnection) : Decidable conn.receivable := inferInstanceAs (Decidable (_ ∧ _))

/-- `tcp_receive` after its wait: the bytes that are copied. -/
def TcpConnection.take (conn : TcpConnection) (length : Nat) : TcpConnection × List UInt8 :=
  ({ conn with recvBuffer := conn.recvBuffer.drop length }, conn.recvBuffer.take length)

/-- `tcp_close`: what is sent. -/
def tcpClose (env : TcpEnv) (tcp : Tcp) (i : Nat) : Tcp × Option TcpSegment :=
  if ¬(tcp.conns i).used then (tcp, none)
  else if (tcp.conns i).state = .established then
    let sent := tcpSendSegment env.now (env.sends 0) (tcp.conns i) [] tcpFlagFinAck
    ((tcp.setConn i sent.1).free i, sent.2)
  else (tcp.free i, none)

/-- The connection that `tcp_input` fills in for a first segment. -/
def passiveConnection (now : UInt32) (listener : Nat) (segment : TcpSegment) : TcpConnection :=
  { freshConnection with
    parentListener := listener
    state := .synSent
    tuple := segment.tuple
    seq := initialSeq now
    remoteSeq := segment.seq + 1 }

/-- The part of `tcp_input` for a first segment without a connection. -/
def tcpInputSyn (env : TcpEnv) (tcp : Tcp) (segment : TcpSegment) : Tcp × List TcpSegment :=
  match tcpFindListener tcp segment.destIp segment.destPort with
  | none => (tcp, [])
  | some l =>
    if (tcp.conns l).pendingCount ≥ tcpListenBacklog then (tcp, [])
    else
      match tcp.unused with
      | none => (tcp, [])
      | some i =>
        let tcp := tcpHashInsert (tcp.setConn i (passiveConnection env.now l segment)) i
        let sent := tcpSendSegment env.now (env.sends 0) (tcp.conns i) [] tcpFlagSynAck
        (tcp.setConn i { sent.1 with state := .synReceived }, sent.2.toList)

/-- The part of `tcp_input` that takes data in order, as far as it fits. -/
def TcpConnection.inputData (env : TcpEnv) (conn : TcpConnection) (segment : TcpSegment) :
    TcpConnection × List TcpSegment :=
  if segment.payload ≠ [] ∧ segment.seq = conn.remoteSeq then
    let copied := segment.payload.take (tcpRecvBufferSize - conn.recvBuffer.length)
    if copied ≠ [] then
      let conn := { conn with
        recvBuffer := conn.recvBuffer ++ copied, remoteSeq := conn.remoteSeq + UInt32.ofNat segment.payload.length }
      let sent := tcpSendSegment env.now (env.sends 0) conn [] tcpFlagAck
      (sent.1, sent.2.toList)
    else (conn, [])
  else (conn, [])

/-- The part of `tcp_input` for a last segment in order. -/
def TcpConnection.inputFin (env : TcpEnv) (conn : TcpConnection) (segment : TcpSegment) :
    TcpConnection × List TcpSegment :=
  if segment.fin ∧ segment.seq = conn.remoteSeq then
    let sent := tcpSendSegment env.now (env.sends 1) { conn with remoteSeq := conn.remoteSeq + 1 } [] tcpFlagAck
    ({ sent.1 with state := .finWait }, sent.2.toList)
  else (conn, [])

/-- What `tcp_input` does to a connection: what is sent, and whether a listener is told. -/
def TcpConnection.input (env : TcpEnv) (conn : TcpConnection) (segment : TcpSegment) :
    TcpConnection × List TcpSegment × Bool :=
  let conn := { conn with lastActivity := env.now }
  if conn.state = .synSent ∧ segment.syn ∧ segment.acks then
    let sent := tcpSendSegment env.now (env.sends 0) { conn with
      remoteSeq := segment.seq + 1, ack := segment.seq + 1, seq := conn.seq + 1, state := .established } [] tcpFlagAck
    (sent.1, sent.2.toList, false)
  else if conn.state = .synReceived ∧ segment.acks ∧ segment.ack = conn.seq then
    ({ conn with state := .established }, [], true)
  else if conn.state = .established then
    let data := conn.inputData env segment
    let fin := data.1.inputFin env segment
    (fin.1, data.2 ++ fin.2, false)
  else (conn, [], false)

/-- A connection put at the end of a listener's queue, if there is room. -/
def Tcp.enqueue (tcp : Tcp) (l i : Nat) : Tcp :=
  let listener := tcp.conns l
  if listener.used ∧ listener.listener ∧ listener.pendingCount < tcpListenBacklog then
    tcp.setConn l { listener with
      pending := update listener.pending ((listener.pendingHead + listener.pendingCount) % tcpListenBacklog) i
      pendingCount := listener.pendingCount + 1 }
  else tcp

/-- `tcp_input` for a segment: what is sent. -/
def tcpInput (env : TcpEnv) (tcp : Tcp) (segment : TcpSegment) : Tcp × List TcpSegment :=
  match tcpLookup tcp segment.tuple with
  | none => if segment.syn ∧ ¬segment.acks then tcpInputSyn env tcp segment else (tcp, [])
  | some i =>
    if segment.intact then
      let taken := (tcp.conns i).input env segment
      let tcp := tcp.setConn i taken.1
      (if taken.2.2 then tcp.enqueue taken.1.parentListener i else tcp, taken.2.1)
    else (tcp, [])

/-- `tcp_poll` for one slot. -/
def tcpPollSlot (env : TcpEnv) (tcp : Tcp) (i : Nat) : Tcp × Option TcpSegment :=
  let conn := tcp.conns i
  if conn.used ∧ conn.state = .synSent ∧ env.now - conn.lastActivity ≥ tcpRetransmitTicks then
    if conn.retries ≥ tcpMaxRetries then ((tcp.setConn i { conn with retries := conn.retries + 1 }).free i, none)
    else
      let sent := tcpSendSegment env.now (env.sends i) { conn with retries := conn.retries + 1 } [] tcpFlagSyn
      (tcp.setConn i { sent.1 with lastActivity := env.now }, sent.2)
  else (tcp, none)

/-- `tcp_poll`: what is sent. -/
def tcpPoll (env : TcpEnv) (tcp : Tcp) : Tcp × List TcpSegment :=
  (List.range tcpMaxConnections).foldl (fun polled i =>
    let slot := tcpPollSlot env polled.1 i
    (slot.1, polled.2 ++ slot.2.toList)) (tcp, [])

end Galio

import Galio.Net.Tcp
import Galio.Net.UdpDelivery

/-! `kernel/net/socket.c`: sockets over the tables of TCP and UDP, and the ports their addresses stand for. -/

namespace Galio

open Option

variable {i slot : Nat} {env : TcpEnv} {device : Option Nat} {first : TcpSegment}

/-- `net_ntohs`, which is also `net_htons`. -/
def netNtohs (value : UInt16) : UInt16 := value <<< 8 ||| value >>> 8

lemma netNtohs_toNat (value : UInt16) : (netNtohs value).toNat = value.toNat % 256 * 256 + value.toNat / 256 := by
  have small := value.toNat_lt
  have shifted : value.toNat <<< 8 % 65536 = (value.toNat % 256) <<< 8 := by
    omega
  have low : value.toNat >>> 8 < 2 ^ 8 := by
    omega
  have parts : (netNtohs value).toNat = value.toNat <<< 8 % 65536 ||| value.toNat >>> 8 := by simp [netNtohs]
  rw [parts, shifted, ← Nat.shiftLeft_add_eq_or_of_lt low, Nat.shiftLeft_eq, Nat.shiftRight_eq_div_pow]

lemma netNtohs_ne_zero {value : UInt16} (given : value ≠ 0) : netNtohs value ≠ 0 := by
  intro zero
  have swapped := netNtohs_toNat value
  rw [zero, UInt16.toNat_zero] at swapped
  exact given (UInt16.toNat_inj.mp (by rw [UInt16.toNat_zero]; omega))

/-- `struct galio_sockaddr_in`, without the bytes that nothing reads. -/
structure SockaddrIn where
  sinFamily : UInt16
  sinPort : UInt16
  sinAddr : UInt32

def galioAfInet : UInt16 := 2

/-- `GALIO_SOCK_STREAM` and `GALIO_SOCK_DGRAM`. -/
inductive SocketType where
  | stream
  | dgram
  deriving DecidableEq

/-- `socket_entry_t`, with the slot of a UDP socket. -/
structure SocketEntry where
  used : Bool := false
  type : SocketType := .stream
  connected : Bool := false
  listening : Bool := false
  tcpId : Nat := 0
  udp : Option Nat := none
  remoteIp : UInt32 := 0
  remotePort : UInt16 := 0

/-- `socket_table`, the tables below it, the `reuseaddr` flags of UDP sockets and `udp_next_ephemeral`. -/
structure Sockets where
  table : Nat → SocketEntry
  tcp : Tcp
  udp : Udp
  reuseaddr : Nat → Bool
  nextEphemeral : UInt16

def galioSocketMax : Nat := 16

def Sockets.fromHandle (sockets : Sockets) (handle : UInt32) : Option Nat :=
  let index := (handle &&& 0xFF).toNat
  if handle &&& 0x10000000 = 0 ∨ index ≥ galioSocketMax ∨ ¬(sockets.table index).used then none else some index

/-- The sockets with another entry. -/
def Sockets.setEntry (sockets : Sockets) (i : Nat) (entry : SocketEntry) : Sockets :=
  { sockets with table := Function.update sockets.table i entry }

variable {sockets after : Sockets} {handle : UInt32}

lemma Sockets.fromHandle_index (found : sockets.fromHandle handle = some i) : (handle &&& 0xFF).toNat = i := by
  simp only [fromHandle, ite_none_left_eq_some, some.injEq] at found
  exact found.2

lemma Sockets.fromHandle_setEntry {entry : SocketEntry}
    (found : sockets.fromHandle handle = some i) (used : entry.used = (sockets.table i).used) :
    (sockets.setEntry i entry).fromHandle handle = some i := by
  rw [← found]
  simp [fromHandle, setEntry, fromHandle_index found, used]

def Sockets.udpPortAvailable (sockets : Sockets) (u : Nat) (port : UInt16) : Bool :=
  (List.range udpSocketMax).all fun index =>
    index = u ∨ ¬(sockets.udp.sockets index).used ∨ (sockets.udp.sockets index).localPort ≠ port.toNat ∨
      (sockets.reuseaddr u ∧ sockets.reuseaddr index)

/-- The search of `udp_socket_bind` for a port: 0 if there is none. -/
def Sockets.ephemeral (sockets : Sockets) (u : Nat) : Nat → Sockets × UInt16
  | 0 => (sockets, 0)
  | attempts + 1 =>
    let candidate := sockets.nextEphemeral
    let next := { sockets with nextEphemeral := if candidate + 1 < 49152 then 49152 else candidate + 1 }
    if next.udpPortAvailable u candidate then (next, candidate) else next.ephemeral u attempts

def udpSocketBind (sockets : Sockets) (u : Nat) (localIp : UInt32) (localPort : UInt16) : Sockets × Int :=
  if ¬(sockets.udp.sockets u).used then (sockets, -1)
  else
    let chosen := if localPort = 0 then sockets.ephemeral u 16384 else (sockets, localPort)
    if chosen.2 = 0 ∨ ¬chosen.1.udpPortAvailable u chosen.2 then (chosen.1, -98)
    else
      let socket := { chosen.1.udp.sockets u with localIp := localIp.toNat, localPort := chosen.2.toNat }
      ({ chosen.1 with udp := { chosen.1.udp with sockets := Function.update chosen.1.udp.sockets u socket } }, 0)

/-- What `socket_connect_fd` comes to: a result, or the wait of `tcp_connect`. -/
inductive ConnectAnswer where
  | returns (code : Int)
  | waits (slot : Nat) (first : TcpSegment)

/-- A UDP socket bound to some port, unless it is bound. -/
def Sockets.bindUnbound (sockets : Sockets) (u : Nat) : Sockets × Int :=
  if (sockets.udp.sockets u).used ∧ (sockets.udp.sockets u).localPort ≠ 0 then (sockets, 0)
  else udpSocketBind sockets u 0 0

/-- The part of `socket_connect_fd` for a datagram socket. -/
def socketConnectDatagram (sockets : Sockets) (i u : Nat) (address : SockaddrIn) : Sockets × Int :=
  let bound := sockets.bindUnbound u
  if bound.2 ≠ 0 then bound
  else (bound.1.setEntry i { sockets.table i with
    remoteIp := address.sinAddr, remotePort := netNtohs address.sinPort, connected := true }, 0)

/-- `socket_connect_fd`, up to the wait for a stream socket. -/
def socketConnectFd (env : TcpEnv) (device : Option Nat) (sockets : Sockets) (handle : UInt32) (address : SockaddrIn) :
    Sockets × ConnectAnswer :=
  match sockets.fromHandle handle with
  | none => (sockets, .returns (-22))
  | some i =>
    let entry := sockets.table i
    if address.sinFamily ≠ galioAfInet ∨ address.sinPort = 0 then (sockets, .returns (-22))
    else if entry.connected then (sockets, .returns (-106))
    else
      match entry.type, entry.udp with
      | .dgram, none => (sockets, .returns (-9))
      | .dgram, some u =>
        let connected := socketConnectDatagram sockets i u address
        (connected.1, .returns connected.2)
      | .stream, _ =>
        match tcpConnectStart env device sockets.tcp address.sinAddr.toNat address.sinPort.toNat with
        | (tcp, some slot, some first) => ({ sockets with tcp := tcp }, .waits slot first)
        | (tcp, _, _) => ({ sockets with tcp := tcp }, .returns (-110))

def socketBindFd (sockets : Sockets) (handle : UInt32) (address : SockaddrIn) : Sockets × Int :=
  match sockets.fromHandle handle with
  | none => (sockets, -22)
  | some i =>
    let entry := sockets.table i
    if address.sinFamily ≠ galioAfInet ∨ address.sinPort = 0 then (sockets, -22)
    else
      match entry.type, entry.udp with
      | .dgram, some u => udpSocketBind sockets u address.sinAddr (netNtohs address.sinPort)
      | .dgram, none => (sockets, -95)
      | .stream, _ =>
        if entry.connected then (sockets, -95)
        else (sockets.setEntry i { entry with
          remoteIp := address.sinAddr, remotePort := netNtohs address.sinPort }, 0)

/-- `socket_listen_fd`; what `tcp_listen` refuses with another number is refused before. -/
def socketListenFd (sockets : Sockets) (handle : UInt32) (backlog : Int) : Sockets × Int :=
  match sockets.fromHandle handle with
  | none => (sockets, -22)
  | some i =>
    let entry := sockets.table i
    if entry.type ≠ .stream ∨ entry.connected ∨ entry.remotePort = 0 ∨ backlog ≤ 0 then (sockets, -22)
    else
      match tcpListen sockets.tcp entry.remoteIp.toNat entry.remotePort.toNat backlog.toNat with
      | (tcp, none) => ({ sockets with tcp := tcp }, -12)
      | (tcp, some slot) =>
        (({ sockets with tcp := tcp }).setEntry i { entry with tcpId := slot + 1, listening := true }, 0)

/-- `socket_send_fd` for a datagram socket on the routed device: the frame. -/
def socketSendDatagram (device : NetDevice) (destMac : Mac) (sockets : Sockets) (handle : UInt32)
    (payload : List UInt8) : Option Frame :=
  (sockets.fromHandle handle).bind fun i => (sockets.table i).udp.bind fun u =>
    let entry := sockets.table i
    let socket := sockets.udp.sockets u
    if ¬entry.connected ∨ payload = [] ∨ ¬socket.used ∨ socket.localPort = 0 then none
    else udpSend device destMac entry.remoteIp entry.remotePort (UInt16.ofNat socket.localPort) payload

lemma tcpConnectStart_destPort {tcp after : Tcp} {destIp destPort : Nat}
    (started : tcpConnectStart env device tcp destIp destPort = (after, some slot, some first)) :
    first.destPort = destPort := by
  unfold tcpConnectStart at started
  split at started
  · simp at started
  split at started
  · simp at started
  split at started
  · simp at started
  dsimp only at started
  generalize (if (tcp.ephemeralPort + 1) % 65536 = 0 then tcpFirstPort else tcp.ephemeralPort + 1) = port at started
  split at started
  · obtain ⟨-, sent⟩ := Prod.mk.inj (Prod.mk.inj started).2
    unfold tcpSendSegment at sent
    split at sent
    · simp at sent
    cases sent
    simp [tcpHashInsert, Tcp.setConn, activeConnection, freshConnection]
  · simp at started

section Ports

variable {address : SockaddrIn} {u : Nat}

lemma socketConnectFd_destPort
    (connects : socketConnectFd env device sockets handle address = (after, .waits slot first)) :
    first.destPort = address.sinPort.toNat := by
  unfold socketConnectFd at connects
  split at connects
  · simp at connects
  dsimp only at connects
  split at connects
  · simp at connects
  split at connects
  · simp at connects
  split at connects
  · simp at connects
  · simp at connects
  · split at connects
    · rename_i started
      obtain ⟨-, answer⟩ := Prod.mk.inj connects
      obtain ⟨rfl, rfl⟩ := ConnectAnswer.waits.inj answer
      exact tcpConnectStart_destPort started
    · simp at connects

lemma socketConnectDatagram_remotePort (connects : socketConnectDatagram sockets i u address = (after, 0)) :
    (after.table i).remotePort = netNtohs address.sinPort := by
  unfold socketConnectDatagram at connects
  dsimp only at connects
  split at connects
  · rename_i failed
    exact absurd (congrArg Prod.snd connects) failed
  · cases connects
    simp [Sockets.setEntry]

lemma socketListenFd_srcPort {bound : Sockets} {backlog : Int} (found : sockets.fromHandle handle = some i)
    (stream : (sockets.table i).type = .stream) (binds : socketBindFd sockets handle address = (bound, 0))
    (listens : socketListenFd bound handle backlog = (after, 0)) :
    (after.tcp.conns ((after.table i).tcpId - 1)).tuple.srcPort = (netNtohs address.sinPort).toNat := by
  simp only [socketBindFd, found, stream] at binds
  split at binds
  · simp at binds
  split at binds
  · simp at binds
  cases binds
  rw [socketListenFd, Sockets.fromHandle_setEntry found] at listens
  on_goal 2 => rfl
  dsimp only at listens
  split at listens
  · simp at listens
  split at listens
  · simp at listens
  rename_i listened
  cases listens
  unfold tcpListen at listened
  split at listened
  · simp at listened
  split at listened
  · simp at listened
  obtain ⟨rfl, slot⟩ := Prod.mk.inj listened
  cases slot
  simp [Sockets.setEntry, Tcp.setConn]

lemma udpSocketBind_localPort {port : UInt16} {ip : UInt32} (given : port ≠ 0)
    (binds : udpSocketBind sockets u ip port = (after, 0)) : (after.udp.sockets u).localPort = port.toNat := by
  simp only [udpSocketBind] at binds
  split at binds
  · simp at binds
  split at binds
  · simp at binds
  cases binds
  simp

/-- A datagram of a client connected to an address is for the port of a server bound to it. -/
def DatagramsReach (address : SockaddrIn) : Prop :=
  ∀ {env : TcpEnv} {device : Option Nat} {client after server bound : Sockets} {handle serverHandle : UInt32}
    {i u j v : Nat} {sender : NetDevice} {destMac : Mac} {payload : List UInt8} {frame : Frame},
    client.fromHandle handle = some i → (client.table i).type = .dgram → (client.table i).udp = some u →
    socketConnectFd env device client handle address = (after, .returns 0) →
    socketSendDatagram sender destMac after handle payload = some frame →
    server.fromHandle serverHandle = some j → (server.table j).type = .dgram → (server.table j).udp = some v →
    socketBindFd server serverHandle address = (bound, 0) →
    word16 frame (udpStart frame + 2) = (bound.udp.sockets v).localPort

lemma datagrams_reach (address : SockaddrIn) : DatagramsReach address := by
  intro env device client after server bound handle serverHandle i u j v sender destMac payload frame found type socket
    connects sends serverFound serverType serverSocket binds
  simp only [socketConnectFd, found, type, socket] at connects
  simp only [socketBindFd, serverFound, serverType, serverSocket] at binds
  split at connects
  · simp at connects
  rename_i given
  rw [if_neg given] at binds
  rw [udpSocketBind_localPort (netNtohs_ne_zero fun zero => given (.inr zero)) binds]
  split at connects
  · simp at connects
  obtain ⟨rfl, code⟩ := Prod.mk.inj connects
  have remote := socketConnectDatagram_remotePort (Prod.ext rfl (ConnectAnswer.returns.inj code))
  obtain ⟨k, again, sent⟩ := bind_eq_some_iff.mp sends
  obtain ⟨w, -, sent⟩ := bind_eq_some_iff.mp sent
  obtain rfl : k = i := (Sockets.fromHandle_index again).symm.trans (Sockets.fromHandle_index found)
  dsimp only at sent
  split at sent
  · simp at sent
  rw [(udpSend_fields sent).destPort, remote]

/--
A client of a stream socket reaches the port that a server with the same address listens on exactly if the bytes of
the port are equal, and a client of a datagram socket always reaches the port that a server is bound to.
-/
theorem socket_ports_agree_iff
    {server bound listening : Sockets} {serverHandle : UInt32} {backlog : Int}
    (connects : socketConnectFd env device sockets handle address = (after, .waits slot first))
    (found : server.fromHandle serverHandle = some i) (stream : (server.table i).type = .stream)
    (binds : socketBindFd server serverHandle address = (bound, 0))
    (listens : socketListenFd bound serverHandle backlog = (listening, 0)) :
    (first.destPort = (listening.tcp.conns ((listening.table i).tcpId - 1)).tuple.srcPort ↔
      address.sinPort.toNat / 256 = address.sinPort.toNat % 256) ∧ DatagramsReach address := by
  have swapped := netNtohs_toNat address.sinPort
  rw [socketConnectFd_destPort connects, socketListenFd_srcPort found stream binds listens]
  exact ⟨by omega, datagrams_reach address⟩

/-- A socket table with stream sockets only, over empty tables. -/
def sampleSockets : Sockets :=
  ⟨fun _ => { used := true }, tcpInit, ⟨fun _ => ⟨false, 0, 0, 0, 0, 0, fun _ => ⟨[], 0, 0⟩, Nat.zero_le _⟩, []⟩,
    fun _ => false, 49152⟩

/-- For the port 0x5050 the first segment and the listener agree, and datagrams reach the server. -/
theorem socket_ports_agree_equal_bytes : (∃ after slot first bound listening,
    socketConnectFd ⟨0, fun _ => some 1⟩ (some 1) sampleSockets 0x10000000 ⟨2, 0x5050, 1⟩ = (after, .waits slot first) ∧
    socketBindFd sampleSockets 0x10000000 ⟨2, 0x5050, 1⟩ = (bound, 0) ∧
    socketListenFd bound 0x10000000 1 = (listening, 0) ∧
    first.destPort = (listening.tcp.conns ((listening.table 0).tcpId - 1)).tuple.srcPort) ∧
      DatagramsReach ⟨2, 0x5050, 1⟩ := by
  have connects : socketConnectFd ⟨0, fun _ => some 1⟩ (some 1) sampleSockets 0x10000000 ⟨2, 0x5050, 1⟩ =
    (_, .waits 0 _) := rfl
  obtain ⟨agree, reach⟩ := socket_ports_agree_iff connects (rfl : sampleSockets.fromHandle 0x10000000 = some 0)
    rfl rfl (rfl : socketListenFd _ 0x10000000 1 = (_, 0))
  exact ⟨⟨_, _, _, _, _, rfl, rfl, rfl, agree.mpr rfl⟩, reach⟩

/-- A client that connects to port 80 in network order asks for port 20480, and a server listens on port 80. -/
theorem connect_asks_swapped_port :
    (∃ after slot first, socketConnectFd ⟨0, fun _ => some 1⟩ (some 1) sampleSockets 0x10000000 ⟨2, 0x5000, 1⟩ =
      (after, .waits slot first) ∧ first.destPort = 20480) ∧
    ∃ bound listening, socketBindFd sampleSockets 0x10000000 ⟨2, 0x5000, 1⟩ = (bound, 0) ∧
      socketListenFd bound 0x10000000 1 = (listening, 0) ∧
      (listening.tcp.conns ((listening.table 0).tcpId - 1)).tuple.srcPort = 80 :=
  ⟨⟨_, _, _, rfl, rfl⟩, _, _, rfl, rfl, rfl⟩

end Ports

end Galio

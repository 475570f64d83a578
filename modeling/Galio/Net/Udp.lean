import Galio.Net.Ipv4Laws

/-! `kernel/net/udp.c`: datagrams that are sent, and the sockets they are queued on. -/

namespace Galio

open OnesComplement

/-- The bytes of `struct udp_hdr`. -/
def udpHdrLen : Nat := 8

def udpSocketMax : Nat := 16

def udpSocketQueue : Nat := 8

def udpSocketPayload : Nat := 2048

/-- `udp_datagram_t`, with the bytes in use. -/
structure UdpDatagram where
  data : List UInt8
  sourceIp : Nat
  sourcePort : Nat

/-- The fields of `struct udp_socket` that a datagram is queued by. -/
structure UdpSocket where
  used : Bool
  localIp : Nat
  localPort : Nat
  queueHead : Nat
  queueCount : Nat
  drops : Nat
  queue : Nat → UdpDatagram
  /-- The ring is never overfull. -/
  room : queueCount ≤ udpSocketQueue

/-- The sockets, and the ports and callbacks of `udp_register_listener`. -/
structure Udp where
  sockets : Nat → UdpSocket
  listeners : List (Nat × Nat)

/-- A call of a registered callback. -/
structure UdpCall where
  callback : Nat
  sourceIp : Nat
  sourcePort : Nat
  destPort : Nat
  payload : List UInt8

def udpChecksum (source dest protocol : Nat) (data : List UInt8) : Nat :=
  checksum (pseudoSum source dest protocol data.length) data

/-- The UDP header and payload that `udp_send` writes, with some checksum. -/
def udpBody (srcPort destPort : UInt16) (field : Nat) (payload : List UInt8) : List UInt8 :=
  bytes16 srcPort.toNat ++ bytes16 destPort.toNat ++ bytes16 (udpHdrLen + payload.length) ++ bytes16 field ++ payload

/-- `udp_send` on the routed device: the frame. -/
def udpSend (device : NetDevice) (destMac : Mac) (dest : UInt32) (destPort srcPort : UInt16) (payload : List UInt8) :
    Option Frame :=
  if destPort = 0 ∨ srcPort = 0 ∨ payload.length > 0xFFFF - udpHdrLen then none
  else if ¬device.reaches dest then none
  else
    let field := udpChecksum device.ipAddr.toNat dest.toNat ipv4ProtoUdp (udpBody srcPort destPort 0 payload)
    some (ipv4Packet device destMac dest ipv4ProtoUdp (udpBody srcPort destPort field payload))

/-- The place of the UDP header in a packet. -/
def udpStart (frame : Frame) : Nat := ethHdrLen + ipv4Ihl frame

/-- `len` of the UDP header. -/
def udpLen (frame : Frame) : Nat := word16 frame (udpStart frame + 4)

/-- `checksum` of the UDP header. -/
def udpField (frame : Frame) : Nat := word16 frame (udpStart frame + 6)

/-- The header and the payload that a packet holds. -/
def udpSegment (frame : Frame) : List UInt8 := slice frame (udpStart frame) (udpLen frame)

/-- The checks of `udp_input` on lengths. -/
def UdpFits (frame : Frame) : Prop :=
  ethHdrLen + ipv4HdrLen + udpHdrLen ≤ frame.length ∧ ipv4HdrLen ≤ ipv4Ihl frame ∧ udpHdrLen ≤ udpLen frame ∧
    udpStart frame + udpLen frame ≤ frame.length

instance (frame : Frame) : Decidable (UdpFits frame) := inferInstanceAs (Decidable (_ ∧ _))

/-- The check of `udp_input` on the checksum. -/
def UdpIntact (frame : Frame) : Prop :=
  udpField frame = 0 ∨ udpField frame = udpChecksum (ipv4Src frame) (ipv4Dest frame) ipv4ProtoUdp (udpSegment frame)

instance (frame : Frame) : Decidable (UdpIntact frame) := inferInstanceAs (Decidable (_ ∨ _))

/-- A socket takes the datagrams to a port and an address. -/
def UdpSocket.takes (socket : UdpSocket) (dest destPort : Nat) : Prop :=
  socket.used ∧ socket.localPort = destPort ∧ (socket.localIp = 0 ∨ socket.localIp = dest)

instance (socket : UdpSocket) (dest destPort : Nat) : Decidable (socket.takes dest destPort) :=
  inferInstanceAs (Decidable (_ ∧ _))

/-- A socket with one more datagram, for the oldest one if the ring is full. -/
def UdpSocket.push (socket : UdpSocket) (datagram : UdpDatagram) : UdpSocket :=
  let full : Bool := socket.queueCount = udpSocketQueue
  let head := if full then (socket.queueHead + 1) % udpSocketQueue else socket.queueHead
  let count := if full then socket.queueCount - 1 else socket.queueCount
  { socket with
    queueHead := head
    queueCount := count + 1
    drops := if full then socket.drops + 1 else socket.drops
    queue := Function.update socket.queue ((head + count) % udpSocketQueue) datagram
    room := by
      have room := socket.room
      by_cases filled : socket.queueCount = udpSocketQueue
      · simp [count, full, filled, udpSocketQueue]
      · simp only [count, full, filled, decide_false, Bool.false_eq_true, if_false]
        omega }

/-- The datagrams in the ring, the oldest first. -/
def UdpSocket.waiting (socket : UdpSocket) : List UdpDatagram :=
  (List.range socket.queueCount).map fun k => socket.queue ((socket.queueHead + k) % udpSocketQueue)

/-- `udp_input`, with no result if a check fails. -/
def udpInput (udp : Udp) (frame : Frame) : Option (Udp × Option UdpCall) :=
  if ¬UdpFits frame then none
  else if ¬UdpIntact frame then none
  else
    let sourcePort := word16 frame (udpStart frame)
    let destPort := word16 frame (udpStart frame + 2)
    let payload := slice frame (udpStart frame + udpHdrLen) (udpLen frame - udpHdrLen)
    let datagram : UdpDatagram := ⟨payload.take udpSocketPayload, ipv4Src frame, sourcePort⟩
    let sockets := fun i =>
      if i < udpSocketMax ∧ (udp.sockets i).takes (ipv4Dest frame) destPort then (udp.sockets i).push datagram
      else udp.sockets i
    some ({ udp with sockets := sockets },
      (udp.listeners.find? fun listener => listener.1 = destPort).map fun listener =>
        ⟨listener.2, ipv4Src frame, sourcePort, destPort, payload⟩)

/-- `ipv4_input` and `udp_input` for a UDP packet, with no result if a check fails. -/
def udpReceive (device : NetDevice) (now : Nat) (slots : Ipv4Reassembly) (udp : Udp) (frame : Frame) :
    Option (Udp × Option UdpCall) :=
  (ipv4Input device now slots frame).2.bind fun packet =>
    if ipv4Protocol packet = ipv4ProtoUdp then udpInput udp packet else none

end Galio

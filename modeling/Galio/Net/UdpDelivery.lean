import Galio.Lib.Ring
import Galio.Net.Udp

/-! Which datagrams arrive: the checksum that is sent and the one that is expected. -/

namespace Galio

open OnesComplement List

/-- The datagrams that stay in a ring when one more is queued. -/
def latest (waiting : List UdpDatagram) : List UdpDatagram :=
  if waiting.length = udpSocketQueue then waiting.drop 1 else waiting

/-- One more datagram is queued behind those that stay, and counted. -/
structure UdpSocket.Queues (before after : UdpSocket) (datagram : UdpDatagram) : Prop where
  /-- It is the newest one. -/
  waiting : after.waiting = latest before.waiting ++ [datagram]
  /-- All that were queued wait or were dropped for a newer one. -/
  counted : after.drops + after.waiting.length = before.drops + before.waiting.length + 1

lemma UdpSocket.push_queues (socket : UdpSocket) (datagram : UdpDatagram) :
    socket.Queues (socket.push datagram) datagram := by
  have room := socket.room
  have waits : socket.waiting = Ring.window udpSocketQueue socket.queue socket.queueHead socket.queueCount := rfl
  by_cases full : socket.queueCount = udpSocketQueue
  · have rest : latest socket.waiting =
        Ring.window udpSocketQueue socket.queue ((socket.queueHead + 1) % udpSocketQueue) 7 := by
      rw [waits, full, latest, if_pos (by simp [Ring.window])]
      exact congrArg (drop 1) (Ring.window_pop : Ring.window _ _ _ (7 + 1) = _)
    constructor
    · rw [rest]
      simp only [waiting, push, full, decide_true, if_true]
      exact Ring.window_push (by decide) datagram
    · simp only [waiting, push, full, decide_true, if_true, length_map, length_range, udpSocketQueue]
  · have rest : latest socket.waiting = socket.waiting := by
      rw [latest, if_neg (by simpa [waiting] using full)]
    constructor
    · rw [rest]
      simp only [waiting, push, full, decide_false, Bool.false_eq_true, if_false]
      exact Ring.window_push (by omega) datagram
    · simp only [waiting, push, full, decide_false, Bool.false_eq_true, if_false, length_map, length_range]
      omega

lemma UdpSocket.not_queues (socket : UdpSocket) (datagram : UdpDatagram) : ¬socket.Queues socket datagram := by
  rintro ⟨-, counted⟩
  omega

/-- All words of a UDP header, its payload and the pseudo header. -/
def udpTotal (frame : Frame) : Nat :=
  pseudoSum (ipv4Src frame) (ipv4Dest frame) ipv4ProtoUdp (udpSegment frame).length + wordSum (udpSegment frame)

lemma udpIntact_iff (frame : Frame) : UdpIntact frame ↔ udpField frame = 0 ∨
      udpField frame ≠ 65535 ∧ (udpTotal frame + udpField frame) % 65535 = 0 := by
  have positive := pseudoSum_pos (ipv4Src frame) (ipv4Dest frame) (udpSegment frame).length
    (by decide : 0 < ipv4ProtoUdp)
  have small := word16_lt frame (udpStart frame + 6)
  rw [UdpIntact, udpChecksum, eq_checksum_iff (by omega) (by rw [udpField]; omega)]
  rfl

/-- The words of a datagram to be sent, with the pseudo header and without a checksum. -/
def udpWords (source dest : UInt32) (srcPort destPort : UInt16) (payload : List UInt8) : Nat :=
  pseudoSum source.toNat dest.toNat ipv4ProtoUdp (udpHdrLen + payload.length) +
    (srcPort.toNat + destPort.toNat + (udpHdrLen + payload.length) + wordSum payload)

variable {field now : Nat} {frame : Frame} {receiver : NetDevice} {slots : Ipv4Reassembly} {udp : Udp}
  {sender : NetDevice} {destMac : Mac} {dest : UInt32} {srcPort destPort : UInt16} {payload : List UInt8}

section Send

lemma wordSum_udpBody (small : field < 65536) (room : udpHdrLen + payload.length ≤ 65535) :
    wordSum (udpBody srcPort destPort field payload) =
      srcPort.toNat + destPort.toNat + (udpHdrLen + payload.length) + wordSum payload + field := by
  have first := srcPort.toNat_lt
  have second := destPort.toNat_lt
  simp only [udpBody, append_assoc, wordSum_bytes16]
  omega

lemma udpBody_length (field : Nat) :
    (udpBody srcPort destPort field payload).length = udpHdrLen + payload.length := by
  simp [udpBody, bytes16, udpHdrLen]
  omega

/-- The fields of a frame that `udp_send` builds. -/
structure SentFields (frame : Frame) (src dst : UInt32) (ownPort peerPort : UInt16) (content : List UInt8) : Prop where
  packet : ∃ body, body.length = udpHdrLen + content.length ∧ PacketFields frame src dst ipv4ProtoUdp body
  room : udpHdrLen + content.length ≤ 65535
  fits : UdpFits frame
  srcPort : word16 frame (udpStart frame) = ownPort.toNat
  destPort : word16 frame (udpStart frame + 2) = peerPort.toNat
  payload : slice frame (udpStart frame + udpHdrLen) (udpLen frame - udpHdrLen) = content
  intact : UdpIntact frame ↔ udpWords src dst ownPort peerPort content % 65535 = 0

lemma sentFields_of_packet {source : UInt32} (room : udpHdrLen + payload.length ≤ 65535)
    (small : field < 65535) (zero : (udpWords source dest srcPort destPort payload + field) % 65535 = 0)
    (packet : PacketFields frame source dest ipv4ProtoUdp (udpBody srcPort destPort field payload)) :
    SentFields frame source dest srcPort destPort payload := by
  have size : (udpBody srcPort destPort field payload).length = _ := udpBody_length field
  have start : udpStart frame = ethHdrLen + ipv4HdrLen := by rw [udpStart, packet.ihl]
  -- Everything behind the IPv4 header is the body.
  have read : ∀ a, word16 frame (udpStart frame + a) = word16 (udpBody srcPort destPort field payload) a := by
    intro a
    rw [start, ← word16_drop, packet.body]
  have length : udpLen frame = udpHdrLen + payload.length := by
    have stored : word16 (udpBody srcPort destPort field payload) 4 = (udpHdrLen + payload.length) % 65536 :=
      bytes16_value _
    rw [udpLen, read]
    omega
  have written : udpField frame = field := by
    have stored : word16 (udpBody srcPort destPort field payload) 6 = field % 65536 := bytes16_value _
    rw [udpField, read]
    omega
  have segment : udpSegment frame = udpBody srcPort destPort field payload := by
    rw [udpSegment, slice, start, packet.body, length, ← size, take_length]
  refine ⟨⟨_, size, packet⟩, room, ?_, ?_, ?_, ?_, ?_⟩
  · have total := packet.length
    rw [UdpFits, packet.ihl]
    omega
  · have stored : word16 (udpBody srcPort destPort field payload) 0 = srcPort.toNat % 65536 := bytes16_value _
    have port := srcPort.toNat_lt
    rw [← Nat.add_zero (udpStart frame), read]
    omega
  · have stored : word16 (udpBody srcPort destPort field payload) 2 = destPort.toNat % 65536 := bytes16_value _
    have port := destPort.toNat_lt
    rw [read]
    omega
  · have behind : (udpBody srcPort destPort field payload).drop udpHdrLen = payload := rfl
    rw [slice, start, ← drop_drop, packet.body, behind, length, Nat.add_sub_cancel_left, take_length]
  · have total : udpTotal frame = udpWords source dest srcPort destPort payload + field := by
      rw [udpTotal, segment, size, wordSum_udpBody (by omega) room, packet.source, packet.dest, udpWords]
      omega
    rw [udpIntact_iff]
    omega

lemma udpSend_fields (sent : udpSend sender destMac dest destPort srcPort payload = some frame) :
    SentFields frame sender.ipAddr dest srcPort destPort payload := by
  unfold udpSend at sent
  split at sent
  · simp at sent
  split at sent
  · simp at sent
  have header : udpHdrLen = 8 := rfl
  have room : udpHdrLen + payload.length ≤ 65535 := by omega
  have words : udpWords sender.ipAddr dest srcPort destPort payload =
      pseudoSum sender.ipAddr.toNat dest.toNat ipv4ProtoUdp (udpBody srcPort destPort 0 payload).length +
        wordSum (udpBody srcPort destPort 0 payload) := by
    rw [udpBody_length, wordSum_udpBody (by omega) room, udpWords, Nat.add_zero]
  have positive := pseudoSum_pos sender.ipAddr.toNat dest.toNat (udpBody srcPort destPort 0 payload).length
    (by decide : 0 < ipv4ProtoUdp)
  obtain ⟨small, zero⟩ := checksum_spec (Nat.add_pos_left positive (wordSum (udpBody srcPort destPort 0 payload)))
  cases sent
  exact sentFields_of_packet room small (words ▸ zero) ipv4Packet_fields

lemma udpReceive_sent (fields : SentFields frame sender.ipAddr dest srcPort destPort payload)
    (owner : receiver.ipAddr = dest) (now : Nat) (slots : Ipv4Reassembly) (udp : Udp) :
    udpReceive receiver now slots udp frame = if ipv4HdrLen + udpHdrLen + payload.length ≤ 65535 ∧
          udpWords sender.ipAddr dest srcPort destPort payload % 65535 = 0 then some ({ udp with
          sockets := fun i =>
            if i < udpSocketMax ∧ (udp.sockets i).takes dest.toNat destPort.toNat then
              (udp.sockets i).push ⟨payload.take udpSocketPayload, sender.ipAddr.toNat, srcPort.toNat⟩
            else udp.sockets i },
          (udp.listeners.find? fun listener => listener.1 = destPort.toNat).map fun listener =>
            ⟨listener.2, sender.ipAddr.toNat, srcPort.toNat, destPort.toNat, payload⟩)
      else none := by
  obtain ⟨body, size, packet⟩ := fields.packet
  have room := fields.room
  have protocol : ipv4Protocol frame = ipv4ProtoUdp := packet.protocol
  rw [udpReceive, ipv4Input_packet packet owner now slots]
  by_cases short : ipv4HdrLen + udpHdrLen + payload.length ≤ 65535
  · rw [if_pos (by omega), Option.bind_some, if_pos protocol, udpInput, if_neg (not_not.mpr fields.fits)]
    by_cases zero : udpWords sender.ipAddr dest srcPort destPort payload % 65535 = 0
    · rw [if_neg (not_not.mpr (fields.intact.mpr zero)), if_pos ⟨short, zero⟩]
      simp only [fields.srcPort, fields.destPort, fields.payload, packet.source, packet.dest]
    · rw [if_pos (fun intact => zero (fields.intact.mp intact)), if_neg (fun both => zero both.2)]
  · rw [if_neg (by omega), if_neg (fun both => short both.1)]
    rfl

end Send

/-- A datagram arrives: the frame passes every check on its device, and every socket of the port queues it. -/
def DatagramArrives (sender : NetDevice) (destMac : Mac) (dest : UInt32) (destPort srcPort : UInt16)
    (payload : List UInt8) (receiver : NetDevice) (now : Nat) (slots : Ipv4Reassembly) (udp : Udp) : Prop :=
  ∃ frame after call, udpSend sender destMac dest destPort srcPort payload = some frame ∧
    udpReceive receiver now slots udp frame = some (after, call) ∧
    ∀ i, i < udpSocketMax → (udp.sockets i).used → (udp.sockets i).localPort = destPort.toNat →
      (udp.sockets i).Queues (after.sockets i) ⟨payload.take udpSocketPayload, sender.ipAddr.toNat, srcPort.toNat⟩

/-- A datagram with a wrong checksum is queued nowhere. -/
def WrongChecksumIgnored (receiver : NetDevice) (now : Nat) (slots : Ipv4Reassembly) (udp : Udp)
    (frame : Frame) : Prop :=
  udpField frame ≠ 0 → udpTotal frame % 65535 ≠ 0 →
    ∀ after call, udpReceive receiver now slots udp frame = some (after, call) →
      ∀ i, i < udpSocketMax → after.sockets i = udp.sockets i

/-- A checksum accepted without being right: the words with the field twice make zero. -/
def Deceives (frame : Frame) : Prop :=
  udpField frame ≠ 0 ∧ udpField frame ≠ 65535 ∧ (udpTotal frame + udpField frame) % 65535 = 0

/-- A datagram that some socket takes passes all checks but the one on the checksum. -/
def Deliverable (receiver : NetDevice) (udp : Udp) (frame : Frame) : Prop :=
  Ipv4Checked receiver frame ∧ UdpFits frame ∧
    ∃ i, i < udpSocketMax ∧ (udp.sockets i).takes (ipv4Dest frame) (word16 frame (udpStart frame + 2))

/-- A wrong checksum is noticed unless it is the one that deceives. -/
theorem wrongChecksumIgnored_iff (isUdp : ipv4Protocol frame = ipv4ProtoUdp) (whole : ¬Ipv4Fragment frame) :
    WrongChecksumIgnored receiver now slots udp frame ↔ ¬(Deliverable receiver udp frame ∧ Deceives frame) := by
  have input : udpReceive receiver now slots udp frame =
      if Ipv4Checked receiver frame then udpInput udp frame else none := by
    rw [udpReceive, ipv4Input]
    by_cases checked : Ipv4Checked receiver frame
    · rw [if_neg (not_not.mpr checked), if_neg whole, if_pos checked, Option.bind_some, if_pos isUdp]
    · rw [if_pos checked, if_neg checked]
      rfl
  rw [WrongChecksumIgnored, input]
  constructor
  · rintro ignored ⟨⟨checked, fits, i, small, takes⟩, nonzero, positive, twice⟩
    have intact : UdpIntact frame := (udpIntact_iff frame).mpr (.inr ⟨positive, twice⟩)
    have below := word16_lt frame (udpStart frame + 6)
    have same := ignored nonzero (by rw [udpField] at *; omega) _ _
      (by rw [if_pos checked, udpInput, if_neg (not_not.mpr fits), if_neg (not_not.mpr intact)]) i small
    simp only [small, takes, and_self, if_true] at same
    exact UdpSocket.not_queues _ _ (same ▸ UdpSocket.push_queues (udp.sockets i) _)
  · intro honest nonzero _ after call received i _
    split at received
    · rename_i checked
      rw [udpInput] at received
      split at received
      · simp at received
      rename_i fits
      split at received
      · simp at received
      rename_i intact
      obtain rfl := (Prod.mk.inj (Option.some.inj received)).1
      have twice := ((udpIntact_iff frame).mp (not_not.mp intact)).resolve_left nonzero
      refine if_neg fun takes => honest ⟨⟨checked, not_not.mp fits, i, takes⟩, nonzero, twice⟩
    · simp at received

/--
Datagrams arrive exactly under a condition on their words, their length and the sockets, and a wrong checksum is
noticed exactly unless it is the one that deceives.
-/
theorem udp_delivery_iff {sender : NetDevice} {destMac : Mac} {dest : UInt32} {destPort srcPort : UInt16}
    {payload : List UInt8} {receiver : NetDevice} {now : Nat} {slots : Ipv4Reassembly} {udp : Udp}
    (accepted : (udpSend sender destMac dest destPort srcPort payload).isSome) (owner : receiver.ipAddr = dest) :
    (DatagramArrives sender destMac dest destPort srcPort payload receiver now slots udp ↔
      udpWords sender.ipAddr dest srcPort destPort payload % 65535 = 0 ∧
        ipv4HdrLen + udpHdrLen + payload.length ≤ 65535 ∧
        ∀ i, i < udpSocketMax → (udp.sockets i).used → (udp.sockets i).localPort = destPort.toNat →
          (udp.sockets i).localIp = 0 ∨ (udp.sockets i).localIp = dest.toNat) ∧
      ∀ frame, ipv4Protocol frame = ipv4ProtoUdp → ¬Ipv4Fragment frame →
        (WrongChecksumIgnored receiver now slots udp frame ↔ ¬(Deliverable receiver udp frame ∧ Deceives frame)) := by
  refine ⟨?_, fun _ isUdp whole => wrongChecksumIgnored_iff isUdp whole⟩
  obtain ⟨frame, sent⟩ := Option.isSome_iff_exists.mp accepted
  have received := udpReceive_sent (udpSend_fields sent) owner now slots udp
  constructor
  · rintro ⟨other, after, call, sentToo, result, queued⟩
    obtain rfl : frame = other := Option.some.inj (sent.symm.trans sentToo)
    rw [received] at result
    split at result
    · rename_i passes
      refine ⟨passes.2, passes.1, fun i small used port => ?_⟩
      by_contra other
      have same := queued i small used port
      obtain rfl := (Prod.mk.inj (Option.some.inj result)).1
      have untaken : ¬(i < udpSocketMax ∧ (udp.sockets i).takes dest.toNat destPort.toNat) :=
        fun both => other both.2.2.2
      simp only [if_neg untaken] at same
      exact UdpSocket.not_queues _ _ same
    · simp at result
  · rintro ⟨zero, short, addressed⟩
    rw [if_pos ⟨short, zero⟩] at received
    refine ⟨frame, _, _, sent, received, fun i small used port => ?_⟩
    simp only [if_pos (show i < udpSocketMax ∧ (udp.sockets i).takes dest.toNat destPort.toNat from
      ⟨small, used, port, addressed i small used port⟩)]
    exact UdpSocket.push_queues _ _

/-- One socket, bound to port 7. -/
def echoSockets : Udp := ⟨fun i => ⟨i = 0, 0, 7, 0, 0, 0, fun _ => ⟨[], 0, 0⟩, by decide⟩, []⟩

/-- From port 9 to port 7 the two bytes `EB C7` make the words a multiple of 65535. -/
theorem udp_delivery_iff_matching_words :
    DatagramArrives (smallHost 1) ⟨[2, 0, 0, 0, 0, 2], rfl⟩ 0x0A000002 7 9 [0xEB, 0xC7] (smallHost 2) 0
      (ipv4Init fun _ => none) echoSockets := by
  refine (udp_delivery_iff (by decide +kernel) (by decide)).1.mpr
    ⟨by decide +kernel, by decide, fun i _ _ _ => .inl rfl⟩

/-- A datagram of one byte is sent, and fails the check of the checksum where it arrives. -/
theorem datagram_dropped :
    (udpSend (smallHost 1) ⟨[2, 0, 0, 0, 0, 2], rfl⟩ 0x0A000002 7 9 [0x41]).isSome ∧
      (smallHost 2).ipAddr = 0x0A000002 ∧
      ¬DatagramArrives (smallHost 1) ⟨[2, 0, 0, 0, 0, 2], rfl⟩ 0x0A000002 7 9 [0x41] (smallHost 2) 0
        (ipv4Init fun _ => none) echoSockets := by
  refine ⟨by decide +kernel, by decide, ?_⟩
  rintro ⟨frame, after, call, sent, received, -⟩
  have dropped : (udpSend (smallHost 1) ⟨[2, 0, 0, 0, 0, 2], rfl⟩ 0x0A000002 7 9 [0x41]).all (fun frame =>
      (udpReceive (smallHost 2) 0 (ipv4Init fun _ => none) echoSockets frame).isNone) = true := by decide +kernel
  rw [sent, Option.all_some, received] at dropped
  simp at dropped

end Galio

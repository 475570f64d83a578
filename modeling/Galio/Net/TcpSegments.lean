import Galio.Net.Ipv4Laws
import Galio.Net.TcpTable

/-! TCP segments in packets: the checksum that is sent and the one that is expected. -/

namespace Galio

open OnesComplement List

/-- The bytes of `struct tcp_hdr`. -/
def tcpHdrLen : Nat := 20

/-- `tcp_checksum`: the pseudo header, the header without options, and the payload. -/
def tcpChecksum (source dest : Nat) (header payload : List UInt8) : Nat :=
  let sum := accumulate (accumulate (pseudoSum source dest ipv4ProtoTcp (tcpHdrLen + payload.length)) header) payload
  65535 - foldAll sum sum

/-- The header that `tcp_send_segment` fills in, with some checksum. -/
def tcpHeader (conn : TcpConnection) (flags : UInt8) (field : Nat) : List UInt8 :=
  bytes16 conn.tuple.srcPort ++ bytes16 conn.tuple.destPort ++ bytes32 conn.seq.toNat ++ bytes32 conn.remoteSeq.toNat ++
    [0x50, flags] ++ bytes16 4096 ++ bytes16 field ++ bytes16 0

/-- The frame that `tcp_send_segment` builds on the routed device. -/
def tcpFrame (device : NetDevice) (destMac : Mac) (dest : UInt32) (conn : TcpConnection) (payload : List UInt8)
    (flags : UInt8) : Option Frame :=
  if ¬device.reaches dest then none
  else
    let field := tcpChecksum device.ipAddr.toNat dest.toNat (tcpHeader conn flags 0) payload
    some (ipv4Packet device destMac dest ipv4ProtoTcp (tcpHeader conn flags field ++ payload))

/-- The place of the TCP header in a packet. -/
def tcpStart (frame : Frame) : Nat := ethHdrLen + ipv4Ihl frame

/-- The length of the TCP header with its options. -/
def tcpHeaderLength (frame : Frame) : Nat := octet frame (tcpStart frame + 12) / 16 * 4

/-- `checksum` of the TCP header. -/
def tcpField (frame : Frame) : Nat := word16 frame (tcpStart frame + 16)

/-- The payload of a segment whose header is inside of the packet. -/
def tcpPayload (frame : Frame) : List UInt8 :=
  slice frame (tcpStart frame + tcpHeaderLength frame) (ipv4TotLen frame - ipv4Ihl frame - tcpHeaderLength frame)

/-- The checks of `tcp_input` on lengths. -/
def TcpFits (frame : Frame) : Prop :=
  ethHdrLen + ipv4HdrLen + tcpHdrLen ≤ frame.length ∧ ipv4HdrLen ≤ ipv4Ihl frame ∧
    ipv4Ihl frame + tcpHdrLen ≤ ipv4TotLen frame ∧ tcpHdrLen ≤ tcpHeaderLength frame ∧
    tcpStart frame + tcpHeaderLength frame ≤ frame.length

instance (frame : Frame) : Decidable (TcpFits frame) := inferInstanceAs (Decidable (_ ∧ _))

/-- The check of `tcp_input` on the checksum. -/
def TcpIntact (frame : Frame) : Prop :=
  tcpField frame =
    tcpChecksum (ipv4Src frame) (ipv4Dest frame) (slice frame (tcpStart frame) tcpHdrLen) (tcpPayload frame)

instance (frame : Frame) : Decidable (TcpIntact frame) := inferInstanceAs (Decidable (_ = _))

/-- The segment that `tcp_input` reads from a packet. -/
def tcpSegment (frame : Frame) : TcpSegment where
  srcIp := ipv4Src frame
  srcPort := word16 frame (tcpStart frame)
  destIp := ipv4Dest frame
  destPort := word16 frame (tcpStart frame + 2)
  seq := UInt32.ofNat (word32 frame (tcpStart frame + 4))
  ack := UInt32.ofNat (word32 frame (tcpStart frame + 8))
  flags := octet frame (tcpStart frame + 13)
  payload := tcpPayload frame
  intact := TcpIntact frame

lemma tcpChecksum_eq {source dest : Nat} {header : List UInt8} (size : header.length = tcpHdrLen)
    (payload : List UInt8) : tcpChecksum source dest header payload =
      checksum (pseudoSum source dest ipv4ProtoTcp (tcpHdrLen + payload.length)) (header ++ payload) := by
  rw [checksum, accumulate_append (by rw [size]; rfl)]
  rfl

/-- The words both sides sum: pseudo header without options, header and payload. -/
def tcpWords (frame : Frame) : Nat :=
  pseudoSum (ipv4Src frame) (ipv4Dest frame) ipv4ProtoTcp (tcpHdrLen + (tcpPayload frame).length) +
    (wordSum (slice frame (tcpStart frame) tcpHdrLen) + wordSum (tcpPayload frame))

/-- The options and their length, which only the right sum has. -/
def tcpOptionWords (frame : Frame) : Nat :=
  tcpHeaderLength frame - tcpHdrLen +
    wordSum (slice frame (tcpStart frame + tcpHdrLen) (tcpHeaderLength frame - tcpHdrLen))

/-- The checksum over pseudo header, header with options and payload is right. -/
def TcpCorrect (frame : Frame) : Prop :=
  (pseudoSum (ipv4Src frame) (ipv4Dest frame) ipv4ProtoTcp (ipv4TotLen frame - ipv4Ihl frame) +
    wordSum (slice frame (tcpStart frame) (ipv4TotLen frame - ipv4Ihl frame))) % 65535 = 0

/-- A segment inside its packet: the lengths pass, and the header ends in the packet. -/
structure WholeSegment (frame : Frame) : Prop where
  fits : TcpFits frame
  packet : ethHdrLen + ipv4TotLen frame ≤ frame.length
  header : ipv4Ihl frame + tcpHeaderLength frame ≤ ipv4TotLen frame

variable {frame : Frame}

lemma slice_length {start length : Nat} (inside : start + length ≤ frame.length) :
    (slice frame start length).length = length := by
  rw [slice, length_take, length_drop]
  omega

lemma slice_append (frame : Frame) (start first second : Nat) :
    slice frame start (first + second) = slice frame start first ++ slice frame (start + first) second := by
  rw [slice, slice, slice, take_add, drop_drop]

lemma tcpIntact_iff (whole : WholeSegment frame) :
    TcpIntact frame ↔ tcpField frame ≠ 65535 ∧ (tcpWords frame + tcpField frame) % 65535 = 0 := by
  obtain ⟨fits, _, _⟩ := whole
  have room : tcpStart frame + tcpHdrLen ≤ frame.length := (Nat.add_le_add_left fits.2.2.2.1 _).trans fits.2.2.2.2
  have size := slice_length room
  have positive := pseudoSum_pos (ipv4Src frame) (ipv4Dest frame) (tcpHdrLen + (tcpPayload frame).length)
    (by decide : 0 < ipv4ProtoTcp)
  have small := word16_lt frame (tcpStart frame + 16)
  have even : (slice frame (tcpStart frame) tcpHdrLen).length % 2 = 0 := by rw [size]; rfl
  rw [TcpIntact, tcpChecksum_eq size, eq_checksum_iff (by omega) (by rw [tcpField]; omega), wordSum_append even]
  rfl

lemma tcpCorrect_iff (whole : WholeSegment frame) :
    TcpCorrect frame ↔ (tcpWords frame + tcpOptionWords frame) % 65535 = 0 := by
  obtain ⟨fits, packet, header⟩ := whole
  have start : tcpStart frame = ethHdrLen + ipv4Ihl frame := rfl
  have least := fits.2.2.2.1
  have total := word16_lt frame (ethHdrLen + 2)
  have multiple : tcpHeaderLength frame % 4 = 0 := by
    rw [tcpHeaderLength]
    omega
  have twenty : tcpHdrLen = 20 := rfl
  have length : ipv4TotLen frame - ipv4Ihl frame = tcpHdrLen + ((tcpHeaderLength frame - tcpHdrLen) +
      (ipv4TotLen frame - ipv4Ihl frame - tcpHeaderLength frame)) := by omega
  have payload : (tcpPayload frame).length = ipv4TotLen frame - ipv4Ihl frame - tcpHeaderLength frame :=
    slice_length (by omega)
  have first : (slice frame (tcpStart frame) tcpHdrLen).length = tcpHdrLen := slice_length (by omega)
  have second : (slice frame (tcpStart frame + tcpHdrLen) (tcpHeaderLength frame - tcpHdrLen)).length =
      tcpHeaderLength frame - tcpHdrLen := slice_length (by omega)
  have last : slice frame (tcpStart frame + tcpHdrLen + (tcpHeaderLength frame - tcpHdrLen))
      (ipv4TotLen frame - ipv4Ihl frame - tcpHeaderLength frame) = tcpPayload frame := by
    congr 1
    omega
  have words : wordSum (slice frame (tcpStart frame) (ipv4TotLen frame - ipv4Ihl frame)) =
      wordSum (slice frame (tcpStart frame) tcpHdrLen) +
        (wordSum (slice frame (tcpStart frame + tcpHdrLen) (tcpHeaderLength frame - tcpHdrLen)) +
          wordSum (tcpPayload frame)) := by
    rw [length, slice_append, slice_append, last, wordSum_append (by rw [first]; rfl),
      wordSum_append (by omega)]
  have pseudo : pseudoSum (ipv4Src frame) (ipv4Dest frame) ipv4ProtoTcp (ipv4TotLen frame - ipv4Ihl frame) =
      pseudoSum (ipv4Src frame) (ipv4Dest frame) ipv4ProtoTcp (tcpHdrLen + (tcpPayload frame).length) +
        (tcpHeaderLength frame - tcpHdrLen) := by
    rw [ipv4TotLen] at *
    simp only [pseudoSum]
    omega
  rw [TcpCorrect, tcpWords, tcpOptionWords]
  constructor <;> (intro zero; rw [← zero]; congr 1; omega)

/-- `tcp_input` finds a connection and goes past the checksum. -/
def GoesPast (tcp : Tcp) (frame : Frame) : Prop :=
  TcpFits frame ∧ (tcpLookup tcp (tcpSegment frame).tuple).isSome ∧ (tcpSegment frame).intact = true

/-- The words of a segment to be sent, with the pseudo header and without a checksum. -/
def sentWords (source dest : UInt32) (conn : TcpConnection) (flags : UInt8) (payload : List UInt8) : Nat :=
  pseudoSum source.toNat dest.toNat ipv4ProtoTcp (tcpHdrLen + payload.length) +
    (wordSum (tcpHeader conn flags 0) + wordSum payload)

/-- The length of a packet with a payload, as its header can store it. -/
def storedLength (payload : List UInt8) : Nat := (ipv4HdrLen + tcpHdrLen + payload.length) % 65536

/-- The payload that is read from a packet with the stored length. -/
def readPayload (payload : List UInt8) : List UInt8 := payload.take (storedLength payload - (ipv4HdrLen + tcpHdrLen))

variable {tcp : Tcp}

section Send

variable {device receiver : NetDevice} {destMac : Mac} {dest : UInt32} {conn : TcpConnection} {flags : UInt8}
  {payload : List UInt8} {field : Nat}

lemma tcpHeader_length (field : Nat) : (tcpHeader conn flags field).length = tcpHdrLen := by
  simp [tcpHeader, bytes16, bytes32, tcpHdrLen]

lemma wordSum_tcpHeader (small : field < 65536) :
    wordSum (tcpHeader conn flags field) = wordSum (tcpHeader conn flags 0) + field := by
  have general : ∀ n, wordSum (tcpHeader conn flags n) = wordSum (bytes16 conn.tuple.srcPort ++
      bytes16 conn.tuple.destPort ++ bytes32 conn.seq.toNat ++ bytes32 conn.remoteSeq.toNat ++ [0x50, flags] ++
      bytes16 4096) + (n % 65536 + wordSum (bytes16 0)) := by
    intro n
    rw [tcpHeader, append_assoc, wordSum_append (by simp [bytes16, bytes32]), wordSum_bytes16]
  rw [general, general 0]
  omega

lemma tcpFrame_read {source : UInt32}
    (packet : PacketFields frame source dest ipv4ProtoTcp (tcpHeader conn flags field ++ payload))
    (small : field < 65535) : (TcpFits frame ↔ ipv4HdrLen + tcpHdrLen ≤ storedLength payload) ∧
      (TcpFits frame → tcpField frame = field ∧ WholeSegment frame ∧
        tcpWords frame = sentWords source dest conn flags (readPayload payload) + field) := by
  have size : (tcpHeader conn flags field).length = tcpHdrLen := tcpHeader_length field
  have start : tcpStart frame = ethHdrLen + ipv4HdrLen := by rw [tcpStart, packet.ihl]
  have total : ipv4TotLen frame = storedLength payload := by
    rw [packet.totLen, length_append, size, storedLength, Nat.add_assoc]
  have whole : frame.length = ethHdrLen + ipv4HdrLen + (tcpHdrLen + payload.length) := by
    rw [packet.length, length_append, size]
  have behind : frame.drop (tcpStart frame) = tcpHeader conn flags field ++ payload := by rw [start, packet.body]
  have offset : tcpHeaderLength frame = tcpHdrLen := by
    have stored : octet (tcpHeader conn flags field ++ payload) 12 = 0x50 := rfl
    have read : octet frame (tcpStart frame + 12) = octet (frame.drop (tcpStart frame)) 12 := by
      simp only [octet, getD_eq_getElem?_getD, getElem?_drop]
    rw [tcpHeaderLength, read, behind, stored]
    rfl
  have below : storedLength payload ≤ ipv4HdrLen + tcpHdrLen + payload.length := Nat.mod_le _ _
  have fits : TcpFits frame ↔ ipv4HdrLen + tcpHdrLen ≤ storedLength payload := by
    rw [TcpFits, packet.ihl]
    omega
  refine ⟨fits, fun fitting => ?_⟩
  have enough := fits.mp fitting
  have written : tcpField frame = field := by
    have stored : word16 (tcpHeader conn flags field ++ payload) 16 = field % 65536 := bytes16_value _
    rw [tcpField, ← word16_drop, behind]
    omega
  have header : slice frame (tcpStart frame) tcpHdrLen = tcpHeader conn flags field := by
    rw [slice, behind, ← size, take_left]
  have content : tcpPayload frame = readPayload payload := by
    rw [tcpPayload, slice, ← drop_drop, behind, offset, ← size, drop_left, total, packet.ihl,
      readPayload, size,
      Nat.sub_sub]
  refine ⟨written, ⟨fitting, by omega, by rw [packet.ihl, offset, total]; exact enough⟩, ?_⟩
  rw [tcpWords, header, content, packet.source, packet.dest, wordSum_tcpHeader (by omega), sentWords]
  omega

/-- A segment that is sent is accepted exactly if its words, doubled, are those that are read. -/
theorem tcpFrame_accepted_iff (sent : tcpFrame device destMac dest conn payload flags = some frame)
    (owner : receiver.ipAddr = dest) (now : Nat) (slots : Ipv4Reassembly)
    (known : (tcpLookup tcp (tcpSegment frame).tuple).isSome) :
    (∃ packet, (ipv4Input receiver now slots frame).2 = some packet ∧ GoesPast tcp packet) ↔
      ipv4HdrLen + tcpHdrLen ≤ storedLength payload ∧ 2 * sentWords device.ipAddr dest conn flags payload % 65535 =
          sentWords device.ipAddr dest conn flags (readPayload payload) % 65535 := by
  unfold tcpFrame at sent
  split at sent
  · simp at sent
  cases sent
  have size : (tcpHeader conn flags 0).length = tcpHdrLen := tcpHeader_length 0
  have positive := pseudoSum_pos device.ipAddr.toNat dest.toNat (tcpHdrLen + payload.length)
    (by decide : 0 < ipv4ProtoTcp)
  generalize found : tcpChecksum device.ipAddr.toNat dest.toNat (tcpHeader conn flags 0) payload = field at *
  rw [tcpChecksum_eq size] at found
  obtain ⟨small, zero⟩ := checksum_spec (Nat.add_pos_left positive (wordSum (tcpHeader conn flags 0 ++ payload)))
  rw [wordSum_append (by rw [size]; rfl)] at zero
  rw [found] at small
  have packet : PacketFields (ipv4Packet device destMac dest ipv4ProtoTcp (tcpHeader conn flags field ++ payload))
      device.ipAddr dest ipv4ProtoTcp (tcpHeader conn flags field ++ payload) := ipv4Packet_fields
  obtain ⟨fits, read⟩ := tcpFrame_read packet small
  have input := ipv4Input_packet packet owner now slots
  have whole : (tcpHeader conn flags field ++ payload).length = tcpHdrLen + payload.length := by
    rw [length_append, tcpHeader_length]
  have stored : (ipv4HdrLen + (tcpHeader conn flags field ++ payload).length) % 65536 = storedLength payload := by
    rw [whole, storedLength, Nat.add_assoc]
  have intact : TcpFits (ipv4Packet device destMac dest ipv4ProtoTcp (tcpHeader conn flags field ++ payload)) →
      ((tcpSegment (ipv4Packet device destMac dest ipv4ProtoTcp (tcpHeader conn flags field ++ payload))).intact ↔
        2 * sentWords device.ipAddr dest conn flags payload % 65535 =
          sentWords device.ipAddr dest conn flags (readPayload payload) % 65535) := by
    intro fitting
    obtain ⟨written, segment, words⟩ := read fitting
    have test := tcpIntact_iff segment
    rw [tcpSegment, decide_eq_true_iff, test, sentWords]
    rw [sentWords] at *
    omega
  constructor
  · rintro ⟨other, handed, fitting, -, accepted⟩
    rw [input] at handed
    split at handed
    · cases handed
      exact ⟨fits.mp fitting, (intact fitting).mp accepted⟩
    · simp at handed
  · rintro ⟨enough, doubled⟩
    have fitting := fits.mpr enough
    exact ⟨_, by rw [input, if_pos (by omega)], fitting, known, (intact fitting).mpr doubled⟩

end Send

/-- The check on the checksum tells right from wrong for a segment. -/
def CheckedRightly (tcp : Tcp) (frame : Frame) : Prop := GoesPast tcp frame ↔ TcpCorrect frame

/-- The words make zero with the options exactly if they do with the field, or with neither. -/
def SumsAgree (frame : Frame) : Prop :=
  tcpField frame ≠ 65535 ∧ tcpField frame % 65535 = tcpOptionWords frame % 65535 ∨
    (tcpWords frame + tcpOptionWords frame) % 65535 ≠ 0 ∧
      (tcpField frame = 65535 ∨ (tcpWords frame + tcpField frame) % 65535 ≠ 0)

lemma checkedRightly_iff (whole : WholeSegment frame)
    (known : (tcpLookup tcp (tcpSegment frame).tuple).isSome) : CheckedRightly tcp frame ↔ SumsAgree frame := by
  have past : GoesPast tcp frame ↔ TcpIntact frame := by
    rw [GoesPast, tcpSegment, decide_eq_true_iff]
    exact ⟨fun all => all.2.2, fun intact => ⟨whole.fits, known, intact⟩⟩
  rw [CheckedRightly, past, tcpIntact_iff whole, tcpCorrect_iff whole, SumsAgree]
  omega

/--
Segments for a connection are checked rightly exactly if the two sums agree, and a segment that is sent is accepted
exactly if its words, doubled, are those that are read.
-/
theorem tcp_acceptance_iff {tcp : Tcp} (known : (tcpLookup tcp (tcpSegment frame).tuple).isSome) :
    (WholeSegment frame → (CheckedRightly tcp frame ↔ SumsAgree frame)) ∧
      ∀ (device : NetDevice) (destMac : Mac) (conn : TcpConnection) (payload : List UInt8) (flags : UInt8)
        (receiver : NetDevice) (now : Nat) (slots : Ipv4Reassembly),
        tcpFrame device destMac receiver.ipAddr conn payload flags = some frame →
        ((∃ packet, (ipv4Input receiver now slots frame).2 = some packet ∧ GoesPast tcp packet) ↔
          ipv4HdrLen + tcpHdrLen ≤ storedLength payload ∧
            2 * sentWords device.ipAddr receiver.ipAddr conn flags payload % 65535 =
              sentWords device.ipAddr receiver.ipAddr conn flags (readPayload payload) % 65535) :=
  ⟨fun whole => checkedRightly_iff whole known, fun _ _ _ _ _ _ now slots sent =>
    tcpFrame_accepted_iff sent rfl now slots known⟩

/-- A server at 10.0.0.2, port 80, with a connection from port 30000 of 10.0.0.1. -/
def smallServer : Tcp :=
  tcpStep (tcpStep tcpInit (.listen 0 80 1)) (.input ⟨0, fun _ => some 0x0A000002⟩
    ⟨0x0A000001, 30000, 0x0A000002, 80, 0x1000, 0, tcpFlagSyn, [], true⟩)

/-- The client of that connection. -/
def smallClient : TcpConnection :=
  { activeConnection 0 ⟨0x0A000001, 30000, 0x0A000002, 80⟩ with
    seq := 0x1001, remoteSeq := 0x1001, state := .established }

/-- An acknowledgement of the client with some payload. -/
def smallFrame (payload : List UInt8) : Frame :=
  (tcpFrame (smallHost 1) ⟨[2, 0, 0, 0, 0, 2], rfl⟩ 0x0A000002 smallClient payload 0x10).getD []

/-- With the two bytes `F6 4D` the words make zero, and the segment is accepted. -/
theorem tcp_acceptance_iff_matching_words :
    ∃ packet, (ipv4Input (smallHost 2) 0 (ipv4Init fun _ => none) (smallFrame [0xF6, 0x4D])).2 = some packet ∧
      GoesPast smallServer packet := by
  have known : (tcpLookup smallServer (tcpSegment (smallFrame [0xF6, 0x4D])).tuple).isSome := by decide +kernel
  have sent : tcpFrame (smallHost 1) ⟨[2, 0, 0, 0, 0, 2], rfl⟩ (smallHost 2).ipAddr smallClient [0xF6, 0x4D] 0x10 =
      some (smallFrame [0xF6, 0x4D]) := by decide +kernel
  exact ((tcp_acceptance_iff known).2 _ _ _ _ _ _ _ _ sent).mpr (by decide +kernel)

/-- The acknowledgement has the right checksum and is for a connection, and does not get past the check. -/
theorem right_segment_refused :
    WholeSegment (smallFrame []) ∧ (tcpLookup smallServer (tcpSegment (smallFrame [])).tuple).isSome ∧
      ¬CheckedRightly smallServer (smallFrame []) := by
  refine ⟨⟨by decide +kernel, by decide +kernel, by decide +kernel⟩, by decide +kernel, fun rightly => ?_⟩
  have correct : TcpCorrect (smallFrame []) := by unfold TcpCorrect; decide +kernel
  have refused : (tcpSegment (smallFrame [])).intact = false := by decide +kernel
  simp [(rightly.mpr correct).2.2] at refused

end Galio

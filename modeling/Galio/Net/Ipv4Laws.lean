import Galio.Net.Ipv4

/-! Fields of frames, and what `ipv4_input` makes of the packets that are sent. -/

namespace Galio

open OnesComplement List

lemma octet_append (front rest : List UInt8) (a : Nat) : octet (front ++ rest)
    (front.length + a) = octet rest a := by
  simp only [octet, getD_eq_getElem?_getD]
  rw [getElem?_append_right (Nat.le_add_right _ _), Nat.add_sub_cancel_left]

lemma word16_append (front rest : List UInt8) (a : Nat) :
    word16 (front ++ rest) (front.length + a) = word16 rest a := by
  rw [word16, word16, octet_append, Nat.add_assoc, octet_append]

lemma word32_append (front rest : List UInt8) (a : Nat) :
    word32 (front ++ rest) (front.length + a) = word32 rest a := by
  rw [word32, word32, word16_append, Nat.add_assoc, word16_append]

lemma word16_drop (frame : Frame) (start a : Nat) : word16 (frame.drop start) a = word16 frame (start + a) := by
  simp only [word16, octet, getD_eq_getElem?_getD, getElem?_drop, Nat.add_assoc]

lemma octet_lt (frame : Frame) (a : Nat) : octet frame a < 256 := UInt8.toNat_lt _

lemma word16_lt (frame : Frame) (a : Nat) : word16 frame a < 65536 := by
  have high := octet_lt frame a
  have low := octet_lt frame (a + 1)
  rw [word16]
  omega

lemma bytes16_value (n : Nat) : (UInt8.ofNat (n / 256)).toNat * 256 + (UInt8.ofNat n).toNat = n % 65536 := by
  simp only [UInt8.toNat_ofNat']
  omega

lemma word32_bytes32 (n : UInt32) (rest : List UInt8) : word32 (bytes32 n.toNat ++ rest) 0 = n.toNat := by
  have high : word16 (bytes32 n.toNat ++ rest) 0 = n.toNat / 65536 % 65536 := bytes16_value _
  have low : word16 (bytes32 n.toNat ++ rest) 2 = n.toNat % 65536 := bytes16_value _
  have small := n.toNat_lt
  rw [word32, low]
  omega

lemma wordSum_bytes16 (n : Nat) (rest : List UInt8) : wordSum (bytes16 n ++ rest) = n % 65536 + wordSum rest := by
  rw [bytes16, cons_append, cons_append, nil_append, wordSum, bytes16_value]

lemma ipv4Checksum_filled {front : List UInt8} (even : front.length % 2 = 0) (positive : 0 < wordSum front)
    (back : List UInt8) :
    ipv4Checksum (front ++ bytes16 (ipv4Checksum (front ++ bytes16 0 ++ back)) ++ back) = 0 := by
  have filled : ∀ n, wordSum (front ++ bytes16 n ++ back) = wordSum front + (n % 65536 + wordSum back) := by
    intro n
    rw [append_assoc, wordSum_append even, wordSum_bytes16]
  obtain ⟨small, zero⟩ : ipv4Checksum (front ++ bytes16 0 ++ back) < 65535 ∧
      (0 + wordSum (front ++ bytes16 0 ++ back) + ipv4Checksum (front ++ bytes16 0 ++ back)) % 65535 = 0 :=
    checksum_spec (by rw [filled]; omega)
  rw [filled 0] at zero
  unfold ipv4Checksum at small zero ⊢
  rw [checksum_eq_zero_iff (by rw [filled]; omega), filled]
  omega

variable {protocol : Nat}

lemma pseudoSum_pos (source dest length : Nat) (positive : 0 < protocol) :
    0 < pseudoSum source dest protocol length := by
  rw [pseudoSum]
  omega

section Packet

variable {device : NetDevice} {destMac : Mac} {dest : UInt32} {body : List UInt8}

/-- The header of a packet up to its checksum. -/
def packetFront (protocol size : Nat) : List UInt8 :=
  [0x45, 0] ++ bytes16 (ipv4HdrLen + size) ++ bytes16 0 ++ bytes16 0x4000 ++ [64, UInt8.ofNat protocol]

/-- The checksum of its header. -/
def packetChecksum (source dest : UInt32) (protocol size : Nat) : Nat :=
  ipv4Checksum (packetFront protocol size ++ bytes16 0 ++ (bytes32 source.toNat ++ bytes32 dest.toNat))

/-- The header of a packet. -/
def packetHeader (source dest : UInt32) (protocol size : Nat) : List UInt8 :=
  packetFront protocol size ++ bytes16 (packetChecksum source dest protocol size) ++
    (bytes32 source.toNat ++ bytes32 dest.toNat)

/-- The fields of a packet that is sent. -/
structure PacketFields (frame : Frame) (source dest : UInt32) (protocol : Nat) (body : List UInt8) : Prop where
  length : frame.length = ethHdrLen + ipv4HdrLen + body.length
  version : octet frame ethHdrLen / 16 = 4
  ihl : ipv4Ihl frame = ipv4HdrLen
  totLen : ipv4TotLen frame = (ipv4HdrLen + body.length) % 65536
  whole : ¬Ipv4Fragment frame
  protocol : ipv4Protocol frame = protocol % 256
  source : ipv4Src frame = source.toNat
  dest : ipv4Dest frame = dest.toNat
  checksum : ipv4Checksum (slice frame ethHdrLen ipv4HdrLen) = 0
  body : frame.drop (ethHdrLen + ipv4HdrLen) = body

lemma ipv4Packet_fields :
    PacketFields (ipv4Packet device destMac dest protocol body) device.ipAddr dest protocol body := by
  obtain ⟨link, length, parts⟩ :
      ∃ link : List UInt8, link.length = ethHdrLen ∧ ipv4Packet device destMac dest protocol body =
        link ++ (packetHeader device.ipAddr dest protocol body.length ++ body) := by
    refine ⟨destMac.val ++ device.mac.val ++ bytes16 0x0800, ?_, ?_⟩
    · simp [destMac.property, device.mac.property, bytes16, ethHdrLen]
    · simp [ipv4Packet, packetHeader, packetFront, packetChecksum]
  have headed : (packetHeader device.ipAddr dest protocol body.length).length = ipv4HdrLen := by
    simp [packetHeader, packetFront, bytes16, bytes32, ipv4HdrLen]
  have start : octet (link ++ (packetHeader device.ipAddr dest protocol body.length ++ body)) ethHdrLen = 0x45 := by
    rw [← length]
    exact octet_append link _ 0
  have flags : ipv4FragOff (link ++ (packetHeader device.ipAddr dest protocol body.length ++ body)) = 0x4000 := by
    rw [ipv4FragOff, ← length, word16_append]
    exact bytes16_value 0x4000
  rw [parts]
  refine ⟨?_, ?_, ?_, ?_, ?_, ?_, ?_, ?_, ?_, ?_⟩
  · simp only [length_append, length, headed, Nat.add_assoc]
  · rw [start]
  · rw [ipv4Ihl, start]
    rfl
  · rw [ipv4TotLen, ← length, word16_append]
    exact bytes16_value _
  · rw [Ipv4Fragment, flags]
    decide
  · rw [ipv4Protocol, ← length, octet_append]
    exact UInt8.toNat_ofNat'
  · rw [ipv4Src, ← length, word32_append]
    exact word32_bytes32 _ (bytes32 dest.toNat ++ body)
  · rw [ipv4Dest, ← length, word32_append]
    exact word32_bytes32 _ body
  · rw [slice, ← length, drop_left, ← headed, take_left]
    exact ipv4Checksum_filled (by simp [packetFront, bytes16]) (by simp [packetFront, wordSum])
      (bytes32 device.ipAddr.toNat ++ bytes32 dest.toNat)
  · rw [← append_assoc, ← headed, ← length, ← length_append, drop_left]

lemma ipv4Input_packet {frame : Frame} {source : UInt32}
    (fields : PacketFields frame source dest protocol body) {receiver : NetDevice} (owner : receiver.ipAddr = dest)
    (now : Nat) (slots : Ipv4Reassembly) : (ipv4Input receiver now slots frame).2 =
      if ipv4HdrLen ≤ (ipv4HdrLen + body.length) % 65536 then some frame else none := by
  have checked : Ipv4Checked receiver frame ↔ ipv4HdrLen ≤ (ipv4HdrLen + body.length) % 65536 := by
    unfold Ipv4Checked
    rw [fields.length, fields.ihl, fields.totLen, fields.dest, fields.checksum, owner]
    simp only [fields.version, true_or, and_true, true_and]
    omega
  unfold ipv4Input
  by_cases short : ipv4HdrLen ≤ (ipv4HdrLen + body.length) % 65536
  · rw [if_neg (not_not.mpr (checked.mpr short)), if_neg fields.whole, if_pos short]
  · rw [if_pos (fun checks => short (checked.mp checks)), if_neg short]

end Packet

/-- The device of a host at 10.0.0.`k`. -/
def smallHost (k : UInt32) : NetDevice := ⟨k.toNat, 0x0A000000 + k, 0xFFFFFF00, 0, ⟨[2, 0, 0, 0, 0, 1], rfl⟩⟩

end Galio

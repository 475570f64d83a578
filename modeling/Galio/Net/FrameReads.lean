import Galio.Net.TcpSegments
import Galio.Net.Udp

/-! The bytes of a frame that `ipv4_input` and the protocols above it read, and the lengths they subtract. -/

namespace Galio

/-- Bytes read by a field, a checksum loop or a copy; or a subtraction of lengths. -/
inductive Access where
  | read (start length : Nat)
  | subtract (minuend subtrahend : Nat)
  deriving DecidableEq

/-- The bytes are inside of the frame; the difference is not below zero. -/
def Access.Safe (frame : Frame) : Access → Prop
  | .read start length => length = 0 ∨ start + length ≤ frame.length
  | .subtract minuend subtrahend => subtrahend ≤ minuend

/-- All accesses are safe. -/
def AllSafe (frame : Frame) (accesses : List Access) : Prop := ∀ access ∈ accesses, access.Safe frame

variable {frame : Frame} {rest : List Access}

@[simp] lemma allSafe_nil (frame : Frame) : AllSafe frame [] := fun _ member => by cases member

@[simp] lemma allSafe_guard {stops : Prop} [Decidable stops] :
    AllSafe frame (if stops then [] else rest) ↔ (¬stops → AllSafe frame rest) := by
  by_cases stop : stops <;> simp [stop]

@[simp] lemma allSafe_branch {goes : Prop} [Decidable goes] :
    AllSafe frame (if goes then rest else []) ↔ (goes → AllSafe frame rest) := by
  by_cases go : goes <;> simp [go]

@[simp] lemma allSafe_cons {access : Access} :
    AllSafe frame (access :: rest) ↔ access.Safe frame ∧ AllSafe frame rest := List.forall_mem_cons

@[simp] lemma allSafe_append {first second : List Access} :
    AllSafe frame (first ++ second) ↔ AllSafe frame first ∧ AllSafe frame second := List.forall_mem_append

def ipv4ProtoIcmp : Nat := 1

/-- `icmpv4_input`, with the copy of `icmpv4_send_reply`. -/
def icmpv4InputAccesses (frame : Frame) : List Access :=
  let headerLength := ipv4Ihl frame
  let totalLength := ipv4TotLen frame
  if frame.length < ethHdrLen + ipv4HdrLen then []
  else .read ethHdrLen 1 :: .read (ethHdrLen + 2) 2 ::
    if headerLength < ipv4HdrLen ∨ totalLength < headerLength then []
    else if frame.length < ethHdrLen + totalLength then []
    else .subtract totalLength headerLength ::
      if totalLength - headerLength < 8 then []
      else .read (ethHdrLen + headerLength) (totalLength - headerLength) ::
        if ipv4Checksum (slice frame (ethHdrLen + headerLength) (totalLength - headerLength)) ≠ 0 then []
        else .read (ethHdrLen + headerLength) 2 ::
          if octet frame (ethHdrLen + headerLength) = 8 ∧ octet frame (ethHdrLen + headerLength + 1) = 0 then
            [.read 0 (ethHdrLen + totalLength)]
          else []

/-- `udp_input`. -/
def udpInputAccesses (udp : Udp) (frame : Frame) : List Access :=
  if frame.length < ethHdrLen + ipv4HdrLen + udpHdrLen then []
  else .read ethHdrLen 1 ::
    if ipv4Ihl frame < ipv4HdrLen then []
    else .read (udpStart frame + 4) 2 ::
      if udpLen frame < udpHdrLen then []
      else if frame.length < udpStart frame + udpLen frame then []
      else .read (udpStart frame) 4 :: .subtract (udpLen frame) udpHdrLen :: .read (udpStart frame + 6) 2 ::
        ((if udpField frame ≠ 0 then [.read (ethHdrLen + 12) 8, .read (udpStart frame) (udpLen frame)] else []) ++
        if ¬UdpIntact frame then []
        else .read (ethHdrLen + 12) 8 ::
          if ∃ i < udpSocketMax, (udp.sockets i).takes (ipv4Dest frame) (word16 frame (udpStart frame + 2)) then
            [.read (udpStart frame + udpHdrLen) (min (udpLen frame - udpHdrLen) udpSocketPayload)]
          else [])

/-- `packet_data_len` of `tcp_input`, a number of 32 bits. -/
def tcpDataLength (frame : Frame) : Nat :=
  (ipv4TotLen frame + 2 ^ 32 - (ipv4Ihl frame + tcpHeaderLength frame)) % 2 ^ 32

/-- `tcp_input`; the copy into the receive buffer reads no more than the checksum did. -/
def tcpInputAccesses (tcp : Tcp) (frame : Frame) : List Access :=
  if frame.length < ethHdrLen + ipv4HdrLen + tcpHdrLen then []
  else .read ethHdrLen 1 ::
    if ipv4Ihl frame < ipv4HdrLen then []
    else .read (ethHdrLen + 2) 2 ::
      if ipv4TotLen frame < ipv4Ihl frame + tcpHdrLen then []
      else .read (tcpStart frame + 12) 1 ::
        if tcpHeaderLength frame < tcpHdrLen then []
        else if frame.length < tcpStart frame + tcpHeaderLength frame then []
        else .subtract (ipv4TotLen frame) (ipv4Ihl frame + tcpHeaderLength frame) :: .read (ethHdrLen + 12) 8 ::
          .read (tcpStart frame) tcpHdrLen ::
          if (tcpLookup tcp (tcpSegment frame).tuple).isSome then
            [.read (tcpStart frame + tcpHeaderLength frame) (tcpDataLength frame)]
          else []

/-- `ipv4_input` with `ipv4_dispatch`; fragments are not followed into `ipv4_reassemble`. -/
def ipv4InputAccesses (device : NetDevice) (tcp : Tcp) (udp : Udp) (frame : Frame) : List Access :=
  if frame.length < ethHdrLen + ipv4HdrLen then []
  else .read ethHdrLen 1 ::
    if octet frame ethHdrLen / 16 ≠ 4 ∨ ipv4Ihl frame < ipv4HdrLen then []
    else .read (ethHdrLen + 2) 2 ::
      if ipv4TotLen frame < ipv4Ihl frame ∨ frame.length < ethHdrLen + ipv4TotLen frame then []
      else .read ethHdrLen (ipv4Ihl frame) ::
        if ipv4Checksum (slice frame ethHdrLen (ipv4Ihl frame)) ≠ 0 then []
        else .read (ethHdrLen + 16) 4 :: .read (ethHdrLen + 6) 2 :: .read (ethHdrLen + 9) 1 ::
          if ¬Ipv4Checked device frame ∨ Ipv4Fragment frame then []
          else if ipv4Protocol frame = ipv4ProtoIcmp then icmpv4InputAccesses frame
          else if ipv4Protocol frame = ipv4ProtoUdp then udpInputAccesses udp frame
          else if ipv4Protocol frame = ipv4ProtoTcp then tcpInputAccesses tcp frame
          else []

section Safety

lemma icmpv4InputAccesses_safe : AllSafe frame (icmpv4InputAccesses frame) := by
  simp only [icmpv4InputAccesses, allSafe_guard, allSafe_branch, allSafe_cons, allSafe_nil, Access.Safe]
  simp only [ipv4HdrLen]
  intro header
  refine ⟨by omega, by omega, fun lengths inside => ⟨by omega, fun message => ⟨by omega, fun _ => ⟨by omega, ?_⟩⟩⟩⟩
  exact fun _ => ⟨by omega, trivial⟩

lemma udpInputAccesses_safe_iff (udp : Udp) (header : ipv4HdrLen ≤ ipv4Ihl frame) :
    AllSafe frame (udpInputAccesses udp frame) ↔
      (ethHdrLen + ipv4HdrLen + udpHdrLen ≤ frame.length → udpStart frame + 6 ≤ frame.length) := by
  simp only [udpInputAccesses, allSafe_guard, allSafe_branch, allSafe_append, allSafe_cons, allSafe_nil, Access.Safe]
  simp only [ipv4HdrLen, udpHdrLen] at header ⊢
  constructor
  · intro safe long
    omega
  · intro inside long
    refine ⟨by omega, fun _ => ⟨by omega, fun least fits => ⟨by omega, by omega, by omega, fun _ => ?_, fun _ => ?_⟩⟩⟩
    · exact ⟨by omega, by omega, trivial⟩
    · exact ⟨by omega, fun _ => ⟨by omega, trivial⟩⟩

lemma tcpInputAccesses_safe_iff (tcp : Tcp) (inside : ethHdrLen + ipv4TotLen frame ≤ frame.length) :
    AllSafe frame (tcpInputAccesses tcp frame) ↔
      (TcpFits frame → ipv4Ihl frame + tcpHeaderLength frame ≤ ipv4TotLen frame) := by
  have start : tcpStart frame = 14 + ipv4Ihl frame := rfl
  simp only [tcpInputAccesses, allSafe_guard, allSafe_branch, allSafe_cons, allSafe_nil, Access.Safe]
  simp only [TcpFits, ethHdrLen, tcpHdrLen] at inside ⊢
  constructor
  · rintro safe ⟨long, header, least, offset, fits⟩
    exact (((safe (by omega)).2 (by omega)).2 (by omega)).2 (by omega) (by omega) |>.1
  · intro whole long
    refine ⟨by omega, fun header => ⟨by omega, fun least => ⟨by omega, fun offset fits => ?_⟩⟩⟩
    have small := whole ⟨by omega, by omega, by omega, by omega, by omega⟩
    have data : tcpDataLength frame = ipv4TotLen frame - (ipv4Ihl frame + tcpHeaderLength frame) := by
      have total := word16_lt frame (ethHdrLen + 2)
      rw [tcpDataLength, ipv4TotLen]
      rw [ipv4TotLen] at small
      omega
    exact ⟨small, by omega, by omega, fun _ => ⟨by omega, trivial⟩⟩

/--
Every byte that `ipv4_input` and the functions below it read is inside of the frame, and no length is below zero,
exactly if the length of a UDP header is, and no TCP header is longer than its packet.
-/
theorem ipv4_input_safe_iff (device : NetDevice) (tcp : Tcp) (udp : Udp) (frame : Frame) :
    AllSafe frame (ipv4InputAccesses device tcp udp frame) ↔ (Ipv4Checked device frame → ¬Ipv4Fragment frame →
      (ipv4Protocol frame = ipv4ProtoUdp → ethHdrLen + ipv4HdrLen + udpHdrLen ≤ frame.length →
        udpStart frame + 6 ≤ frame.length) ∧
      (ipv4Protocol frame = ipv4ProtoTcp → TcpFits frame →
        ipv4Ihl frame + tcpHeaderLength frame ≤ ipv4TotLen frame)) := by
  simp only [ipv4InputAccesses, allSafe_guard, allSafe_cons, Access.Safe]
  constructor
  · intro safe checked whole
    obtain ⟨long, version, header, least, inside, sum, -⟩ := id checked
    have dispatched := ((((safe (by omega)).2 (by omega)).2 (by omega)).2 (not_not.mpr sum)).2.2.2
      (by simp [checked, whole])
    refine ⟨fun udpPacket => ?_, fun tcpPacket => ?_⟩
    · rw [udpPacket] at dispatched
      exact (udpInputAccesses_safe_iff udp header).mp dispatched
    · rw [tcpPacket] at dispatched
      exact (tcpInputAccesses_safe_iff tcp inside).mp dispatched
  · intro safe long
    have least : ipv4HdrLen = 20 := rfl
    refine ⟨by omega, fun version => ⟨by omega, fun lengths => ⟨by omega, fun _ => ⟨by omega, by omega, by omega, ?_⟩⟩⟩⟩
    intro checked
    obtain ⟨udpSafe, tcpSafe⟩ :=
      safe (by simpa using fun refused => checked (.inl refused)) fun part => checked (.inr part)
    split
    · exact icmpv4InputAccesses_safe
    split
    · exact (udpInputAccesses_safe_iff udp (by omega)).mpr (udpSafe ‹_›)
    split
    · exact (tcpInputAccesses_safe_iff tcp (by omega)).mpr (tcpSafe ‹_›)
    · exact allSafe_nil frame

/-- A frame whose UDP header starts where the frame ends. -/
def headerlessDatagram : Frame :=
  List.replicate 14 0 ++ [0x4F, 0, 0, 60, 0, 0, 0, 0, 64, 17, 0x70, 0xB2] ++ List.replicate 48 0

/-- A header of 60 bytes is followed by nothing, and `udp_input` reads behind the frame. -/
theorem udp_length_read_outside :
    headerlessDatagram.length = 74 ∧
      .read 78 2 ∈ ipv4InputAccesses ⟨0, 0, 0, 0, ⟨List.replicate 6 0, rfl⟩⟩ tcpInit ⟨fun _ => ⟨false, 0, 0, 0, 0, 0,
        fun _ => ⟨[], 0, 0⟩, Nat.zero_le _⟩, []⟩ headerlessDatagram := by
  decide +kernel

end Safety

end Galio

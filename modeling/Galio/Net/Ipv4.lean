import Galio.Lib.Buffer
import Galio.Lib.OnesComplement

/-! Frames in network order, and `kernel/net/ipv4.c`: the checks of a packet, its checksum and reassembly. -/

namespace Galio

open Function OnesComplement

/-- The bytes of a packet buffer, from the Ethernet header on. -/
abbrev Frame := List UInt8

/-- One byte of a frame. -/
def octet (frame : Frame) (a : Nat) : Nat := (frame.getD a 0).toNat

/-- A number of two bytes, the high one first. -/
def word16 (frame : Frame) (a : Nat) : Nat := octet frame a * 256 + octet frame (a + 1)

/-- A number of four bytes, the highest first. -/
def word32 (frame : Frame) (a : Nat) : Nat := word16 frame a * 65536 + word16 frame (a + 2)

/-- The two bytes of a number, as `net_htons` stores it. -/
def bytes16 (n : Nat) : List UInt8 := [UInt8.ofNat (n / 256), UInt8.ofNat n]

/-- The four bytes of a number, as `net_htonl` stores it. -/
def bytes32 (n : Nat) : List UInt8 := bytes16 (n / 65536) ++ bytes16 n

/-- Some bytes of a frame. -/
def slice (frame : Frame) (start length : Nat) : List UInt8 := (frame.drop start).take length

/-- A frame with some bytes replaced. -/
def patch (frame : Frame) (start : Nat) (bytes : List UInt8) : Frame :=
  frame.take start ++ bytes ++ frame.drop (start + bytes.length)

def ethHdrLen : Nat := 14

/-- The bytes of `struct ipv4_hdr`. -/
def ipv4HdrLen : Nat := 20

def ipv4ProtoTcp : Nat := 6

def ipv4ProtoUdp : Nat := 17

/-- An Ethernet address. -/
abbrev Mac := { bytes : List UInt8 // bytes.length = 6 }

/-- `net_device_t`, with a number for its address in memory. -/
structure NetDevice where
  id : Nat
  ipAddr : UInt32
  netmask : UInt32
  gateway : UInt32
  mac : Mac

def ipv4Checksum (bytes : List UInt8) : Nat := checksum 0 bytes

/-- The words of the pseudo header of UDP and TCP checksums. -/
def pseudoSum (source dest protocol length : Nat) : Nat :=
  source / 65536 % 65536 + source % 65536 + dest / 65536 % 65536 + dest % 65536 + protocol + length % 65536

/-- The header length that a packet names. -/
def ipv4Ihl (frame : Frame) : Nat := octet frame ethHdrLen % 16 * 4

/-- `tot_len` of a packet. -/
def ipv4TotLen (frame : Frame) : Nat := word16 frame (ethHdrLen + 2)

/-- `frag_off` of a packet. -/
def ipv4FragOff (frame : Frame) : Nat := word16 frame (ethHdrLen + 6)

/-- `protocol` of a packet. -/
def ipv4Protocol (frame : Frame) : Nat := octet frame (ethHdrLen + 9)

/-- `src` of a packet. -/
def ipv4Src (frame : Frame) : Nat := word32 frame (ethHdrLen + 12)

/-- `dest` of a packet. -/
def ipv4Dest (frame : Frame) : Nat := word32 frame (ethHdrLen + 16)

/-- `ipv4_reassembly_slot_t`, with the ranges in use. -/
structure ReassemblySlot where
  used : Bool
  haveLast : Bool
  headerLength : Nat
  totalPayload : Nat
  identification : Nat
  source : Nat
  destination : Nat
  protocol : Nat
  lastTick : Nat
  device : Nat
  ranges : List (Nat × Nat)
  header : List UInt8
  /-- The buffer, unless its allocation failed. -/
  payload : Option Buffer

def ipv4ReassemblySlots : Nat := 4

def ipv4ReassemblyRanges : Nat := 32

def ipv4ReassemblyTimeout : Nat := 10000

def ipv4MaxPayload : Nat := 65535

abbrev Ipv4Reassembly := Nat → ReassemblySlot

/-- `ipv4_init`, with the buffers that could be allocated. -/
def ipv4Init (payloads : Nat → Option Buffer) : Ipv4Reassembly := fun i =>
  ⟨false, false, 0, 0, 0, 0, 0, 0, 0, 0, [], [], payloads i⟩

/-- The ticks since another tick, on a counter of 32 bits. -/
def ticksSince (now tick : Nat) : Nat := (now + 2 ^ 32 - tick) % 2 ^ 32

def ipv4ReassemblyExpire (now : Nat) (slots : Ipv4Reassembly) : Ipv4Reassembly := fun i =>
  if (slots i).used ∧ ticksSince now (slots i).lastTick ≥ ipv4ReassemblyTimeout then { slots i with used := false }
  else slots i

/-- A slot collects the fragments of a packet's datagram. -/
def ReassemblySlot.collects (slot : ReassemblySlot) (device : Nat) (frame : Frame) : Prop :=
  slot.used ∧ slot.device = device ∧ slot.source = ipv4Src frame ∧ slot.destination = ipv4Dest frame ∧
    slot.identification = word16 frame (ethHdrLen + 4) ∧ slot.protocol = ipv4Protocol frame

instance (slot : ReassemblySlot) (device : Nat) (frame : Frame) : Decidable (slot.collects device frame) :=
  inferInstanceAs (Decidable (_ ∧ _))

def ipv4ReassemblyFind (device : Nat) (frame : Frame) (slots : Ipv4Reassembly) : Option Nat :=
  (List.range ipv4ReassemblySlots).find? fun i => (slots i).collects device frame

/-- A slot that was reset for a packet; only the buffer is kept. -/
def ReassemblySlot.reset (slot : ReassemblySlot) (device : Nat) (frame : Frame) : ReassemblySlot where
  used := true
  haveLast := false
  headerLength := 0
  totalPayload := 0
  identification := word16 frame (ethHdrLen + 4)
  source := ipv4Src frame
  destination := ipv4Dest frame
  protocol := ipv4Protocol frame
  lastTick := 0
  device := device
  ranges := []
  header := []
  payload := slot.payload

def ipv4ReassemblyNew (device : Nat) (frame : Frame) (slots : Ipv4Reassembly) : Option (Ipv4Reassembly × Nat) :=
  ((List.range ipv4ReassemblySlots).find? fun i => !(slots i).used).map fun i =>
    (update slots i ((slots i).reset device frame), i)

/-- The loop of `ipv4_reassembly_complete` from a position on. -/
def ReassemblySlot.chains (slot : ReassemblySlot) : Nat → Nat → Option Bool
  | 0, _ => none
  | steps + 1, position =>
    match slot.ranges.find? fun range => range.1 = position with
    | none => some false
    | some range =>
      if range.2 = slot.totalPayload then some slot.haveLast
      else if range.2 > slot.totalPayload then some false
      else slot.chains steps range.2

/-- `ipv4_reassembly_complete`: every pass but the last goes on behind another range. -/
def ipv4ReassemblyComplete (slot : ReassemblySlot) : Option Bool := slot.chains (slot.ranges.length + 1) 0

/-- `ipv4_reassembly_finish`, where memory for the packet is available. -/
def ipv4ReassemblyFinish (slot : ReassemblySlot) (payload : Buffer) : Option Frame :=
  let totalLength := slot.headerLength + slot.totalPayload
  if totalLength > 65535 then none
  else
    let header := patch (slot.header.take (ethHdrLen + slot.headerLength)) (ethHdrLen + 2) (bytes16 totalLength)
    let header := patch header (ethHdrLen + 6) (bytes16 0)
    let header := patch header (ethHdrLen + 10) (bytes16 0)
    let header := patch header (ethHdrLen + 10) (bytes16 (ipv4Checksum (slice header ethHdrLen slot.headerLength)))
    some (header ++ (List.range slot.totalPayload).map payload)

/-- The slot of a fragment after `ipv4_reassembly_find` and `ipv4_reassembly_new`. -/
def ipv4ReassemblyTake (device : Nat) (frame : Frame) (slots : Ipv4Reassembly) : Option (Ipv4Reassembly × Nat) :=
  match ipv4ReassemblyFind device frame slots with
  | some i => some (slots, i)
  | none => ipv4ReassemblyNew device frame slots

/-- A slot with a fragment added that overlaps no other one. -/
def ReassemblySlot.add (slot : ReassemblySlot) (payload : Buffer) (now offset length headerLength : Nat) (more : Bool)
    (frame : Frame) : ReassemblySlot :=
  { slot with
    headerLength := if offset = 0 then headerLength else slot.headerLength
    header := if offset = 0 then frame.take (ethHdrLen + headerLength) else slot.header
    payload := some (payload.put offset length fun k => frame.getD (ethHdrLen + headerLength + k) 0)
    ranges := slot.ranges ++ [(offset, offset + length)]
    lastTick := now
    haveLast := slot.haveLast || !more
    totalPayload := if more then slot.totalPayload else offset + length }

/-- `ipv4_reassemble`: the slots, and the packet that is dispatched. -/
def ipv4Reassemble (device now : Nat) (slots : Ipv4Reassembly) (frame : Frame) (headerLength totalLength : Nat) :
    Ipv4Reassembly × Option Frame :=
  let offset := ipv4FragOff frame % 8192 * 8
  let length := totalLength - headerLength
  if offset + length > ipv4MaxPayload ∨ length = 0 then (slots, none)
  else
    let slots := ipv4ReassemblyExpire now slots
    match ipv4ReassemblyTake device frame slots with
    | none => (slots, none)
    | some (slots, i) =>
      match (slots i).payload with
      | none => (slots, none)
      | some payload =>
        if (slots i).ranges.length ≥ ipv4ReassemblyRanges then (slots, none)
        else if (slots i).ranges.any fun range => offset < range.2 ∧ offset + length > range.1 then
          (update slots i { slots i with used := false }, none)
        else
          let slot := (slots i).add payload now offset length headerLength ((ipv4FragOff frame).testBit 13) frame
          if slot.headerLength ≠ 0 ∧ ipv4ReassemblyComplete slot = some true then
            (update slots i { slot with used := false }, slot.payload.bind (ipv4ReassemblyFinish slot))
          else (update slots i slot, none)

/-- The checks of `ipv4_input` on the header and the lengths of a packet. -/
def Ipv4Checked (device : NetDevice) (frame : Frame) : Prop :=
  ethHdrLen + ipv4HdrLen ≤ frame.length ∧ octet frame ethHdrLen / 16 = 4 ∧ ipv4HdrLen ≤ ipv4Ihl frame ∧
    ipv4Ihl frame ≤ ipv4TotLen frame ∧ ethHdrLen + ipv4TotLen frame ≤ frame.length ∧
    ipv4Checksum (slice frame ethHdrLen (ipv4Ihl frame)) = 0 ∧
    (ipv4Dest frame = device.ipAddr.toNat ∨
      device.ipAddr = 0 ∧ ipv4Dest frame = 0xFFFFFFFF ∧ ipv4Protocol frame = ipv4ProtoUdp)

instance (device : NetDevice) (frame : Frame) : Decidable (Ipv4Checked device frame) :=
  inferInstanceAs (Decidable (_ ∧ _))

/-- A packet is a fragment. -/
def Ipv4Fragment (frame : Frame) : Prop := (ipv4FragOff frame).testBit 13 ∨ ipv4FragOff frame % 8192 ≠ 0

instance (frame : Frame) : Decidable (Ipv4Fragment frame) := inferInstanceAs (Decidable (_ ∨ _))

/-- `ipv4_input`: the slots, and the packet that `ipv4_dispatch` is called with. -/
def ipv4Input (device : NetDevice) (now : Nat) (slots : Ipv4Reassembly) (frame : Frame) :
    Ipv4Reassembly × Option Frame :=
  if ¬Ipv4Checked device frame then (slots, none)
  else if Ipv4Fragment frame then ipv4Reassemble device.id now slots frame (ipv4Ihl frame) (ipv4TotLen frame)
  else (slots, some frame)

/-- A packet without options, with its header as the senders fill it. -/
def ipv4Packet (device : NetDevice) (destMac : Mac) (dest : UInt32) (protocol : Nat) (body : List UInt8) : Frame :=
  let front := [0x45, 0] ++ bytes16 (ipv4HdrLen + body.length) ++ bytes16 0 ++ bytes16 0x4000 ++
    [64, UInt8.ofNat protocol]
  let back := bytes32 device.ipAddr.toNat ++ bytes32 dest.toNat
  destMac.val ++ device.mac.val ++ bytes16 0x0800 ++
    (front ++ bytes16 (ipv4Checksum (front ++ bytes16 0 ++ back)) ++ back) ++ body

/-- A device cannot reach an address outside its network without a gateway. -/
def NetDevice.reaches (device : NetDevice) (dest : UInt32) : Prop :=
  device.ipAddr ≠ 0 ∧
    ¬(device.netmask ≠ 0 ∧ dest &&& device.netmask ≠ device.ipAddr &&& device.netmask ∧ device.gateway = 0)

instance (device : NetDevice) (dest : UInt32) : Decidable (device.reaches dest) := inferInstanceAs (Decidable (_ ∧ _))

end Galio

import Mathlib.Data.List.Perm.Subperm
import Galio.Lib.Tiling
import Galio.Net.Ipv4Laws

/-! Datagrams cut into fragments, and the slot that collects the fragments of one. -/

namespace Galio

open OnesComplement Tiling
open List hiding span

/-- Where the data of a fragment belongs. -/
def fragOffset (frame : Frame) : Nat := ipv4FragOff frame % 8192 * 8

/-- How much data a fragment has. -/
def fragLength (frame : Frame) : Nat := ipv4TotLen frame - ipv4Ihl frame

/-- More fragments follow. -/
def fragMore (frame : Frame) : Bool := (ipv4FragOff frame).testBit 13

/-- The data of a fragment. -/
def fragBytes (frame : Frame) : List UInt8 := slice frame (ethHdrLen + ipv4Ihl frame) (fragLength frame)

/-- The range that a slot notes for a fragment. -/
def fragRange (frame : Frame) : Nat × Nat := (fragOffset frame, fragOffset frame + fragLength frame)

/-- What the fragments of one datagram have in common. -/
structure DatagramKey where
  source : Nat
  destination : Nat
  identification : Nat
  protocol : Nat
  deriving DecidableEq

/-- The key of a packet. -/
def datagramKey (frame : Frame) : DatagramKey :=
  ⟨ipv4Src frame, ipv4Dest frame, word16 frame (ethHdrLen + 4), ipv4Protocol frame⟩

/-- The key that a slot collects for. -/
def ReassemblySlot.key (slot : ReassemblySlot) : DatagramKey :=
  ⟨slot.source, slot.destination, slot.identification, slot.protocol⟩

lemma ReassemblySlot.collects_iff (slot : ReassemblySlot) (device : Nat) (frame : Frame) :
    slot.collects device frame ↔ slot.used ∧ slot.device = device ∧ slot.key = datagramKey frame := by
  simp [collects, key, datagramKey]

/-- A datagram cut into fragments, listed from its first byte on, that arrive at one device. -/
structure Datagram where
  device : NetDevice
  key : DatagramKey
  frames : List Frame
  cut : frames ≠ []
  few : frames.length ≤ ipv4ReassemblyRanges
  checked : ∀ frame ∈ frames, Ipv4Checked device frame
  keyed : ∀ frame ∈ frames, datagramKey frame = key
  /-- No flag is set but the one for more fragments. -/
  plain : ∀ frame ∈ frames, ipv4FragOff frame < 0x4000
  filled : ∀ frame ∈ frames, 0 < fragLength frame
  tiles : Tiles fragOffset fragLength 0 frames
  /-- More fragments follow exactly if one ends before the end of the data. -/
  marked : ∀ frame ∈ frames, fragMore frame = true ↔ fragOffset frame + fragLength frame < span fragLength frames
  fits : span fragLength frames ≤ ipv4MaxPayload

variable {a length n start : Nat} {buffer : Buffer} {frame : Frame} {datagram : Datagram}

lemma fragBytes_length {device : NetDevice} (checked : Ipv4Checked device frame) :
    (fragBytes frame).length = fragLength frame := by
  obtain ⟨-, -, -, covered, whole, -⟩ := checked
  simp only [fragBytes, slice, fragLength, length_take, length_drop]
  omega

namespace Datagram

variable {other : Frame}

/-- The data of a datagram. -/
def payload (datagram : Datagram) : List UInt8 := datagram.frames.flatMap fragBytes

/-- The fragment with the first byte. -/
def first (datagram : Datagram) : Frame := datagram.frames.headD []

lemma payload_length (datagram : Datagram) : datagram.payload.length = span fragLength datagram.frames := by
  have sized : ∀ frames : List Frame, (∀ frame ∈ frames, Ipv4Checked datagram.device frame) →
      (frames.flatMap fragBytes).length = span fragLength frames := by
    intro frames
    induction frames with
    | nil => intro _; rfl
    | cons frame rest ih =>
      intro checked
      rw [flatMap_cons, length_append, fragBytes_length (checked frame mem_cons_self), span,
        ih fun later mem => checked later (mem_cons_of_mem _ mem)]
  exact sized _ datagram.checked

lemma first_spec (datagram : Datagram) : datagram.first ∈ datagram.frames ∧ fragOffset datagram.first = 0 := by
  have tiles := datagram.tiles
  unfold first
  cases frames : datagram.frames with
  | nil => exact absurd frames datagram.cut
  | cons frame rest =>
    rw [frames] at tiles
    exact ⟨mem_cons_self, tiles.1⟩

lemma inside (mem : frame ∈ datagram.frames) :
    fragOffset frame + fragLength frame ≤ span fragLength datagram.frames := by
  simpa using (datagram.tiles.inside frame mem).2

lemma offset_inj (here : frame ∈ datagram.frames) (there : other ∈ datagram.frames)
    (same : fragOffset frame = fragOffset other) : frame = other := by
  have positive := datagram.filled frame here
  have also := datagram.filled other there
  rcases datagram.tiles.disjoint here there with equal | before | after
  · exact equal
  · omega
  · omega

lemma nodup (datagram : Datagram) : datagram.frames.Nodup := by
  refine List.Pairwise.imp_of_mem ?_ datagram.tiles.apart
  rintro frame other here - ordered rfl
  have positive := datagram.filled frame here
  omega

end Datagram

/-- A slot that collects for a datagram, after some of its fragments. -/
structure ReassemblySlot.Collecting (slot : ReassemblySlot) (datagram : Datagram) (got : List Frame) : Prop where
  used : slot.used = true
  device : slot.device = datagram.device.id
  key : slot.key = datagram.key
  ranges : slot.ranges = got.map fragRange
  haveLast : slot.haveLast = got.any fun frame => !fragMore frame
  total : slot.totalPayload = if slot.haveLast then span fragLength datagram.frames else 0
  headerLength : slot.headerLength = if datagram.first ∈ got then ipv4Ihl datagram.first else 0
  header : datagram.first ∈ got → slot.header = datagram.first.take (ethHdrLen + ipv4Ihl datagram.first)
  bytes : ∃ buffer, slot.payload = some buffer ∧
    ∀ frame ∈ got, (range' (fragOffset frame) (fragLength frame)).map buffer = fragBytes frame

variable {slot : ReassemblySlot} {got : List Frame}

namespace ReassemblySlot

lemma find_range (within : ∀ frame ∈ got, frame ∈ datagram.frames) (mem : frame ∈ datagram.frames) :
    ((got.map fragRange).find? fun range => range.1 = fragOffset frame) =
      if frame ∈ got then some (fragRange frame) else none := by
  induction got with
  | nil => rfl
  | cons arrived rest ih =>
    rw [map_cons, find?_cons]
    by_cases same : fragOffset arrived = fragOffset frame
    · obtain rfl := datagram.offset_inj (within arrived mem_cons_self) mem same
      simp [fragRange]
    · have different : frame ≠ arrived := fun equal => same (by rw [equal])
      rw [ih fun later listed => within later (mem_cons_of_mem _ listed)]
      simp [fragRange, same, different]

/-- The walk of `ipv4_reassembly_complete` over the fragments from a position on. -/
theorem chains_eq (ranges : slot.ranges = got.map fragRange) (within : ∀ frame ∈ got, frame ∈ datagram.frames)
    {position steps : Nat} {rest : List Frame} (nonempty : rest ≠ []) (inside : ∀ frame ∈ rest, frame ∈ datagram.frames)
    (tiles : Tiles fragOffset fragLength position rest)
    (total : slot.totalPayload = if slot.haveLast then position + span fragLength rest else 0)
    (complete : (∀ frame ∈ rest, frame ∈ got) → slot.haveLast)
    (enough : (rest.filter fun frame => frame ∈ got).length < steps) :
    slot.chains steps position = some (decide (∀ frame ∈ rest, frame ∈ got)) := by
  induction rest generalizing position steps with
  | nil => exact absurd rfl nonempty
  | cons frame rest ih =>
    obtain ⟨rfl, tail⟩ := tiles
    have mem := inside frame mem_cons_self
    have positive := datagram.filled frame mem
    cases steps with
    | zero => simp at enough
    | succ steps =>
      rw [chains, ranges, find_range within mem]
      by_cases here : frame ∈ got
      · rw [if_pos here]
        dsimp only [fragRange]
        by_cases done : slot.haveLast
        · rw [if_pos done, span] at total
          cases rest with
          | nil =>
            rw [if_pos (by rw [total, span]; omega), done]
            simp [here]
          | cons next later =>
            -- The walk goes on behind this fragment, with one of the fragments that have arrived used up.
            have more := datagram.filled next (inside next (by simp))
            rw [span] at total
            rw [if_neg (by omega), if_neg (by omega)]
            rw [ih (cons_ne_nil _ _) (fun frame listed => inside frame (mem_cons_of_mem _ listed)) tail
              (by rw [if_pos done, span]; omega) (fun _ => done)
              (by simpa [filter_cons, here] using enough)]
            simp [here]
        · rw [if_neg done] at total
          rw [if_neg (by omega), if_pos (by omega)]
          exact congrArg some (decide_eq_false fun all => done (complete all)).symm
      · simp [here]

lemma map_put_outside (buffer source : Buffer) (outside : a + n ≤ start ∨ start + length ≤ a) :
    (range' a n).map (buffer.put start length source) = (range' a n).map buffer := by
  refine map_congr_left fun k mem => Buffer.put_outside buffer source ?_
  obtain ⟨i, small, rfl⟩ := mem_range'.mp mem
  omega

lemma map_put_inside (buffer source : Buffer) (start length : Nat) :
    (range' start length).map (buffer.put start length source) = (range length).map source := by
  rw [range'_eq_map_range, map_map]
  refine map_congr_left fun k mem => Buffer.put_inside buffer source start (mem_range.mp mem)

lemma slice_eq_map (inside : start + length ≤ frame.length) :
    slice frame start length = (range length).map fun k => frame.getD (start + k) 0 := by
  refine ext_getElem (by simp [slice]; omega) fun k small _ => ?_
  have bound : k < length := by
    simp [slice] at small
    omega
  rw [getElem_map, getElem_range]
  simp only [slice, getElem_take, getElem_drop]
  rw [getD_eq_getElem _ _ (by omega)]

namespace Collecting

variable (collecting : slot.Collecting datagram got)
include collecting

lemma haveLast_of_all (all : ∀ frame ∈ datagram.frames, frame ∈ got) : slot.haveLast := by
  obtain ⟨last, mem, ends⟩ := datagram.tiles.reaches datagram.cut
  rw [collecting.haveLast, any_eq_true]
  refine ⟨last, all last mem, ?_⟩
  have mark := datagram.marked last mem
  cases more : fragMore last with
  | false => rfl
  | true =>
    have before := mark.mp more
    omega

section

variable (within : ∀ frame ∈ got, frame ∈ datagram.frames)
include within

lemma no_overlap (mem : frame ∈ datagram.frames) (new : frame ∉ got) : ¬slot.ranges.any fun range =>
      fragOffset frame < range.2 ∧ fragOffset frame + fragLength frame > range.1 := by
  rw [collecting.ranges, any_map, any_eq_true]
  rintro ⟨arrived, listed, overlaps⟩
  obtain ⟨starts, ends⟩ : fragOffset frame < fragOffset arrived + fragLength arrived ∧
      fragOffset frame + fragLength frame > fragOffset arrived := of_decide_eq_true overlaps
  rcases datagram.tiles.disjoint mem (within arrived listed) with rfl | before | after
  · exact new listed
  · omega
  · omega

lemma add (mem : frame ∈ datagram.frames) (new : frame ∉ got) (stored : slot.payload = some buffer) (now : Nat) :
    (slot.add buffer now (fragOffset frame) (fragLength frame) (ipv4Ihl frame) (fragMore frame)
      frame).Collecting datagram (got ++ [frame]) := by
  have start : fragOffset frame = 0 ↔ datagram.first = frame :=
    ⟨fun zero => datagram.offset_inj datagram.first_spec.1 mem (datagram.first_spec.2.trans zero.symm),
      fun same => same ▸ datagram.first_spec.2⟩
  refine ⟨collecting.used, collecting.device, collecting.key, ?_, ?_, ?_, ?_, fun arrived => ?_, ?_⟩
  · simp [ReassemblySlot.add, collecting.ranges, fragRange]
  · simp [ReassemblySlot.add, collecting.haveLast]
  · have mark := datagram.marked frame mem
    have bound := datagram.inside mem
    cases more : fragMore frame with
    | true => simpa [ReassemblySlot.add, more] using collecting.total
    | false =>
      have ends : ¬fragOffset frame + fragLength frame < span fragLength datagram.frames := by simp [← mark, more]
      simp only [ReassemblySlot.add, Bool.not_false, Bool.or_true, if_true, Bool.false_eq_true, if_false]
      omega
  · simp only [ReassemblySlot.add, mem_append, mem_singleton]
    by_cases own : datagram.first = frame
    · rw [if_pos (start.mpr own), if_pos (.inr own), own]
    · rw [if_neg (fun zero => own (start.mp zero)), collecting.headerLength]
      simp [own]
  · simp only [ReassemblySlot.add]
    by_cases own : datagram.first = frame
    · rw [if_pos (start.mpr own), own]
    · rw [if_neg (fun zero => own (start.mp zero))]
      exact collecting.header (by simpa [own] using arrived)
  · obtain ⟨held, same, bytes⟩ := collecting.bytes
    obtain rfl : buffer = held := by simpa [stored] using same
    refine ⟨_, rfl, fun arrived listed => ?_⟩
    rcases mem_append.mp listed with old | last
    · rw [map_put_outside, bytes arrived old]
      rcases datagram.tiles.disjoint (within arrived old) mem with rfl | before | after
      · exact absurd old new
      · exact .inl before
      · exact .inr after
    · obtain rfl := mem_singleton.mp last
      obtain ⟨-, -, -, covered, whole, -⟩ := datagram.checked arrived mem
      rw [map_put_inside, fragBytes, slice_eq_map (by rw [fragLength]; omega)]

lemma complete_iff :
    (slot.headerLength ≠ 0 ∧ ipv4ReassemblyComplete slot = some true) ↔ ∀ frame ∈ datagram.frames, frame ∈ got := by
  have walked : ipv4ReassemblyComplete slot = some (decide (∀ frame ∈ datagram.frames, frame ∈ got)) := by
    refine chains_eq collecting.ranges within datagram.cut (fun _ mem => mem) datagram.tiles
      (by simpa using collecting.total) collecting.haveLast_of_all ?_
    have fewer : (datagram.frames.filter fun frame => frame ∈ got).length ≤ got.length :=
      (List.Nodup.subperm (datagram.nodup.filter _) fun frame mem => by
        simpa using (mem_filter.mp mem).2).length_le
    rw [collecting.ranges, length_map]
    omega
  rw [walked, Option.some.injEq, decide_eq_true_eq, and_iff_right_iff_imp]
  intro all
  rw [collecting.headerLength, if_pos (all _ datagram.first_spec.1)]
  obtain ⟨-, -, least, -⟩ := datagram.checked _ datagram.first_spec.1
  have header : ipv4HdrLen = 20 := rfl
  omega

end

lemma read_payload (all : ∀ frame ∈ datagram.frames, frame ∈ got) (stored : slot.payload = some buffer) :
    slot.totalPayload = datagram.payload.length ∧ (range slot.totalPayload).map buffer = datagram.payload := by
  have total : slot.totalPayload = span fragLength datagram.frames := by
    rw [collecting.total, if_pos (collecting.haveLast_of_all all)]
  obtain ⟨held, same, bytes⟩ := collecting.bytes
  obtain rfl : buffer = held := by simpa [stored] using same
  refine ⟨total.trans datagram.payload_length.symm, ?_⟩
  rw [total, range_eq_range']
  exact datagram.tiles.read fun frame mem => bytes frame (all frame mem)

end Collecting

end ReassemblySlot

section Patch

variable {bytes : List UInt8}

lemma octet_patch_inside (inside : start + bytes.length ≤ frame.length) {k : Nat} (small : k < bytes.length) :
    octet (patch frame start bytes) (start + k) = octet bytes k := by
  have length : (frame.take start).length = start := by
    rw [length_take]
    omega
  simp only [octet, patch, getD_eq_getElem?_getD]
  rw [append_assoc, getElem?_append_right (by omega), length, Nat.add_sub_cancel_left,
    getElem?_append_left small]

lemma octet_patch_outside (inside : start + bytes.length ≤ frame.length)
    (outside : a < start ∨ start + bytes.length ≤ a) : octet (patch frame start bytes) a = octet frame a := by
  have length : (frame.take start).length = start := by
    rw [length_take]
    omega
  simp only [octet, patch, getD_eq_getElem?_getD]
  rcases outside with before | behind
  · rw [append_assoc, getElem?_append_left (by omega), getElem?_take_of_lt before]
  · rw [getElem?_append_right (by simp [length]; omega), getElem?_drop]
    congr 3
    simp [length]
    omega

lemma word16_patch_inside (inside : start + 2 ≤ frame.length) :
    word16 (patch frame start (bytes16 n)) start = n % 65536 := by
  have high : octet (patch frame start (bytes16 n)) start = octet (bytes16 n) 0 :=
    octet_patch_inside (k := 0) inside (by simp [bytes16])
  have low : octet (patch frame start (bytes16 n)) (start + 1) = octet (bytes16 n) 1 :=
    octet_patch_inside (k := 1) inside (by simp [bytes16])
  rw [word16, high, low]
  exact bytes16_value n

lemma word16_patch_outside (inside : start + 2 ≤ frame.length) (outside : a + 2 ≤ start ∨ start + 2 ≤ a) :
    word16 (patch frame start (bytes16 n)) a = word16 frame a := by
  have size : (bytes16 n).length = 2 := rfl
  rw [word16, octet_patch_outside inside (by omega), octet_patch_outside inside (by omega), word16]

lemma patch_patch {again : List UInt8} (inside : start + bytes.length ≤ frame.length)
    (same : again.length = bytes.length) : patch (patch frame start bytes) start again = patch frame start again := by
  have length : (frame.take start).length = start := by
    rw [length_take]
    omega
  have front : (patch frame start bytes).take start = frame.take start := by
    rw [patch, append_assoc, take_left' length]
  have back : (patch frame start bytes).drop (start + again.length) = frame.drop (start + again.length) := by
    rw [patch, drop_left' (by rw [length_append, length, same]), same]
  rw [patch, front, back, patch]

lemma slice_patch {m : Nat} (length : frame.length = start + n) (inside : m + bytes.length ≤ n) :
    slice (patch frame (start + m) bytes) start n =
      slice frame start m ++ bytes ++ slice frame (start + m + bytes.length) (n - m - bytes.length) := by
  have front : (frame.take start).length = start := by
    rw [length_take]
    omega
  rw [slice, patch, take_add, append_assoc, append_assoc, drop_left' front,
    take_of_length_le (by simp; omega)]
  rw [slice, slice, append_assoc, take_of_length_le (l := frame.drop (start + m + bytes.length))
    (by simp; omega)]

lemma wordSum_pos (first : 0 < octet bytes 0) : 0 < wordSum bytes := by
  match bytes with
  | [] => simp [octet] at first
  | [high] =>
    simp only [octet, getD_cons_zero] at first
    rw [wordSum]
    omega
  | high :: low :: rest =>
    simp only [octet, getD_cons_zero] at first
    rw [wordSum]
    omega

end Patch

namespace Datagram

/-- The packet of a whole datagram: the first fragment's header, for all the data. -/
structure Whole (datagram : Datagram) (packet : Frame) : Prop where
  ihl : ipv4Ihl packet = ipv4Ihl datagram.first
  totLen : ipv4TotLen packet = ipv4Ihl packet + datagram.payload.length
  inside : ethHdrLen + ipv4TotLen packet ≤ packet.length
  fragOff : ipv4FragOff packet = 0
  checksum : ipv4Checksum (slice packet ethHdrLen (ipv4Ihl packet)) = 0
  key : datagramKey packet = datagram.key
  payload : fragBytes packet = datagram.payload

/-- The length of the whole datagram can be stored. -/
def Short (datagram : Datagram) : Prop := ipv4Ihl datagram.first + datagram.payload.length ≤ 65535

instance (datagram : Datagram) : Decidable datagram.Short := inferInstanceAs (Decidable (_ ≤ _))

/-- The header of the whole datagram as `ipv4_reassembly_finish` fills it. -/
def wholeHeader (datagram : Datagram) : List UInt8 :=
  let header := datagram.first.take (ethHdrLen + ipv4Ihl datagram.first)
  let header := patch header (ethHdrLen + 2) (bytes16 (ipv4Ihl datagram.first + datagram.payload.length))
  let header := patch header (ethHdrLen + 6) (bytes16 0)
  let header := patch header (ethHdrLen + 10) (bytes16 0)
  patch header (ethHdrLen + 10) (bytes16 (ipv4Checksum (slice header ethHdrLen (ipv4Ihl datagram.first))))

/-- What is known of the header of the whole datagram. -/
structure HeaderFields (datagram : Datagram) (header : List UInt8) : Prop where
  length : header.length = ethHdrLen + ipv4Ihl datagram.first
  totLen : word16 header (ethHdrLen + 2) = (ipv4Ihl datagram.first + datagram.payload.length) % 65536
  fragOff : word16 header (ethHdrLen + 6) = 0
  checksum : ipv4Checksum (slice header ethHdrLen (ipv4Ihl datagram.first)) = 0
  kept : ∀ a, a < ethHdrLen + ipv4Ihl datagram.first → a ∉ [16, 17, 20, 21, 24, 25] →
    octet header a = octet datagram.first a

lemma first_length (datagram : Datagram) :
    ipv4HdrLen ≤ ipv4Ihl datagram.first ∧ ethHdrLen + ipv4Ihl datagram.first ≤ datagram.first.length := by
  obtain ⟨-, -, least, covered, whole, -⟩ := datagram.checked _ datagram.first_spec.1
  exact ⟨least, by omega⟩

lemma wholeHeader_fields (datagram : Datagram) : datagram.HeaderFields datagram.wholeHeader := by
  obtain ⟨least, inside⟩ := datagram.first_length
  have link : ethHdrLen = 14 := rfl
  have minimal : ipv4HdrLen = 20 := rfl
  obtain ⟨-, version, -⟩ := datagram.checked _ datagram.first_spec.1
  set header := datagram.first.take (ethHdrLen + ipv4Ihl datagram.first) with isHeader
  have length : header.length = ethHdrLen + ipv4Ihl datagram.first := by
    rw [length_take]
    omega
  have copied : ∀ a < ethHdrLen + ipv4Ihl datagram.first, octet header a = octet datagram.first a := by
    intro a small
    simp only [octet, isHeader, getD_eq_getElem?_getD, getElem?_take_of_lt small]
  -- The two patches of the checksum field are one of the header with its lengths filled in.
  set ready := patch (patch header (ethHdrLen + 2) (bytes16 (ipv4Ihl datagram.first + datagram.payload.length)))
    (ethHdrLen + 6) (bytes16 0) with _
  have sizes : ∀ (frame : Frame) (a n : Nat), a + 2 ≤ frame.length → (patch frame a (bytes16 n)).length =
      frame.length := by
    intro frame a n fits
    simp only [patch, bytes16, length_append, length_take, length_drop, length_cons,
      length_nil]
    omega
  have sized : (patch header (ethHdrLen + 2) (bytes16 (ipv4Ihl datagram.first + datagram.payload.length))).length =
      header.length := sizes _ _ _ (by omega)
  have readyLength : ready.length = ethHdrLen + ipv4Ihl datagram.first := by
    rw [sizes _ _ _ (by omega), sized, length]
  have once : datagram.wholeHeader = patch ready (ethHdrLen + 10)
      (bytes16 (ipv4Checksum (slice (patch ready (ethHdrLen + 10) (bytes16 0)) ethHdrLen (ipv4Ihl datagram.first)))) :=
    patch_patch (show ethHdrLen + 10 + (bytes16 0).length ≤ ready.length by simp [bytes16]; omega) rfl
  have front : ∀ n, slice (patch ready (ethHdrLen + 10) (bytes16 n)) ethHdrLen (ipv4Ihl datagram.first) =
      slice ready ethHdrLen 10 ++ bytes16 n ++ slice ready (ethHdrLen + 12) (ipv4Ihl datagram.first - 10 - 2) :=
    fun n => slice_patch readyLength (by simp [bytes16]; omega)
  have two : ∀ n, (bytes16 n).length = 2 := fun _ => rfl
  have untouched : ∀ a < ethHdrLen + ipv4Ihl datagram.first, a ∉ [16, 17, 20, 21] →
      octet ready a = octet datagram.first a := by
    intro a small plain
    simp only [mem_cons] at plain
    rw [octet_patch_outside (by rw [two]; omega) (by rw [two]; omega),
      octet_patch_outside (by rw [two]; omega) (by rw [two]; omega), copied a small]
  rw [once]
  refine ⟨?_, ?_, ?_, ?_, fun a small plain => ?_⟩
  · rw [sizes _ _ _ (by omega), readyLength]
  · rw [word16_patch_outside (by omega) (by omega), word16_patch_outside (by omega) (by omega),
      word16_patch_inside (by omega)]
  · rw [word16_patch_outside (by omega) (by omega), word16_patch_inside (by omega)]
  · rw [front, front]
    refine ipv4Checksum_filled ?_ (wordSum_pos ?_) _
    · rw [slice, length_take, length_drop]
      omega
    · have start : octet (slice ready ethHdrLen 10) 0 = octet ready ethHdrLen := by
        simp only [octet, slice, getD_eq_getElem?_getD, getElem?_take_of_lt (show 0 < 10 by omega),
          getElem?_drop, Nat.add_zero]
      rw [start, untouched _ (by omega) (by decide)]
      omega
  · simp only [mem_cons, not_or] at plain
    rw [octet_patch_outside (by rw [two]; omega) (by rw [two]; omega), untouched a small (by simp [plain])]

lemma whole_packet (short : datagram.Short) : datagram.Whole (datagram.wholeHeader ++ datagram.payload) := by
  obtain ⟨least, -⟩ := datagram.first_length
  have fields := datagram.wholeHeader_fields
  have minimal : ipv4HdrLen = 20 := rfl
  have bound : ipv4Ihl datagram.first + datagram.payload.length ≤ 65535 := short
  have inHeader : ∀ a < ethHdrLen + ipv4Ihl datagram.first,
      octet (datagram.wholeHeader ++ datagram.payload) a = octet datagram.wholeHeader a := by
    intro a small
    simp only [octet, getD_eq_getElem?_getD]
    rw [getElem?_append_left (by rw [fields.length]; exact small)]
  have word : ∀ a, a + 2 ≤ ethHdrLen + ipv4Ihl datagram.first →
      word16 (datagram.wholeHeader ++ datagram.payload) a = word16 datagram.wholeHeader a := by
    intro a small
    rw [word16, inHeader a (by omega), inHeader (a + 1) (by omega), word16]
  have same : ∀ a < ethHdrLen + ipv4Ihl datagram.first, a ∉ [16, 17, 20, 21, 24, 25] →
      octet (datagram.wholeHeader ++ datagram.payload) a = octet datagram.first a :=
    fun a small plain => (inHeader a small).trans (fields.kept a small plain)
  have ihl : ipv4Ihl (datagram.wholeHeader ++ datagram.payload) = ipv4Ihl datagram.first := by
    rw [ipv4Ihl, same _ (by omega) (by decide), ipv4Ihl]
  have totLen : ipv4TotLen (datagram.wholeHeader ++ datagram.payload) =
      ipv4Ihl datagram.first + datagram.payload.length := by
    rw [ipv4TotLen, word _ (by omega), fields.totLen, Nat.mod_eq_of_lt (by omega)]
  refine ⟨ihl, by rw [totLen, ihl], ?_, ?_, ?_, ?_, ?_⟩
  · rw [totLen, length_append, fields.length, Nat.add_assoc]
  · rw [ipv4FragOff, word _ (by omega), fields.fragOff]
  · rw [ihl, slice, drop_append_of_le_length (by rw [fields.length]; omega),
      take_append_of_le_length (by rw [length_drop, fields.length]; omega)]
    exact fields.checksum
  · have copies : ∀ a < ethHdrLen + ipv4HdrLen, a ∉ [16, 17, 20, 21, 24, 25] →
        octet (datagram.wholeHeader ++ datagram.payload) a = octet datagram.first a :=
      fun a small => same a (by omega)
    rw [← datagram.keyed _ datagram.first_spec.1]
    simp only [datagramKey, ipv4Src, ipv4Dest, ipv4Protocol, word32, word16]
    simp (disch := decide) only [copies]
  · rw [fragBytes, fragLength, totLen, ihl, Nat.add_sub_cancel_left, slice, ← fields.length, drop_left,
      take_length]

end Datagram

lemma ReassemblySlot.Collecting.finish
    (collecting : slot.Collecting datagram got) (all : ∀ frame ∈ datagram.frames, frame ∈ got)
    (stored : slot.payload = some buffer) : ipv4ReassemblyFinish slot buffer =
      if datagram.Short then some (datagram.wholeHeader ++ datagram.payload) else none := by
  obtain ⟨total, bytes⟩ := collecting.read_payload all stored
  have arrived := all _ datagram.first_spec.1
  have length : slot.headerLength = ipv4Ihl datagram.first := by rw [collecting.headerLength, if_pos arrived]
  unfold ipv4ReassemblyFinish
  rw [bytes, total, length, collecting.header arrived, take_take, Nat.min_self]
  by_cases short : datagram.Short
  · rw [if_neg (Nat.not_lt.mpr short), if_pos short]
    rfl
  · rw [if_pos (Nat.not_le.mp short), if_neg short]

end Galio

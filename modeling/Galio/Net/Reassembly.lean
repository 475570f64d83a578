import Mathlib.Data.List.Chain
import Mathlib.Data.List.Nodup
import Galio.Net.Fragments

/-! Several datagrams whose fragments arrive in any order: each is handed on once, when its last fragment arrives. -/

namespace Galio

open Function List

open Tiling

/-- A fragment that arrives at a tick, counted without overflow. -/
structure Arrival where
  tick : Nat
  datagram : Datagram
  frame : Frame

/-- `ipv4_input` for a fragment that arrives. -/
def receiveFragment (slots : Ipv4Reassembly) (arrival : Arrival) : Ipv4Reassembly × Option Frame :=
  ipv4Input arrival.datagram.device (arrival.tick % 2 ^ 32) slots arrival.frame

/-- The arrivals for a datagram. -/
def arrivalsFor (arrivals : List Arrival) (datagram : Datagram) : List Arrival :=
  arrivals.filter fun arrival => arrival.datagram.key = datagram.key

/-- The fragments of a datagram that have arrived, in that order. -/
def arrived (arrivals : List Arrival) (datagram : Datagram) : List Frame :=
  (arrivalsFor arrivals datagram).map Arrival.frame

/-- Every fragment arrives once, and the next one of each datagram within the timeout. -/
structure Arriving (datagrams : List Datagram) (arrivals : List Arrival) : Prop where
  known : ∀ arrival ∈ arrivals, arrival.datagram ∈ datagrams
  all : ∀ datagram ∈ datagrams, (arrived arrivals datagram).Perm datagram.frames
  ordered : arrivals.Pairwise fun first second => first.tick ≤ second.tick
  timely : ∀ datagram ∈ datagrams, (arrivalsFor arrivals datagram).IsChain fun first second =>
    second.tick < first.tick + ipv4ReassemblyTimeout

/-- Some fragments of a datagram have arrived, and some are missing. -/
def Incomplete (before : List Arrival) (datagram : Datagram) : Prop :=
  arrived before datagram ≠ [] ∧ ∃ frame ∈ datagram.frames, frame ∉ arrived before datagram

/-- The slots in use are those of the incomplete datagrams, one for each. -/
structure Assembling (datagrams : List Datagram) (before : List Arrival) (slots : Ipv4Reassembly) : Prop where
  buffers : ∀ i, i < ipv4ReassemblySlots → (slots i).payload.isSome
  owned : ∀ i, i < ipv4ReassemblySlots → (slots i).used = true → ∃ datagram ∈ datagrams, Incomplete before datagram ∧
    (slots i).Collecting datagram (arrived before datagram) ∧
    ∃ last ∈ (arrivalsFor before datagram).getLast?, (slots i).lastTick = last.tick % 2 ^ 32
  held : ∀ datagram ∈ datagrams, Incomplete before datagram →
    ∃ i, i < ipv4ReassemblySlots ∧ (slots i).used = true ∧ (slots i).key = datagram.key
  single : ∀ i j, i < ipv4ReassemblySlots → j < ipv4ReassemblySlots → (slots i).used = true → (slots j).used = true →
    (slots i).key = (slots j).key → i = j

/-- Datagrams that the slots have room for, told apart by their keys. -/
structure Separate (datagrams : List Datagram) : Prop where
  few : datagrams.length ≤ ipv4ReassemblySlots
  distinct : (datagrams.map Datagram.key).Nodup

variable {datagram : Datagram} {datagrams : List Datagram} {frame : Frame} {i : Nat} {slots : Ipv4Reassembly}
  {before after : List Arrival} {arrival : Arrival}

lemma Separate.eq (separate : Separate datagrams) {first second : Datagram}
    (here : first ∈ datagrams) (there : second ∈ datagrams) (same : first.key = second.key) : first = second :=
  inj_on_of_nodup_map separate.distinct here there same

section Arrived

lemma arrived_cons_own (same : arrival.datagram.key = datagram.key) (after : List Arrival) :
    arrived (arrival :: after) datagram = arrival.frame :: arrived after datagram := by
  simp [arrived, arrivalsFor, same]

lemma arrived_concat_own (same : arrival.datagram.key = datagram.key) (before : List Arrival) :
    arrived (before ++ [arrival]) datagram = arrived before datagram ++ [arrival.frame] := by
  simp [arrived, arrivalsFor, same]

lemma arrivalsFor_other (other : arrival.datagram.key ≠ datagram.key) (before : List Arrival) :
    arrivalsFor (before ++ [arrival]) datagram = arrivalsFor before datagram := by
  simp [arrivalsFor, other]

end Arrived

namespace Arriving

variable (arriving : Arriving datagrams (before ++ arrival :: after))
include arriving

lemma parted (mem : datagram ∈ datagrams) :
    (arrived before datagram ++ arrived (arrival :: after) datagram).Perm datagram.frames ∧
      (arrived before datagram ++ arrived (arrival :: after) datagram).Nodup := by
  have all := arriving.all datagram mem
  rw [arrived, arrivalsFor, filter_append, map_append] at all
  exact ⟨all, all.nodup_iff.mpr datagram.nodup⟩

lemma known_here : arrival.datagram ∈ datagrams := arriving.known arrival (by simp)

lemma new_here : arrival.frame ∈ arrival.datagram.frames ∧ arrival.frame ∉ arrived before arrival.datagram := by
  obtain ⟨all, nodup⟩ := arriving.parted arriving.known_here
  rw [arrived_cons_own rfl] at all nodup
  refine ⟨all.mem_iff.mp (by simp), fun again => ?_⟩
  exact (nodup_append.mp nodup).2.2 _ again _ mem_cons_self rfl

lemma within (mem : datagram ∈ datagrams) : ∀ frame ∈ arrived before datagram, frame ∈ datagram.frames :=
  fun _ listed => (arriving.parted mem).1.mem_iff.mp (mem_append_left _ listed)

lemma all_here : (∀ frame ∈ arrival.datagram.frames, frame ∈ arrived before arrival.datagram ++ [arrival.frame]) ↔
    arrived after arrival.datagram = [] := by
  obtain ⟨all, nodup⟩ := arriving.parted arriving.known_here
  rw [arrived_cons_own rfl] at all nodup
  rw [← singleton_append, ← append_assoc] at all nodup
  constructor
  · intro complete
    refine eq_nil_iff_forall_not_mem.mpr fun frame later => ?_
    have listed := complete frame (all.mem_iff.mp (mem_append_right _ later))
    exact (nodup_append.mp nodup).2.2 _ listed _ later rfl
  · intro last frame mem
    have listed := all.mem_iff.mpr mem
    rwa [last, append_nil] at listed

lemma incomplete_here : Incomplete (before ++ [arrival]) arrival.datagram ↔ arrived after arrival.datagram ≠
    [] := by
  rw [Ne, ← arriving.all_here, Incomplete, arrived_concat_own rfl]
  simp

lemma unexpired (mem : datagram ∈ datagrams) (incomplete : Incomplete before datagram)
    {last : Arrival} (latest : last ∈ (arrivalsFor before datagram).getLast?) :
    ticksSince (arrival.tick % 2 ^ 32) (last.tick % 2 ^ 32) < ipv4ReassemblyTimeout := by
  -- A fragment is still missing, and the next one comes within the timeout but not before this arrival.
  obtain ⟨-, frame, needed, missing⟩ := incomplete
  have later : frame ∈ arrived (arrival :: after) datagram :=
    (mem_append.mp ((arriving.parted mem).1.mem_iff.mpr needed)).resolve_left missing
  obtain ⟨next, rest, split⟩ : ∃ next rest, arrivalsFor (arrival :: after) datagram = next :: rest :=
    exists_cons_of_ne_nil fun empty => by simp [arrived, empty] at later
  have timely := arriving.timely datagram mem
  rw [arrivalsFor, filter_append] at timely
  have close : next.tick < last.tick + ipv4ReassemblyTimeout :=
    (isChain_append.mp timely).2.2 last latest next (by
      rw [show filter _ (arrival :: after) = next :: rest from split]
      exact rfl)
  obtain ⟨-, ordered, across⟩ := pairwise_append.mp arriving.ordered
  have old : last.tick ≤ arrival.tick :=
    across last (mem_filter.mp (mem_of_getLast? latest)).1 arrival mem_cons_self
  have soon : arrival.tick ≤ next.tick := by
    have first : next ∈ arrivalsFor (arrival :: after) datagram := by
      rw [split]
      exact mem_cons_self
    have listed : next ∈ arrival :: after := (mem_filter.mp first).1
    rcases mem_cons.mp listed with rfl | behind
    · exact Nat.le_refl _
    · exact (pairwise_cons.mp ordered).1 next behind
  rw [ticksSince]
  omega

end Arriving

namespace Assembling

lemma congr {others : Ipv4Reassembly} (assembling : Assembling datagrams before slots)
    (same : ∀ i < ipv4ReassemblySlots, others i = slots i) : Assembling datagrams before others := by
  refine ⟨fun i small => ?_, fun i small => ?_, fun datagram mem incomplete => ?_, fun i j first second => ?_⟩
  · rw [same i small]
    exact assembling.buffers i small
  · rw [same i small]
    exact assembling.owned i small
  · obtain ⟨i, small, found⟩ := assembling.held datagram mem incomplete
    exact ⟨i, small, by rwa [same i small]⟩
  · rw [same i first, same j second]
    exact assembling.single i j first second

lemma expire (assembling : Assembling datagrams before slots)
    (arriving : Arriving datagrams (before ++ arrival :: after)) :
    Assembling datagrams before (ipv4ReassemblyExpire (arrival.tick % 2 ^ 32) slots) := by
  refine assembling.congr fun i small => if_neg ?_
  rintro ⟨used, late⟩
  obtain ⟨datagram, mem, incomplete, -, last, latest, tick⟩ := assembling.owned i small used
  rw [tick] at late
  exact Nat.not_le.mpr (arriving.unexpired mem incomplete latest) late

section

variable (assembling : Assembling datagrams before slots) (separate : Separate datagrams)
  (mem : datagram ∈ datagrams)
include assembling separate mem

lemma collecting_of_key (small : i < ipv4ReassemblySlots)
    (used : (slots i).used) (key : (slots i).key = datagram.key) :
    Incomplete before datagram ∧ (slots i).Collecting datagram (arrived before datagram) := by
  obtain ⟨owner, known, incomplete, collecting, -⟩ := assembling.owned i small used
  obtain rfl := separate.eq known mem (collecting.key.symm.trans key)
  exact ⟨incomplete, collecting⟩

lemma free_slot (fresh : ¬Incomplete before datagram) : ∃ i < ipv4ReassemblySlots, (slots i).used = false := by
  by_contra full
  have used : ∀ i < ipv4ReassemblySlots, (slots i).used := by
    intro i small
    by_contra unused
    exact full ⟨i, small, by simpa using unused⟩
  -- The keys of all slots and that of the datagram would be more than there are datagrams.
  have different : (datagram.key :: (range ipv4ReassemblySlots).map fun i => (slots i).key).Nodup := by
    refine nodup_cons.mpr ⟨fun listed => ?_, ?_⟩
    · obtain ⟨i, inside, key⟩ := mem_map.mp listed
      have small := mem_range.mp inside
      exact fresh (assembling.collecting_of_key separate mem small (used i small) key).1
    · refine List.Nodup.map_on (fun i first j second key => ?_) nodup_range
      have firstSmall := mem_range.mp first
      have secondSmall := mem_range.mp second
      exact assembling.single i j firstSmall secondSmall (used i firstSmall) (used j secondSmall) key
  have listed : (datagram.key :: (range ipv4ReassemblySlots).map fun i => (slots i).key) ⊆
      datagrams.map Datagram.key := by
    intro key inside
    rcases mem_cons.mp inside with rfl | inside
    · exact mem_map_of_mem mem
    · obtain ⟨i, inRange, rfl⟩ := mem_map.mp inside
      have small := mem_range.mp inRange
      obtain ⟨owner, known, -, collecting, -⟩ := assembling.owned i small (used i small)
      rw [collecting.key]
      exact mem_map_of_mem known
  have count := (List.Nodup.subperm different listed).length_le
  simp only [length_cons, length_map, length_range] at count
  have few := separate.few
  omega

end

/-- The slot that a fragment is put into. -/
structure Taken (slots : Ipv4Reassembly) (datagram : Datagram) (got : List Frame)
    (taken : Ipv4Reassembly × Nat) : Prop where
  small : taken.2 < ipv4ReassemblySlots
  collecting : (taken.1 taken.2).Collecting datagram got
  others : ∀ j, j ≠ taken.2 → taken.1 j = slots j
  own : (slots taken.2).used = true → (slots taken.2).key = datagram.key
  alone : ∀ j, j < ipv4ReassemblySlots → j ≠ taken.2 → (slots j).used = true → (slots j).key ≠ datagram.key

/-- A fragment goes to its datagram's slot, or to a free one if it is the first. -/
theorem take (assembling : Assembling datagrams before slots) (separate : Separate datagrams)
    (mem : datagram ∈ datagrams) (listed : frame ∈ datagram.frames) (new : frame ∉ arrived before datagram) :
    ∃ taken, ipv4ReassemblyTake datagram.device.id frame slots = some taken ∧
      Taken slots datagram (arrived before datagram) taken := by
  have keyed := datagram.keyed frame listed
  unfold ipv4ReassemblyTake
  cases found : ipv4ReassemblyFind datagram.device.id frame slots with
  | some i =>
    have small : i < ipv4ReassemblySlots := mem_range.mp (mem_of_find?_eq_some found)
    have collects := find?_some found
    rw [decide_eq_true_eq, ReassemblySlot.collects_iff, keyed] at collects
    obtain ⟨used, -, key⟩ := collects
    refine ⟨_, rfl, small, (assembling.collecting_of_key separate mem small used key).2, fun _ _ => rfl,
      fun _ => key, ?_⟩
    intro j inside other also same
    exact other (assembling.single j i inside small also used (same.trans key.symm))
  | none =>
    -- No slot has the key, so nothing of the datagram has arrived.
    have nowhere : ∀ j < ipv4ReassemblySlots, (slots j).used → (slots j).key ≠ datagram.key := by
      intro j inside used key
      have missed := find?_eq_none.mp found j (mem_range.mpr inside)
      rw [decide_eq_true_eq, ReassemblySlot.collects_iff, keyed] at missed
      exact missed ⟨used, (assembling.collecting_of_key separate mem inside used key).2.device, key⟩
    have fresh : ¬Incomplete before datagram := by
      intro incomplete
      obtain ⟨j, inside, used, key⟩ := assembling.held datagram mem incomplete
      exact nowhere j inside used key
    have empty : arrived before datagram = [] := by
      by_contra some
      exact fresh ⟨some, frame, listed, new⟩
    obtain ⟨j, inside, unused⟩ := assembling.free_slot separate mem fresh
    cases first : (range ipv4ReassemblySlots).find? fun i => !(slots i).used with
    | none =>
      have busy := find?_eq_none.mp first j (mem_range.mpr inside)
      simp [unused] at busy
    | some i =>
      have small : i < ipv4ReassemblySlots := mem_range.mp (mem_of_find?_eq_some first)
      refine ⟨(update slots i ((slots i).reset datagram.device.id frame), i), ?_, small, ?_, ?_, ?_, ?_⟩
      · simp [ipv4ReassemblyNew, first]
      · obtain ⟨buffer, stored⟩ := Option.isSome_iff_exists.mp (assembling.buffers i small)
        dsimp only
        rw [update_self, empty]
        refine ⟨rfl, rfl, keyed, rfl, rfl, rfl, rfl, by simp, buffer, stored, by simp⟩
      · exact fun k other => update_of_ne other ..
      · have idle := find?_some first
        exact fun used => by simp [used] at idle
      · exact fun k inRange _ => nowhere k inRange

lemma incomplete_other (other : arrival.datagram.key ≠ datagram.key) :
    Incomplete (before ++ [arrival]) datagram ↔ Incomplete before datagram := by
  rw [Incomplete, Incomplete, arrived, arrivalsFor_other other, arrived]

lemma owned_other (assembling : Assembling datagrams before slots) (small : i < ipv4ReassemblySlots)
    (used : (slots i).used) (other : (slots i).key ≠ arrival.datagram.key) :
    ∃ datagram ∈ datagrams, Incomplete (before ++ [arrival]) datagram ∧
      (slots i).Collecting datagram (arrived (before ++ [arrival]) datagram) ∧
      ∃ last ∈ (arrivalsFor (before ++ [arrival]) datagram).getLast?, (slots i).lastTick = last.tick % 2 ^ 32 := by
  obtain ⟨datagram, mem, incomplete, collecting, last⟩ := assembling.owned i small used
  have different : arrival.datagram.key ≠ datagram.key := fun same => other (collecting.key.trans same.symm)
  refine ⟨datagram, mem, (incomplete_other different).mpr incomplete, ?_, ?_⟩
  · rwa [arrived, arrivalsFor_other different]
  · rwa [arrivalsFor_other different]

section

variable (assembling : Assembling datagrams before slots) (separate : Separate datagrams)
  (arriving : Arriving datagrams (before ++ arrival :: after))
include assembling separate arriving

lemma store {taken : Ipv4Reassembly × Nat}
    (took : Taken slots arrival.datagram (arrived before arrival.datagram) taken) {slot : ReassemblySlot}
    (collecting : slot.used → slot.Collecting arrival.datagram (arrived before arrival.datagram ++ [arrival.frame]))
    (buffer : slot.payload.isSome) (tick : slot.lastTick = arrival.tick % 2 ^ 32)
    (used : slot.used ↔ arrived after arrival.datagram ≠ []) :
    Assembling datagrams (before ++ [arrival]) (update taken.1 taken.2 slot) := by
  have elsewhere : ∀ j ≠ taken.2, update taken.1 taken.2 slot j = slots j :=
    fun j other => (update_of_ne other ..).trans (took.others j other)
  refine ⟨fun j small => ?_, fun j small busy => ?_, fun datagram mem missing => ?_, fun i j first second => ?_⟩
  · by_cases here : j = taken.2
    · rwa [here, update_self]
    · rw [elsewhere j here]
      exact assembling.buffers j small
  · by_cases here : j = taken.2
    · rw [here, update_self] at busy ⊢
      refine ⟨arrival.datagram, arriving.known_here, arriving.incomplete_here.mpr (used.mp busy), ?_, arrival, ?_, tick⟩
      · rw [arrived_concat_own rfl]
        exact collecting busy
      · simp [arrivalsFor]
    · rw [elsewhere j here] at busy ⊢
      exact assembling.owned_other small busy (took.alone j small here busy)
  · by_cases own : arrival.datagram.key = datagram.key
    · obtain rfl := separate.eq arriving.known_here mem own
      have busy := used.mpr (arriving.incomplete_here.mp missing)
      exact ⟨taken.2, took.small, by rw [update_self]; exact ⟨busy, (collecting busy).key⟩⟩
    · obtain ⟨j, small, busy, key⟩ := assembling.held datagram mem ((incomplete_other own).mp missing)
      have other : j ≠ taken.2 := by
        rintro rfl
        exact own ((took.own busy).symm.trans key)
      exact ⟨j, small, by rw [elsewhere j other]; exact ⟨busy, key⟩⟩
  · have apart : ∀ k < ipv4ReassemblySlots, k ≠ taken.2 → (slots k).used → slot.used →
        (slots k).key ≠ slot.key :=
      fun k small other busy mine same => took.alone k small other busy (same.trans (collecting mine).key)
    by_cases left : i = taken.2 <;> by_cases right : j = taken.2
    · exact fun _ _ _ => left.trans right.symm
    · rw [left, update_self, elsewhere j right]
      exact fun mine busy same => absurd same.symm (apart j second right busy mine)
    · rw [right, update_self, elsewhere i left]
      exact fun busy mine same => absurd same (apart i first left busy mine)
    · rw [elsewhere i left, elsewhere j right]
      exact assembling.single i j first second

lemma reassemble_eq : ∃ taken buffer, Taken (ipv4ReassemblyExpire (arrival.tick % 2 ^ 32) slots) arrival.datagram
        (arrived before arrival.datagram) taken ∧ (taken.1 taken.2).payload = some buffer ∧
      let slot := (taken.1 taken.2).add buffer (arrival.tick % 2 ^ 32) (fragOffset arrival.frame)
        (fragLength arrival.frame) (ipv4Ihl arrival.frame) (fragMore arrival.frame) arrival.frame
      ipv4Reassemble arrival.datagram.device.id (arrival.tick % 2 ^ 32) slots arrival.frame (ipv4Ihl arrival.frame)
          (ipv4TotLen arrival.frame) =
        if slot.headerLength ≠ 0 ∧ ipv4ReassemblyComplete slot = some true then
          (update taken.1 taken.2 { slot with used := false }, slot.payload.bind (ipv4ReassemblyFinish slot))
        else (update taken.1 taken.2 slot, none) := by
  obtain ⟨listed, new⟩ := arriving.new_here
  have known := arriving.known_here
  obtain ⟨taken, taking, took⟩ := (assembling.expire arriving).take separate known listed new
  obtain ⟨buffer, stored, -⟩ := took.collecting.bytes
  refine ⟨taken, buffer, took, stored, ?_⟩
  have fits : ¬(fragOffset arrival.frame + fragLength arrival.frame > ipv4MaxPayload ∨
    fragLength arrival.frame = 0) := by
    have inside := arrival.datagram.inside listed
    have bound := arrival.datagram.fits
    have filled := arrival.datagram.filled _ listed
    omega
  have room : ¬(taken.1 taken.2).ranges.length ≥ ipv4ReassemblyRanges := by
    have total := (arriving.parted known).1.length_eq
    have few := arrival.datagram.few
    rw [arrived_cons_own rfl, length_append, length_cons] at total
    rw [took.collecting.ranges, length_map]
    omega
  have apart := took.collecting.no_overlap (arriving.within known) listed new
  change (if fragOffset arrival.frame + fragLength arrival.frame > ipv4MaxPayload ∨ fragLength arrival.frame = 0 then _
    else _) = _
  rw [if_neg fits]
  dsimp only
  rw [taking]
  dsimp only
  rw [stored]
  dsimp only
  rw [if_neg room]
  exact if_neg apart

end

end Assembling

/-- What is handed on: the whole packet, if its length can be stored. -/
def Delivered (datagram : Datagram) (packet : Option Frame) : Prop :=
  if datagram.Short then ∃ frame, packet = some frame ∧ datagram.Whole frame else packet = none

lemma Datagram.alone (mem : frame ∈ datagram.frames)
    (whole : ¬Ipv4Fragment frame) : datagram.frames = [frame] := by
  have start : fragOffset frame = 0 := by
    have zero : ipv4FragOff frame % 8192 = 0 := by
      by_contra other
      exact whole (.inr other)
    rw [fragOffset, zero]
  have ends : fragOffset frame + fragLength frame = span fragLength datagram.frames := by
    have last : ¬fragMore frame = true := fun more => whole (.inl more)
    rw [datagram.marked frame mem] at last
    have inside := datagram.inside mem
    omega
  have only : ∀ other ∈ datagram.frames, other = frame := by
    intro other listed
    have inside := datagram.inside listed
    have filled := datagram.filled other listed
    rcases datagram.tiles.disjoint listed mem with same | early | late
    · exact same
    · omega
    · omega
  have nodup := datagram.nodup
  cases frames : datagram.frames with
  | nil => exact absurd frames datagram.cut
  | cons head rest =>
    rw [frames] at only nodup
    obtain rfl := only head mem_cons_self
    have empty : rest = [] := eq_nil_iff_forall_not_mem.mpr fun other later => by
      obtain rfl := only other (mem_cons_of_mem _ later)
      exact (nodup_cons.mp nodup).1 later
    rw [empty]

lemma Datagram.delivered_alone (mem : frame ∈ datagram.frames)
    (whole : ¬Ipv4Fragment frame) : Delivered datagram (some frame) := by
  have only := Datagram.alone mem whole
  have first : datagram.first = frame := by rw [Datagram.first, only, headD_cons]
  have payload : datagram.payload = fragBytes frame := by rw [Datagram.payload, only]; simp
  obtain ⟨-, -, -, covered, inside, checksum, -⟩ := datagram.checked frame mem
  have length := fragBytes_length (datagram.checked frame mem)
  have total : ipv4Ihl frame + (fragBytes frame).length = ipv4TotLen frame := by
    rw [length, fragLength]
    omega
  have short : datagram.Short := by
    have bound := word16_lt frame (ethHdrLen + 2)
    rw [Datagram.Short, first, payload, total, ipv4TotLen]
    omega
  have flags : ipv4FragOff frame = 0 := by
    have plain := datagram.plain frame mem
    have offset : ipv4FragOff frame % 8192 = 0 := by
      by_contra other
      exact whole (.inr other)
    have more : ¬(ipv4FragOff frame).testBit 13 = true := fun more => whole (.inl more)
    rw [Nat.testBit_eq_decide_div_mod_eq, decide_eq_true_eq] at more
    omega
  rw [Delivered, if_pos short]
  exact ⟨frame, rfl, by rw [first], by rw [payload, total], inside, flags, checksum, datagram.keyed frame mem,
    payload.symm⟩

namespace Assembling

section

variable (assembling : Assembling datagrams before slots) (separate : Separate datagrams)
  (arriving : Arriving datagrams (before ++ arrival :: after))
include assembling separate arriving

lemma skip (whole : ¬Ipv4Fragment arrival.frame) :
    Assembling datagrams (before ++ [arrival]) slots ∧ arrived after arrival.datagram = [] := by
  obtain ⟨listed, new⟩ := arriving.new_here
  have only := Datagram.alone listed whole
  have last : arrived after arrival.datagram = [] := by
    rw [← arriving.all_here, only]
    simp
  have none : ¬Incomplete before arrival.datagram := by
    rintro ⟨some, -⟩
    obtain ⟨frame, rest, split⟩ := exists_cons_of_ne_nil some
    have old : frame ∈ arrived before arrival.datagram := by rw [split]; exact mem_cons_self
    have same := arriving.within arriving.known_here frame old
    rw [only, mem_singleton] at same
    exact new (same ▸ old)
  refine ⟨⟨assembling.buffers, fun i small used => assembling.owned_other small used ?_,
    fun datagram mem missing => ?_,
    assembling.single⟩, last⟩
  · exact fun key => none (assembling.collecting_of_key separate arriving.known_here small used key).1
  · by_cases own : arrival.datagram.key = datagram.key
    · obtain rfl := separate.eq arriving.known_here mem own
      exact absurd last (arriving.incomplete_here.mp missing)
    · exact assembling.held datagram mem ((incomplete_other own).mp missing)

/-- One arrival keeps the slots, and hands on a datagram exactly if it is the last of its fragments. -/
theorem receive : Assembling datagrams (before ++ [arrival]) (receiveFragment slots arrival).1 ∧
      if arrived after arrival.datagram = [] then Delivered arrival.datagram (receiveFragment slots arrival).2
      else (receiveFragment slots arrival).2 = none := by
  obtain ⟨listed, new⟩ := arriving.new_here
  have checked := arrival.datagram.checked _ listed
  by_cases fragment : Ipv4Fragment arrival.frame
  · have reassembled : receiveFragment slots arrival = ipv4Reassemble arrival.datagram.device.id (arrival.tick % 2 ^ 32)
        slots arrival.frame (ipv4Ihl arrival.frame) (ipv4TotLen arrival.frame) := by
      rw [receiveFragment, ipv4Input, if_neg (not_not.mpr checked), if_pos fragment]
    obtain ⟨taken, buffer, took, stored, result⟩ := assembling.reassemble_eq separate arriving
    rw [reassembled, result]
    have within := arriving.within arriving.known_here
    have collecting := took.collecting.add within listed new stored (arrival.tick % 2 ^ 32)
    have complete := collecting.complete_iff (by
      intro frame mem
      rcases mem_append.mp mem with old | last
      · exact within frame old
      · rwa [mem_singleton.mp last])
    rw [arriving.all_here] at complete
    by_cases last : arrived after arrival.datagram = []
    · rw [if_pos (complete.mpr last), if_pos last]
      refine ⟨(assembling.expire arriving).store separate arriving took (fun busy => by simp at busy) rfl rfl
        (by simp [last]), ?_⟩
      have finished := collecting.finish (arriving.all_here.mpr last) rfl
      rw [show ((taken.1 taken.2).add buffer (arrival.tick % 2 ^ 32) (fragOffset arrival.frame)
        (fragLength arrival.frame) (ipv4Ihl arrival.frame) (fragMore arrival.frame) arrival.frame).payload =
          some (buffer.put _ _ _) from rfl, Option.bind_some, finished, Delivered]
      by_cases short : arrival.datagram.Short
      · rw [if_pos short, if_pos short]
        exact ⟨_, rfl, Datagram.whole_packet short⟩
      · rw [if_neg short, if_neg short]
    · rw [if_neg (fun done => last (complete.mp done)), if_neg last]
      exact ⟨(assembling.expire arriving).store separate arriving took (fun _ => collecting) rfl rfl
        ⟨fun _ => last, fun _ => collecting.used⟩, rfl⟩
  · have direct : receiveFragment slots arrival = (slots, some arrival.frame) := by
      rw [receiveFragment, ipv4Input, if_neg (not_not.mpr checked), if_neg fragment]
    obtain ⟨kept, last⟩ := assembling.skip separate arriving fragment
    rw [direct, if_pos last]
    exact ⟨kept, Datagram.delivered_alone listed fragment⟩

end

end Assembling

/-- The slots after some arrivals. -/
def receiveAll (slots : Ipv4Reassembly) (arrivals : List Arrival) : Ipv4Reassembly :=
  arrivals.foldl (fun slots arrival => (receiveFragment slots arrival).1) slots

/-- No slot is in use, and each one has its buffer. -/
structure Ready (slots : Ipv4Reassembly) : Prop where
  unused : ∀ i, i < ipv4ReassemblySlots → (slots i).used = false
  buffers : ∀ i, i < ipv4ReassemblySlots → (slots i).payload.isSome

lemma Ready.assembling (ready : Ready slots) (datagrams : List Datagram) : Assembling datagrams [] slots := by
  refine ⟨ready.buffers, fun i small used => ?_, fun datagram _ missing => absurd rfl missing.1,
    fun i _ small _ used => ?_⟩
  · simp [ready.unused i small] at used
  · simp [ready.unused i small] at used

lemma assembling_after (separate : Separate datagrams) (ready : Ready slots) (before : List Arrival) :
    ∀ after, Arriving datagrams (before ++ after) → Assembling datagrams before (receiveAll slots before) := by
  -- The arrivals are taken from the end, so that each one follows those before it.
  induction before using reverseRecOn with
  | nil => exact fun _ _ => ready.assembling datagrams
  | append_singleton before arrival ih =>
    intro after arriving
    rw [append_assoc] at arriving
    rw [receiveAll, foldl_append]
    exact ((ih _ arriving).receive separate arriving).1

/--
Fragments may arrive in any order: at every arrival a packet is handed on exactly if it is the last one of its datagram,
and that packet is the whole datagram.
-/
theorem reassembly_any_order {datagrams : List Datagram} (separate : Separate datagrams)
    (short : ∀ datagram ∈ datagrams, datagram.Short) {slots : Ipv4Reassembly} (ready : Ready slots)
    {arrivals : List Arrival} (arriving : Arriving datagrams arrivals) (before after : List Arrival) (arrival : Arrival)
    (split : arrivals = before ++ arrival :: after) :
    if arrived after arrival.datagram = [] then
      ∃ packet, (receiveFragment (receiveAll slots before) arrival).2 = some packet ∧ arrival.datagram.Whole packet
    else (receiveFragment (receiveAll slots before) arrival).2 = none := by
  subst split
  have step := ((assembling_after separate ready before _ arriving).receive separate arriving).2
  rwa [Delivered, if_pos (short _ arriving.known_here)] at step

lemma long_dropped (separate : Separate datagrams) (ready : Ready slots)
    (arriving : Arriving datagrams (before ++ arrival :: after)) (long : ¬arrival.datagram.Short) :
    (receiveFragment (receiveAll slots before) arrival).2 = none := by
  have step := ((assembling_after separate ready before _ arriving).receive separate arriving).2
  rwa [Delivered, if_neg long, ite_self] at step

/-- The header of a fragment to 10.0.0.2 up to its checksum. -/
def sampleFront (field size : Nat) : List UInt8 :=
  [0x45, 0] ++ bytes16 (ipv4HdrLen + size) ++ bytes16 7 ++ bytes16 field ++ [64, 17]

/-- The header of such a fragment. -/
def sampleHeader (field size : Nat) : List UInt8 :=
  sampleFront field size ++ bytes16 (ipv4Checksum (sampleFront field size ++ bytes16 0 ++
    [10, 0, 0, 1, 10, 0, 0, 2])) ++
    [10, 0, 0, 1, 10, 0, 0, 2]

/-- A fragment with some flags and offset, and some data. -/
def sampleFragment (field : Nat) (body : List UInt8) : Frame :=
  List.replicate ethHdrLen 0 ++ (sampleHeader field body.length ++ body)

/-- What is read of such a fragment. -/
structure SampleFields (frame : Frame) (field : Nat) (body : List UInt8) : Prop where
  checked : Ipv4Checked (smallHost 2) frame
  key : datagramKey frame = ⟨0x0A000001, 0x0A000002, 7, 17⟩
  ihl : ipv4Ihl frame = ipv4HdrLen
  fragOff : ipv4FragOff frame = field % 65536
  fragLength : fragLength frame = body.length

lemma sampleFragment_fields (field : Nat) {body : List UInt8} (small : body.length ≤ 65515) :
    SampleFields (sampleFragment field body) field body := by
  have header : ipv4HdrLen = 20 := rfl
  have headed : (sampleHeader field body.length).length = ipv4HdrLen := rfl
  have start : octet (sampleFragment field body) ethHdrLen = 0x45 := rfl
  have ihl : ipv4Ihl (sampleFragment field body) = ipv4HdrLen := by rw [ipv4Ihl, start, header]
  have totLen : ipv4TotLen (sampleFragment field body) = ipv4HdrLen + body.length := by
    have stored : ipv4TotLen (sampleFragment field body) = (ipv4HdrLen + body.length) % 65536 := bytes16_value _
    omega
  have length : (sampleFragment field body).length = ethHdrLen + (ipv4HdrLen + body.length) := by
    rw [sampleFragment, length_append, length_replicate, length_append, headed]
  have key : datagramKey (sampleFragment field body) = ⟨0x0A000001, 0x0A000002, 7, 17⟩ := by
    simp [datagramKey, ipv4Src, ipv4Dest, ipv4Protocol, word32, word16, octet, sampleFragment, sampleHeader,
      sampleFront,
      bytes16, ethHdrLen]
  refine ⟨⟨?_, by rw [start], ?_, ?_, ?_, ?_, .inl ?_⟩, key, ihl, bytes16_value field, ?_⟩
  · omega
  · rw [ihl]
  · omega
  · rw [totLen, length]
  · rw [ihl, slice, sampleFragment, drop_left' length_replicate, take_left' headed]
    exact ipv4Checksum_filled (by simp [sampleFront, bytes16]) (by simp [sampleFront, OnesComplement.wordSum]) _
  · exact congrArg DatagramKey.destination key
  · rw [Galio.fragLength, totLen, ihl, Nat.add_sub_cancel_left]

/-- A payload of zeros and a rest in two fragments. -/
abbrev pieces (units : Nat) (rest : List UInt8) : List Frame :=
  [sampleFragment 0x2000 (replicate (units * 8) 0), sampleFragment units rest]

section Pair

variable {units : Nat} {rest : List UInt8} (few : units < 8190) (short : rest.length < 16)

include few

lemma firstPiece_fields : SampleFields (sampleFragment 0x2000 (replicate (units * 8) 0)) 0x2000
    (replicate (units * 8) 0) := by
  apply sampleFragment_fields
  rw [length_replicate]
  omega

lemma firstPiece_length : fragLength (sampleFragment 0x2000 (replicate (units * 8) 0)) = units * 8 := by
  rw [(firstPiece_fields few).fragLength, length_replicate]

lemma firstPiece_offset : fragOffset (sampleFragment 0x2000 (replicate (units * 8) 0)) = 0 := by
  rw [fragOffset, (firstPiece_fields few).fragOff]

include short

lemma secondPiece_offset : fragOffset (sampleFragment units rest) = units * 8 := by
  rw [fragOffset, (sampleFragment_fields units (by omega)).fragOff]
  omega

lemma pair_span : span fragLength (pieces units rest) = units * 8 + rest.length := by
  rw [Tiling.span, Tiling.span, Tiling.span, firstPiece_length few,
    (sampleFragment_fields units (by omega)).fragLength, Nat.add_zero]

lemma pair_plain : ∀ frame ∈ pieces units rest, ipv4FragOff frame < 0x4000 := by
  refine forall_mem_cons.mpr ⟨?_, forall_mem_singleton.mpr ?_⟩
  · rw [(firstPiece_fields few).fragOff]
    omega
  · rw [(sampleFragment_fields units (by omega)).fragOff]
    omega

lemma pair_tiles : Tiles fragOffset fragLength 0 (pieces units rest) := by
  refine ⟨firstPiece_offset few, ?_, trivial⟩
  rw [secondPiece_offset few short, firstPiece_length few]
  omega

lemma pair_filled (some : 0 < units) (filled : 0 < rest.length) :
    ∀ frame ∈ pieces units rest, 0 < fragLength frame := by
  refine forall_mem_cons.mpr ⟨?_, forall_mem_singleton.mpr ?_⟩
  · rw [firstPiece_length few]
    omega
  · rwa [(sampleFragment_fields units (by omega)).fragLength]

lemma pair_marked (filled : 0 < rest.length) :
    ∀ frame ∈ pieces units rest, fragMore frame ↔ fragOffset frame + fragLength frame <
      span fragLength (pieces units rest) := by
  have second := sampleFragment_fields units (show rest.length ≤ 65515 by omega)
  rw [pair_span few short]
  refine forall_mem_cons.mpr ⟨?_, forall_mem_singleton.mpr ?_⟩ <;>
    rw [fragMore, Nat.testBit_eq_decide_div_mod_eq, decide_eq_true_eq]
  · rw [(firstPiece_fields few).fragOff, firstPiece_offset few, firstPiece_length few]
    omega
  · rw [second.fragOff, secondPiece_offset few short, second.fragLength]
    omega

lemma pair_fits : span fragLength (pieces units rest) ≤ ipv4MaxPayload := by
  have limit : ipv4MaxPayload = 65535 := rfl
  rw [pair_span few short]
  omega

end Pair

/-- A datagram in two pieces, the first of so many units of eight bytes. -/
def samplePair (units : Nat) (rest : List UInt8) (some : 0 < units) (few : units < 8190) (filled : 0 < rest.length)
    (short : rest.length < 16) : Datagram where
  device := smallHost 2
  key := ⟨0x0A000001, 0x0A000002, 7, 17⟩
  frames := [sampleFragment 0x2000 (List.replicate (units * 8) 0), sampleFragment units rest]
  cut := List.cons_ne_nil _ _
  few := Nat.le_add_left 2 _
  checked := List.forall_mem_cons.mpr ⟨(firstPiece_fields few).checked,
    List.forall_mem_singleton.mpr (sampleFragment_fields units (short.le.trans (by decide))).checked⟩
  keyed := List.forall_mem_cons.mpr ⟨(firstPiece_fields few).key,
    List.forall_mem_singleton.mpr (sampleFragment_fields units (short.le.trans (by decide))).key⟩
  plain := pair_plain few short
  filled := pair_filled few short some filled
  tiles := pair_tiles few short
  marked := pair_marked few short filled
  fits := pair_fits few short

lemma samplePair_short (units : Nat) (rest : List UInt8) (some : 0 < units) (few : units < 8190)
    (filled : 0 < rest.length) (short : rest.length < 16) :
    (samplePair units rest some few filled short).Short ↔ 20 + units * 8 + rest.length ≤ 65535 := by
  have total : span fragLength (samplePair units rest some few filled short).frames = units * 8 + rest.length :=
    pair_span few short
  have header : ipv4Ihl (samplePair units rest some few filled short).first = 20 := (firstPiece_fields few).ihl
  rw [Datagram.Short, Datagram.payload_length, total, header, Nat.add_assoc]

/-- Slots with their buffers after `ipv4_init`. -/
def emptySlots : Ipv4Reassembly := ipv4Init fun _ => some fun _ => 0

lemma emptySlots_ready : Ready emptySlots := ⟨fun _ _ => rfl, fun _ _ => rfl⟩

/-- Both pieces of such a datagram arrive, the second one first. -/
def backwards (datagram : Datagram) : List Arrival :=
  datagram.frames.reverse.map fun frame => ⟨0, datagram, frame⟩

lemma backwards_arriving (datagram : Datagram) : Arriving [datagram] (backwards datagram) := by
  have own : arrivalsFor (backwards datagram) datagram = backwards datagram := by
    simp [arrivalsFor, backwards]
  refine ⟨fun arrival mem => ?_, ?_, ?_, ?_⟩
  · obtain ⟨frame, -, rfl⟩ := mem_map.mp mem
    exact mem_singleton.mpr rfl
  · refine forall_mem_singleton.mpr ?_
    rw [arrived, own, backwards]
    simp [comp_def]
  · exact pairwise_map.mpr (pairwise_of_forall fun _ _ => Nat.le_refl 0)
  · refine forall_mem_singleton.mpr ?_
    rw [own]
    refine List.Pairwise.isChain (pairwise_map.mpr (pairwise_of_forall fun _ _ => ?_))
    simp [ipv4ReassemblyTimeout]

lemma single_separate (datagram : Datagram) : Separate [datagram] :=
  ⟨by simp [ipv4ReassemblySlots], nodup_singleton _⟩

/-- A datagram of twelve bytes in two pieces. -/
def smallPair : Datagram := samplePair 1 [1, 2, 3, 4] (by decide) (by decide) (by decide) (by decide)

/-- The theorem at two pieces that arrive in the wrong order. -/
theorem reassembly_any_order_backwards :
    ∃ packet, (receiveFragment (receiveAll emptySlots [⟨0, smallPair, sampleFragment 1 [1, 2, 3, 4]⟩])
      ⟨0, smallPair, sampleFragment 0x2000 (List.replicate (1 * 8) 0)⟩).2 = some packet ∧ smallPair.Whole packet :=
  reassembly_any_order (single_separate smallPair)
    (forall_mem_singleton.mpr ((samplePair_short 1 [1, 2, 3, 4] _ _ _ _).mpr (by decide))) emptySlots_ready
    (backwards_arriving smallPair) [⟨0, smallPair, sampleFragment 1 [1, 2, 3, 4]⟩] [] _ rfl

/-- A datagram of 65520 bytes in two pieces. -/
def longPair : Datagram := samplePair 8189 [0, 0, 0, 0, 0, 0, 0, 0] (by decide) (by decide) (by decide) (by decide)

/-- A datagram whose data is short enough is not handed on if there is no room for its header beside it. -/
theorem long_datagram_dropped :
    Separate [longPair] ∧ Ready emptySlots ∧ Arriving [longPair] (backwards longPair) ∧
      ¬∀ before after arrival, backwards longPair = before ++ arrival :: after →
        if arrived after arrival.datagram = [] then
          ∃ packet, (receiveFragment (receiveAll emptySlots before) arrival).2 = some packet ∧
            arrival.datagram.Whole packet
        else (receiveFragment (receiveAll emptySlots before) arrival).2 = none := by
  refine ⟨single_separate longPair, emptySlots_ready, backwards_arriving longPair, fun handed => ?_⟩
  obtain ⟨second, first, split, own⟩ : ∃ second first, backwards longPair = [second] ++ first :: [] ∧
      first.datagram = longPair := ⟨_, _, rfl, rfl⟩
  have long : ¬first.datagram.Short := by
    rw [own]
    exact fun short => absurd ((samplePair_short 8189 _ _ _ _ _).mp short) (by decide)
  have given := handed _ _ _ split
  obtain ⟨packet, whole⟩ := given
  have arriving := backwards_arriving longPair
  rw [split] at arriving
  have dropped := long_dropped (single_separate longPair) emptySlots_ready arriving long
  exact Option.some_ne_none packet (whole.1.symm.trans dropped)

end Galio

import Mathlib.Data.List.Nodup
import Mathlib.Logic.Function.Iterate
import Galio.Mm.Pmem

/-! What the allocator's primitives do to one frame, and the state `pmem_init` leaves. -/

namespace Galio

open Function Pmem List

variable {frames : List Nat} {other count frame start limit numFrames : Nat} {pmem : Pmem}

/-- Everything the allocator records about one frame. -/
structure FrameCell where
  used : Bool
  count : UInt8
  taken : Nat
  released : Nat

/-- The record of one frame. -/
def Pmem.cell (pmem : Pmem) (frame : Nat) : FrameCell :=
  ⟨pmem.frameBitmap frame, pmem.frameRefcount frame, pmem.taken frame, pmem.released frame⟩

/-- A reference taken on a frame. -/
def FrameCell.ref (cell : FrameCell) : FrameCell :=
  ⟨cell.used || cell.count == 0, cell.count + 1, cell.taken + 1, cell.released⟩

/-- A reference released on a frame, which does nothing at count zero. -/
def FrameCell.deref (cell : FrameCell) : FrameCell :=
  if cell.count = 0 then cell
  else ⟨cell.used && cell.count - 1 != 0, cell.count - 1, cell.taken, cell.released + 1⟩

lemma cell_refFrame (pmem : Pmem) (frame other : Nat) : (pmem.refFrame frame).cell other =
      if other = frame ∧ frame < maxFrames then (pmem.cell other).ref else pmem.cell other := by
  by_cases outside : frame ≥ maxFrames
  · simp [refFrame, outside, Nat.not_lt.mpr outside]
  have tracked : frame < maxFrames := Nat.lt_of_not_le outside
  by_cases same : other = frame
  -- The bitmap bit is only written on the step away from zero.
  · subst other
    by_cases zero : pmem.frameRefcount frame = 0
    <;> simp [refFrame, setFrame, cell, FrameCell.ref, outside, tracked, zero]
  · by_cases zero : pmem.frameRefcount frame = 0
    <;> simp [refFrame, setFrame, cell, outside, zero, same]

lemma cell_derefFrame (pmem : Pmem) (frame other : Nat) : (pmem.derefFrame frame).cell other =
      if other = frame ∧ frame < maxFrames then (pmem.cell other).deref else pmem.cell other := by
  by_cases outside : frame ≥ maxFrames
  · simp [derefFrame, outside, Nat.not_lt.mpr outside]
  have tracked : frame < maxFrames := Nat.lt_of_not_le outside
  by_cases zero : pmem.frameRefcount frame = 0
  -- A release at count zero returns at once.
  · by_cases same : other = frame
    · subst other
      simp [derefFrame, cell, FrameCell.deref, zero]
    · simp [derefFrame, zero, same]
  -- The bit is cleared on the step down to zero.
  · by_cases last : pmem.frameRefcount frame - 1 = 0 <;> by_cases same : other = frame
    · subst other
      simp [derefFrame, unsetFrame, cell, FrameCell.deref, outside, zero, last]
    · simp [derefFrame, unsetFrame, cell, outside, zero, last, same]
    · subst other
      simp [derefFrame, cell, FrameCell.deref, outside, tracked, zero, last]
    · simp [derefFrame, cell, outside, zero, last, same]

@[simp] lemma cell_used (pmem : Pmem) (frame : Nat) : (pmem.cell frame).used = pmem.frameBitmap frame := rfl

@[simp] lemma cell_count (pmem : Pmem) (frame : Nat) : (pmem.cell frame).count = pmem.frameRefcount frame := rfl

@[simp] lemma cell_taken (pmem : Pmem) (frame : Nat) : (pmem.cell frame).taken = pmem.taken frame := rfl

@[simp] lemma cell_released (pmem : Pmem) (frame : Nat) : (pmem.cell frame).released = pmem.released frame := rfl

lemma refFrames_append (pmem : Pmem) (frames more : List Nat) :
    pmem.refFrames (frames ++ more) = (pmem.refFrames frames).refFrames more := by
  simp only [refFrames, foldl_append]

section Loops

variable {step : Pmem → Nat → Pmem} (change : FrameCell → FrameCell) (acts : ∀ pmem frame other,
  (step pmem frame).cell other =
    if other = frame ∧ frame < maxFrames then change (pmem.cell other) else pmem.cell other)
include acts

/-- A loop whose body changes the record of its own frame changes each record once for each visit. -/
theorem cell_foldl (frames : List Nat) (pmem : Pmem) (other : Nat) : (frames.foldl step pmem).cell other =
      if other < maxFrames then change^[frames.count other] (pmem.cell other) else pmem.cell other := by
  induction frames generalizing pmem with
  | nil => simp
  | cons frame rest ih =>
    rw [foldl_cons, ih, acts]
    by_cases same : other = frame
    · subst same
      by_cases tracked : other < maxFrames <;> simp [tracked]
    · simp [same, count_cons_of_ne (Ne.symm same)]

lemma cell_foldl_of_notMem (absent : other ∉ frames) (pmem : Pmem) :
    (frames.foldl step pmem).cell other = pmem.cell other := by
  rw [cell_foldl change acts, count_eq_zero_of_not_mem absent]
  exact ite_self _

/-- Where a second change does nothing, it does not matter how often a frame is visited. -/
theorem cell_foldl_once (once : ∀ cell, change (change cell) = change cell) (frames : List Nat) (pmem : Pmem)
    (other : Nat) : (frames.foldl step pmem).cell other =
      if other ∈ frames ∧ other < maxFrames then change (pmem.cell other) else pmem.cell other := by
  by_cases listed : other ∈ frames
  · obtain ⟨visits, counted⟩ := Nat.exists_eq_add_one.mpr (count_pos_iff.mpr listed)
    rw [cell_foldl change acts, counted, iterate_succ_apply, iterate_fixed (once _)]
    simp only [listed, true_and]
  · rw [cell_foldl_of_notMem change acts listed, if_neg fun both => listed both.1]

end Loops

lemma cell_refFrames_of_notMem (absent : other ∉ frames)
    (pmem : Pmem) : (pmem.refFrames frames).cell other = pmem.cell other :=
  cell_foldl_of_notMem FrameCell.ref cell_refFrame absent pmem

lemma cell_refFrames (distinct : frames.Nodup) (pmem : Pmem) (other : Nat) : (pmem.refFrames frames).cell other =
      if other ∈ frames ∧ other < maxFrames then (pmem.cell other).ref else pmem.cell other := by
  by_cases listed : other ∈ frames
  · rw [refFrames, cell_foldl FrameCell.ref cell_refFrame, count_eq_one_of_mem distinct listed, iterate_one]
    simp only [listed, true_and]
  · rw [cell_refFrames_of_notMem listed, if_neg fun both => listed both.1]

lemma cell_derefFrames_of_notMem (absent : other ∉ frames)
    (pmem : Pmem) : (pmem.derefFrames frames).cell other = pmem.cell other :=
  cell_foldl_of_notMem FrameCell.deref cell_derefFrame absent pmem

lemma derefFrames_keeps {holds : FrameCell → Prop} (kept : ∀ cell, holds cell → holds cell.deref)
    (frames : List Nat) (before : holds (pmem.cell frame)) : holds ((pmem.derefFrames frames).cell frame) := by
  rw [derefFrames, cell_foldl FrameCell.deref cell_derefFrame]
  split
  · exact Function.Iterate.rec holds before kept _
  · exact before

lemma frameRange_nodup (frame : Nat) (fits : count ≤ 2 ^ 32) : (frameRange frame count).Nodup := by
  -- Fewer than 2^32 consecutive sums stay distinct modulo 2^32.
  refine List.Nodup.map_on ?_ nodup_range
  intro i below j inside same
  simp only [mem_range] at below inside
  omega

lemma mem_frameRange (fits : frame + count ≤ maxFrames) :
    other ∈ frameRange frame count ↔ frame ≤ other ∧ other < frame + count := by
  simp only [frameRange, mem_map, mem_range, maxFrames] at fits ⊢
  constructor
  · rintro ⟨i, below, rfl⟩
    omega
  · intro inside
    exact ⟨other - frame, by omega, by omega⟩

lemma framesFree_iff : framesFree pmem frame count ↔
      ∀ i < count, frame + i < maxFrames ∧ pmem.frameBitmap (frame + i) = false := by
  -- An untracked frame reads as used, so a free frame is a tracked one.
  simp only [framesFree, all_eq_true, mem_range]
  refine forall_congr' fun i => forall_congr' fun _ => ?_
  unfold getFrame
  by_cases outside : frame + i ≥ maxFrames
  · simp [Nat.not_lt.mpr outside]
  · simp [Nat.lt_of_not_le outside]

lemma findFrames_some (found : findFrames pmem start limit count = some frame) :
    start ≤ frame ∧ frame + count ≤ limit ∧ framesFree pmem frame count := by
  have member := mem_of_find?_eq_some found
  simp only [mem_range'_1] at member
  exact ⟨member.1, by omega, by simpa using find?_some found⟩

lemma findFrames_passes (found : findFrames pmem start limit count = some frame) {earlier : Nat}
    (above : start ≤ earlier) (before : earlier < frame) : framesFree pmem earlier count = false := by
  simpa using (find?_range'_eq_some.mp found).2.2 earlier above before

lemma findFrames_isSome (above : start ≤ frame) (fits : frame + count ≤ limit)
    (free : framesFree pmem frame count) : ∃ found, findFrames pmem start limit count = some found := by
  refine Option.isSome_iff_exists.mp (find?_isSome.mpr ⟨frame, ?_, free⟩)
  rw [mem_range'_1]
  omega

lemma cell_setFrame (pmem : Pmem) (frame other : Nat) : (pmem.setFrame frame).cell other =
      if other = frame ∧ frame < maxFrames then { pmem.cell other with used := true } else pmem.cell other := by
  by_cases outside : frame ≥ maxFrames <;> by_cases same : other = frame
    <;> simp [setFrame, cell, outside, same, Nat.not_lt.mpr]

lemma cell_releaseFrame (pmem : Pmem) (frame other : Nat) :
    cell { pmem.unsetFrame frame with totalFrames := pmem.totalFrames + 1 } other =
      if other = frame ∧ frame < maxFrames then { pmem.cell other with used := false } else pmem.cell other := by
  by_cases outside : frame ≥ maxFrames <;> by_cases same : other = frame
    <;> simp [unsetFrame, cell, outside, same, Nat.not_lt.mpr]

lemma cell_reserveFrames (frames : List Nat) (pmem : Pmem) (other : Nat) :
    (reserveFrames pmem frames).cell other = if other ∈ frames ∧ other < maxFrames then
        if (pmem.cell other).count = 0 then (pmem.cell other).ref else pmem.cell other else pmem.cell other := by
  -- The count is one after the first visit, so a later visit passes the frame by.
  refine cell_foldl_once (fun cell => if cell.count = 0 then cell.ref else cell) (fun pmem frame other => ?_)
    (fun cell => ?_) frames pmem other
  · by_cases same : other = frame <;> by_cases zero : pmem.frameRefcount frame = 0
      <;> simp [cell_refFrame, same, zero]
  · by_cases zero : cell.count = 0 <;> simp [zero, FrameCell.ref]

/-- The frames a boot hands over: the memory map's, or the default range. -/
def handedFrames : Option (List MmapEntry) → List Nat
  | none => defaultFrames
  | some entries => entries.flatMap MmapEntry.frames

/-- The record of a frame before `pmem_init` reserves the kernel and low memory. -/
def openCell (mmap : Option (List MmapEntry)) (frame : Nat) : FrameCell :=
  ⟨decide (frame < maxFrames) && !decide (frame ∈ handedFrames mmap ∧ frame < maxFrames), 0, 0, 0⟩

lemma pmemInit_eq (mmap : Option (List MmapEntry)) : pmemInit mmap = reserveFrames (reserveFrames
      (releaseFrames ((range maxFrames).foldl setFrame pmemBoot) (handedFrames mmap))
      (range' (0x100000 / frameSize) (kernelHeapEnd / frameSize - 0x100000 / frameSize)))
      (range (0x100000 / frameSize)) := by
  unfold pmemInit handedFrames
  cases mmap with
  | none => dsimp only
  | some entries => simp only [releaseFrames, foldl_flatMap]

lemma cell_opened (mmap : Option (List MmapEntry)) (frame : Nat) : (releaseFrames
      ((range maxFrames).foldl setFrame pmemBoot) (handedFrames mmap)).cell frame = openCell mmap frame := by
  rw [releaseFrames, cell_foldl_once (fun cell => { cell with used := false }) cell_releaseFrame fun _ => rfl,
    cell_foldl_once (fun cell => { cell with used := true }) cell_setFrame fun _ => rfl]
  by_cases tracked : frame < maxFrames <;> by_cases handed : frame ∈ handedFrames mmap
    <;> simp [openCell, cell, pmemBoot, tracked, handed]

lemma cell_pmemInit (mmap : Option (List MmapEntry)) (frame : Nat) : (pmemInit mmap).cell frame =
      if frame < kernelHeapEnd / frameSize then (openCell mmap frame).ref else openCell mmap frame := by
  have untouched : (openCell mmap frame).count = 0 := rfl
  rw [pmemInit_eq, cell_reserveFrames, cell_reserveFrames, cell_opened]
  -- The two reserved ranges meet at one megabyte, so together they end where the kernel does.
  simp only [frameSize, kernelHeapEnd, maxFrames]
  by_cases low : frame < 256
  · have inside : frame < 5632 := by omega
    have apart : ¬ 256 ≤ frame := by omega
    have tracked : frame < 32768 := by omega
    simp [inside, apart, tracked, untouched]
  · by_cases inside : frame < 5632
    · have tracked : frame < 32768 := by omega
      simp [low, inside, tracked, untouched]
    · simp [low, inside]

/-- A free frame has no references. -/
def FrameCell.Clean (cell : FrameCell) : Prop :=
  cell.used = false → cell.count = 0

/-- Every free frame has no references. -/
def Pmem.Clean (pmem : Pmem) : Prop :=
  ∀ frame, (pmem.cell frame).Clean

lemma Pmem.Clean.count_zero (clean : pmem.Clean)
    (clear : pmem.frameBitmap frame = false) : pmem.frameRefcount frame = 0 :=
  clean frame clear

lemma Pmem.Clean.used_of_count (clean : pmem.Clean)
    (count : pmem.frameRefcount frame ≠ 0) : pmem.frameBitmap frame := by
  by_contra clear
  rw [Bool.not_eq_true] at clear
  exact count (clean.count_zero clear)

variable {cell : FrameCell}

lemma FrameCell.Clean.ref_used (clean : cell.Clean) : cell.ref.used := by
  -- The bit was set already, or the count was zero and sets it now.
  cases bit : cell.used with
  | true => simp [FrameCell.ref, bit]
  | false => simp [FrameCell.ref, clean bit]

lemma FrameCell.Clean.ref (clean : cell.Clean) : cell.ref.Clean := by
  intro clear
  rw [clean.ref_used] at clear
  simp at clear

lemma FrameCell.Clean.deref (clean : cell.Clean) : cell.deref.Clean := by
  unfold FrameCell.deref
  split
  · exact clean
  rename_i held
  -- The bit was set, so it is clear now only if this was the last reference.
  intro clear
  simp only [Bool.and_eq_false_iff, bne_eq_false_iff_eq] at clear
  rcases clear with clear | last
  · exact absurd (clean clear) held
  · exact last

lemma Pmem.Clean.refFrames (clean : pmem.Clean) (frames : List Nat) : (pmem.refFrames frames).Clean := by
  induction frames generalizing pmem with
  | nil => exact clean
  | cons head _ ih =>
    refine ih fun frame => ?_
    rw [cell_refFrame]
    split
    · exact (clean frame).ref
    · exact clean frame

lemma Pmem.Clean.derefFrames (clean : pmem.Clean) (frames : List Nat) : (pmem.derefFrames frames).Clean :=
  fun frame => derefFrames_keeps (fun _ kept => kept.deref) frames (clean frame)

lemma Pmem.Clean.frameBitmap_refFrames (clean : pmem.Clean) (frames : List Nat) (other : Nat) :
    (pmem.refFrames frames).frameBitmap other =
      (pmem.frameBitmap other || decide (other ∈ frames ∧ other < maxFrames)) := by
  induction frames generalizing pmem with
  | nil => simp [Pmem.refFrames]
  | cons head rest ih =>
    -- The first reference sets the bit of its frame, and the state stays clean for the rest.
    have step : (pmem.refFrame head).frameBitmap other =
        (pmem.frameBitmap other || decide (other = head ∧ head < maxFrames)) := by
      rw [← cell_used, cell_refFrame]
      split
      · rename_i first
        rw [(clean other).ref_used, decide_eq_true first, Bool.or_true]
      · rename_i apart
        simp [apart]
    have kept : (pmem.refFrame head).Clean := clean.refFrames [head]
    show ((pmem.refFrame head).refFrames rest).frameBitmap other = _
    rw [ih kept, step]
    by_cases same : other = head
    · subst other
      by_cases tracked : head < maxFrames
      · simp [tracked]
      · simp [tracked]
    · simp [same]

lemma frameRefcount_refFrames (tracked : other < maxFrames) (frames : List Nat) (pmem : Pmem) :
    (pmem.refFrames frames).frameRefcount other = pmem.frameRefcount other + UInt8.ofNat (frames.count other) := by
  have visited (cell : FrameCell) (visits : Nat) :
      (FrameCell.ref^[visits] cell).count = cell.count + UInt8.ofNat visits := by
    induction visits with
    | zero => simp
    | succ visits ih =>
      rw [iterate_succ_apply', FrameCell.ref, ih, UInt8.ofNat_add, UInt8.add_assoc]
      rfl
  rw [← cell_count, refFrames, cell_foldl FrameCell.ref cell_refFrame, if_pos tracked, visited, cell_count]

lemma FrameCell.released_deref (cell : FrameCell) :
    cell.deref.released = if cell.count = 0 then cell.released else cell.released + 1 := by
  unfold FrameCell.deref
  split <;> rfl

lemma FrameCell.taken_deref (cell : FrameCell) : cell.deref.taken = cell.taken := by
  unfold FrameCell.deref
  split <;> rfl

lemma FrameCell.count_deref (cell : FrameCell) : cell.deref.count.toNat = cell.count.toNat - 1 := by
  unfold FrameCell.deref
  split
  · rename_i zero
    rw [zero]
    rfl
  · rename_i held
    have positive : (1 : UInt8) ≤ cell.count := by
      have nonzero : cell.count.toNat ≠ 0 := fun zero => held (UInt8.toNat_inj.mp zero)
      show 1 ≤ cell.count.toNat
      omega
    exact UInt8.toNat_sub_of_le _ _ positive

lemma frameRefcount_derefFrames (tracked : other < maxFrames) (frames : List Nat) (pmem : Pmem) :
    ((pmem.derefFrames frames).frameRefcount other).toNat =
      (pmem.frameRefcount other).toNat - frames.count other := by
  have visited (cell : FrameCell) (visits : Nat) :
      (FrameCell.deref^[visits] cell).count.toNat = cell.count.toNat - visits := by
    induction visits with
    | zero => rfl
    | succ visits ih => rw [iterate_succ_apply', FrameCell.count_deref, ih, Nat.sub_sub]
  rw [← cell_count, derefFrames, cell_foldl FrameCell.deref cell_derefFrame, if_pos tracked, visited, cell_count]

lemma frameRange_eq (fits : frame + count ≤ maxFrames) : frameRange frame count = range' frame count := by
  rw [range'_eq_map_range]
  refine map_congr_left fun i below => ?_
  simp only [mem_range, maxFrames] at below fits
  omega

variable {minAddr maxAddr : Nat}

lemma pmemAllocRegion_ok (returned : (pmemAllocRegion pmem numFrames minAddr maxAddr).2 ≠ 0) :
    ∃ frame, (pmemAllocRegion pmem numFrames minAddr maxAddr).2 = frame * frameSize ∧
      (pmemAllocRegion pmem numFrames minAddr maxAddr).1 = pmem.refFrames (range' frame numFrames) ∧
      (minAddr + frameSize - 1) % 2 ^ 32 / frameSize ≤ frame ∧
      frame + numFrames ≤ min (maxAddr / frameSize) maxFrames ∧ framesFree pmem frame numFrames := by
  unfold pmemAllocRegion at returned ⊢
  split at returned
  · exact absurd rfl returned
  rename_i accepted
  rw [if_neg accepted]
  dsimp only at returned ⊢
  split at returned
  · rename_i frame found
    obtain ⟨above, below, free⟩ := findFrames_some found
    exact ⟨frame, rfl, by rw [frameRange_eq (by omega)], above, below, free⟩
  · exact absurd rfl returned

lemma pmemAllocRegion_fail (high : 0 < (minAddr + frameSize - 1) % 2 ^ 32 / frameSize)
    (failed : (pmemAllocRegion pmem numFrames minAddr maxAddr).2 = 0) :
    (pmemAllocRegion pmem numFrames minAddr maxAddr).1 = pmem := by
  unfold pmemAllocRegion at failed ⊢
  split
  · rfl
  rename_i accepted
  rw [if_neg accepted] at failed
  dsimp only at failed ⊢
  split
  · rename_i frame found
    -- The frame found lies above zero, so its address is not zero.
    obtain ⟨above, _, _⟩ := findFrames_some found
    rw [found] at failed
    simp only [frameSize] at failed above high
    omega
  · rfl

lemma address_div (frame : Nat) : frame * frameSize / frameSize = frame :=
  Nat.mul_div_cancel frame (by decide)

lemma pmemSearch_some (found : pmemSearch pmem numFrames = some frame) : framesFree pmem frame numFrames := by
  unfold pmemSearch at found
  split at found
  · rename_i first located
    cases found
    exact (findFrames_some located).2.2
  · exact (findFrames_some found).2.2

lemma framesFree_bound (positive : count ≠ 0) (free : framesFree pmem frame count) : frame + count ≤ maxFrames := by
  have last := (framesFree_iff.mp free (count - 1) (by omega)).1
  omega

lemma pmemSearch_isSome_iff (positive : numFrames ≠ 0) : (∃ found, pmemSearch pmem numFrames = some found) ↔
    ∃ frame, framesFree pmem frame numFrames ∧
      (frame + numFrames ≤ pmem.allocationCursor ∨ pmem.allocationCursor ≤ frame) := by
  unfold pmemSearch
  constructor
  · rintro ⟨found, located⟩
    split at located
    · rename_i first passes
      obtain ⟨above, -, free⟩ := findFrames_some passes
      exact ⟨first, free, .inr above⟩
    · obtain ⟨-, below, free⟩ := findFrames_some located
      exact ⟨found, free, .inl below⟩
  · rintro ⟨frame, free, place⟩
    split
    · exact ⟨_, rfl⟩
    -- The first pass starts at the cursor, so the run ends below it.
    rename_i missed
    rcases place with below | above
    · exact findFrames_isSome (Nat.zero_le _) below free
    · obtain ⟨found, located⟩ := findFrames_isSome above (framesFree_bound positive free) free
      exact absurd (located.symm.trans missed) (by simp)

lemma pmemTake_ok (positive : numFrames ≠ 0) (returned : (pmemTake pmem numFrames).2 ≠ 0) :
    ∃ frame, (pmemTake pmem numFrames).2 = frame * frameSize ∧
      (pmemTake pmem numFrames).1 = { pmem.refFrames (range' frame numFrames) with
        allocationCursor := (frame + numFrames) % maxFrames } ∧
      framesFree pmem frame numFrames := by
  unfold pmemTake at returned ⊢
  split at returned
  · exact absurd rfl returned
  rename_i fits
  rw [if_neg fits]
  split at returned
  · rename_i frame found
    have free := pmemSearch_some found
    exact ⟨frame, rfl, by rw [frameRange_eq (framesFree_bound positive free)], free⟩
  · exact absurd rfl returned

/-- An allocation takes one reference on each frame it returns. -/
theorem pmemTake_taken (positive : numFrames ≠ 0) (returned : (pmemTake pmem numFrames).2 ≠ 0) :
    ∃ frame, (pmemTake pmem numFrames).2 = frame * frameSize ∧ ∀ other, (pmemTake pmem numFrames).1.taken other =
      pmem.taken other + if other ∈ range' frame numFrames then 1 else 0 := by
  obtain ⟨frame, address, after, free⟩ := pmemTake_ok positive returned
  have bound := framesFree_bound positive free
  refine ⟨frame, address, fun other => ?_⟩
  rw [after]
  show ((pmem.refFrames _).cell other).taken = _
  simp only [cell_refFrames nodup_range', mem_range'_1]
  split <;> split <;> first | rfl | omega

/-- The counters of the allocator. -/
def Pmem.counters (pmem : Pmem) : UInt32 × UInt32 × Nat :=
  (pmem.totalFrames, pmem.usedFrames, pmem.allocationCursor)

lemma counters_setFrames (frames : List Nat) (pmem : Pmem) :
    (frames.foldl setFrame pmem).counters = pmem.counters := by
  induction frames generalizing pmem with
  | nil => rfl
  | cons frame rest ih =>
    refine (ih _).trans ?_
    unfold setFrame
    split <;> rfl

lemma counters_releaseFrames (frames : List Nat) (pmem : Pmem) : (releaseFrames pmem frames).counters =
      (pmem.totalFrames + UInt32.ofNat frames.length, pmem.usedFrames, pmem.allocationCursor) := by
  induction frames generalizing pmem with
  | nil => simp [releaseFrames, counters]
  | cons frame rest ih =>
    have unset : (pmem.unsetFrame frame).usedFrames = pmem.usedFrames ∧
        (pmem.unsetFrame frame).allocationCursor = pmem.allocationCursor := by
      unfold unsetFrame
      split <;> exact ⟨rfl, rfl⟩
    rw [releaseFrames, foldl_cons]
    refine (ih _).trans ?_
    rw [unset.1, unset.2, length_cons, Nat.add_comm, UInt32.ofNat_add, ← UInt32.add_assoc]
    rfl

lemma counters_reserveFrames (distinct : frames.Nodup) (pmem : Pmem)
    (fresh : ∀ frame ∈ frames, frame < maxFrames ∧ pmem.frameRefcount frame = 0) :
    (reserveFrames pmem frames).counters =
      (pmem.totalFrames, pmem.usedFrames + UInt32.ofNat frames.length, pmem.allocationCursor) := by
  induction frames generalizing pmem with
  | nil => simp [reserveFrames, counters]
  | cons frame rest ih =>
    obtain ⟨absent, distinct⟩ := nodup_cons.mp distinct
    obtain ⟨tracked, zero⟩ := fresh frame mem_cons_self
    rw [reserveFrames, foldl_cons, if_pos zero]
    refine (ih distinct (pmem.refFrame frame) fun other later => ?_).trans ?_
    · have apart : other ≠ frame := fun same => absent (same ▸ later)
      rw [← cell_count, cell_refFrame, if_neg fun both => apart both.1]
      exact fresh other (mem_cons_of_mem _ later)
    · rw [length_cons, Nat.add_comm, UInt32.ofNat_add, ← UInt32.add_assoc]
      simp only [refFrame, setFrame, Nat.not_le.mpr tracked, zero, if_true, if_false]
      rfl

lemma reserveFrames_append (pmem : Pmem) (frames more : List Nat) :
    reserveFrames pmem (frames ++ more) = reserveFrames (reserveFrames pmem frames) more := foldl_append

/-- The allocator that `pmem_init` leaves without a memory map. -/
def bootPmem : Pmem where
  frameBitmap frame := decide (frame < 5632)
  frameRefcount frame := if frame < 5632 then 1 else 0
  totalFrames := 32512
  usedFrames := 5632
  allocationCursor := 0
  taken frame := if frame < 5632 then 1 else 0
  released _ := 0

lemma cell_pmemInit_none (frame : Nat) : (pmemInit none).cell frame = bootPmem.cell frame := by
  have handed : frame ∈ handedFrames none ↔ 256 ≤ frame ∧ frame < 32768 := by
    simp only [handedFrames, defaultFrames, mem_range'_1, frameSize]
  rw [cell_pmemInit]
  by_cases low : frame < 5632
  · have inside : frame < kernelHeapEnd / frameSize := low
    simp [inside, openCell, FrameCell.ref, cell, bootPmem, low]
  · have outside : ¬frame < kernelHeapEnd / frameSize := low
    have opened : openCell none frame = ⟨false, 0, 0, 0⟩ := by
      by_cases tracked : frame < 32768
      · have above : 256 ≤ frame := by omega
        simp [openCell, handed, maxFrames, tracked, above]
      · simp [openCell, maxFrames, tracked]
    rw [if_neg outside, opened]
    simp [cell, bootPmem, low]

lemma counters_pmemInit_none : (pmemInit none).counters = bootPmem.counters := by
  have start := counters_setFrames (range maxFrames) pmemBoot
  have released := counters_releaseFrames (handedFrames none) ((range maxFrames).foldl setFrame pmemBoot)
  have opened := cell_opened none
  simp only [counters, Prod.mk.injEq] at start released
  rw [start.1, start.2.1, start.2.2] at released
  -- The kernel and the low megabyte are reserved in one loop, over frames that no one has a reference on.
  rw [pmemInit_eq, ← reserveFrames_append]
  generalize releaseFrames _ (handedFrames none) = pmem at released opened
  have zero : ∀ frame, pmem.frameRefcount frame = 0 := fun frame => by
    rw [← cell_count, opened]
    rfl
  rw [counters_reserveFrames, released.1, released.2.1, released.2.2]
  · simp [handedFrames, defaultFrames, frameSize, kernelHeapEnd]
    decide
  · refine Nodup.append nodup_range' nodup_range fun frame high low => ?_
    rw [mem_range'_1] at high
    rw [mem_range] at low
    omega
  · intro frame listed
    rw [mem_append, mem_range'_1, mem_range] at listed
    simp only [frameSize, kernelHeapEnd, maxFrames] at listed ⊢
    exact ⟨by omega, zero frame⟩

lemma pmemInit_none : pmemInit none = bootPmem := by
  have cells := cell_pmemInit_none
  have counters := counters_pmemInit_none
  generalize pmemInit none = pmem at cells counters
  obtain ⟨bitmap, refcount, total, used, cursor, taken, released⟩ := pmem
  simp only [Pmem.counters, Prod.mk.injEq] at counters
  obtain ⟨rfl, rfl, rfl⟩ := counters
  simp only [cell, FrameCell.mk.injEq] at cells
  rw [Pmem.mk.injEq]
  exact ⟨funext fun frame => (cells frame).1, funext fun frame => (cells frame).2.1, rfl, rfl, rfl,
    funext fun frame => (cells frame).2.2.1, funext fun frame => (cells frame).2.2.2⟩

end Galio

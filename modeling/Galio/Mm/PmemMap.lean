import Galio.Mm.PmemOwnership

/-! The memory `pmem_init` hands over, against the map of the machine, and the runs of it `pmem_alloc` finds. -/

namespace Galio

open Pmem List

lemma pmemInit_free_iff (mmap : Option (List MmapEntry)) {frame : Nat} (tracked : frame < maxFrames) :
    (pmemInit mmap).frameBitmap frame = false ↔ kernelHeapEnd / frameSize ≤ frame ∧ frame ∈ handedFrames mmap := by
  rw [← cell_used, cell_pmemInit]
  by_cases low : frame < kernelHeapEnd / frameSize
  · simp [low, Nat.not_le.mpr low, FrameCell.ref, openCell]
  · simp [low, Nat.le_of_not_lt low, openCell, tracked]

/-- An entry of the memory map. -/
structure RamRegion where
  addr : UInt64
  len : UInt64
  type : UInt32

/-- The words of an entry that `pmem_init` reads. -/
def RamRegion.entry (region : RamRegion) : MmapEntry :=
  ⟨region.addr.toNat % 2 ^ 32, region.len.toNat % 2 ^ 32, region.type.toNat⟩

/-- A map without entries has length zero, which counts as no map. -/
def mmapOf (regions : List RamRegion) : Option (List MmapEntry) :=
  if regions = [] then none else some (regions.map RamRegion.entry)

/-- Every byte of a frame lies in an available entry. -/
def InRam (regions : List RamRegion) (frame : Nat) : Prop :=
  ∀ byte, frame * frameSize ≤ byte → byte < (frame + 1) * frameSize → ∃ region ∈ regions,
    region.type.toNat = mmapAvailable ∧ region.addr.toNat ≤ byte ∧ byte < region.addr.toNat + region.len.toNat

/-- Every free frame is memory, and lies behind low memory, the kernel and its heap. -/
def FreesOnlyRam (regions : List RamRegion) : Prop :=
  ∀ frame < maxFrames, (pmemInit (mmapOf regions)).frameBitmap frame = false →
    InRam regions frame ∧ kernelHeapEnd ≤ frame * frameSize

/-- The frames of an entry are read off the low words of its address and length. -/
theorem frees_only_ram_iff (regions : List RamRegion) : FreesOnlyRam regions ↔ regions ≠ [] ∧
    ∀ region ∈ regions, region.type.toNat = mmapAvailable → 0 < region.len.toNat % 2 ^ 32 →
      ∀ frame < maxFrames, kernelHeapEnd / frameSize ≤ frame →
        region.addr.toNat % 2 ^ 32 / frameSize ≤ frame →
          frame < (region.addr.toNat % 2 ^ 32 + region.len.toNat % 2 ^ 32) % 2 ^ 32 / frameSize →
            InRam regions frame := by
  have above : ∀ frame, kernelHeapEnd / frameSize ≤ frame → kernelHeapEnd ≤ frame * frameSize := by
    simp only [kernelHeapEnd, frameSize]
    omega
  constructor
  · intro frees
    have some : regions ≠ [] := by
      rintro rfl
      -- The default range holds a frame that no entry can cover.
      have clear : (pmemInit (mmapOf [])).frameBitmap 5632 = false := by
        rw [mmapOf, if_pos rfl, pmemInit_none]
        rfl
      obtain ⟨_, listed, -⟩ := (frees 5632 (by decide) clear).1 0x1600000 (by decide) (by decide)
      exact absurd listed not_mem_nil
    refine ⟨some, fun region listed available positive frame tracked behind start stop => ?_⟩
    refine (frees frame tracked ((pmemInit_free_iff _ tracked).mpr ⟨behind, ?_⟩)).1
    rw [mmapOf, if_neg some, handedFrames, mem_flatMap]
    refine ⟨_, mem_map_of_mem listed, ?_⟩
    rw [MmapEntry.frames, if_pos ⟨available, positive⟩, mem_range'_1]
    exact ⟨start, by simp only [RamRegion.entry] at start ⊢; omega⟩
  · rintro ⟨some, covered⟩ frame tracked clear
    obtain ⟨behind, handed⟩ := (pmemInit_free_iff _ tracked).mp clear
    refine ⟨?_, above frame behind⟩
    rw [mmapOf, if_neg some, handedFrames, mem_flatMap] at handed
    obtain ⟨_, mapped, inside⟩ := handed
    obtain ⟨region, listed, rfl⟩ := mem_map.mp mapped
    unfold MmapEntry.frames at inside
    split at inside
    · rename_i given
      rw [mem_range'_1] at inside
      exact covered region listed given.1 given.2 frame tracked behind inside.1 (by
        simp only [RamRegion.entry] at inside; omega)
    · exact absurd inside not_mem_nil

/-- The frames read off an aligned entry below four gigabytes are its own. -/
theorem RamRegion.inRam {region : RamRegion} {regions : List RamRegion} {frame : Nat} (listed : region ∈ regions)
    (low : region.addr.toNat + region.len.toNat < 2 ^ 32) (aligned : region.addr.toNat % frameSize = 0)
    (inside : frame ∈ region.entry.frames) : InRam regions frame := by
  intro byte start stop
  unfold MmapEntry.frames at inside
  split at inside
  · rename_i given
    refine ⟨region, listed, given.1, ?_⟩
    simp only [RamRegion.entry, frameSize, mem_range'_1] at *
    omega
  · exact absurd inside not_mem_nil

/-- Memory behind the first four gigabytes frees frames that are none. -/
theorem high_memory_frees_low : ¬ FreesOnlyRam [⟨0x100000000, 0x2000000, 1⟩] := by
  intro frees
  have clear : (pmemInit (mmapOf [⟨0x100000000, 0x2000000, 1⟩])).frameBitmap 5632 = false := by
    rw [pmemInit_free_iff _ (by decide)]
    simp [mmapOf, handedFrames, RamRegion.entry, MmapEntry.frames, mmapAvailable, kernelHeapEnd, frameSize]
  obtain ⟨region, listed, -, start, -⟩ := (frees 5632 (by decide) clear).1 0x1600000 (by decide) (by decide)
  obtain rfl := mem_singleton.mp listed
  simp at start

/-- A free run is taken if there is one, and nothing happens otherwise. -/
def FindsFreeRun (pmem : Pmem) (numFrames : Nat) : Prop :=
  ∀ oomKill,
    ((∃ frame, framesFree pmem frame numFrames) → (pmemAlloc oomKill pmem numFrames).2 ≠ 0 ∧
      ∃ frame, framesFree pmem frame numFrames ∧ (pmemAlloc oomKill pmem numFrames).2 = frame * frameSize) ∧
    ((¬ ∃ frame, framesFree pmem frame numFrames) → pmemAlloc oomKill pmem numFrames = (pmem, 0))

/-- A free run is found unless every one begins before the cursor and ends behind it. -/
theorem pmem_alloc_complete_iff {pmem : Pmem} {numFrames : Nat} (reserved : pmem.frameBitmap 0)
    (positive : numFrames ≠ 0) (enough : pmemShort pmem numFrames = false) : FindsFreeRun pmem numFrames ↔
      ∀ frame, framesFree pmem frame numFrames → ∃ run, framesFree pmem run numFrames ∧
        (run + numFrames ≤ pmem.allocationCursor ∨ pmem.allocationCursor ≤ run) := by
  have taken : ∀ oomKill, pmemAlloc oomKill pmem numFrames = pmemTake pmem numFrames := by
    intro oomKill
    rw [pmemAlloc, if_neg positive, pmemReclaim, if_neg (by simp [enough])]
  simp only [← pmemSearch_isSome_iff positive, FindsFreeRun, taken]
  constructor
  · intro finds frame free
    obtain ⟨returned, -⟩ := (finds id).1 ⟨frame, free⟩
    unfold pmemTake at returned
    split at returned
    · exact absurd rfl returned
    split at returned
    · exact ⟨_, ‹_›⟩
    · exact absurd rfl returned
  · intro beside oomKill
    rw [pmemTake]
    constructor
    · rintro ⟨frame, free⟩
      obtain ⟨found, located⟩ := beside frame free
      have run := pmemSearch_some located
      have fits := framesFree_bound positive run
      rw [if_neg (by omega), located]
      refine ⟨fun zero => ?_, found, run, rfl⟩
      -- Only frame 0 has address 0, and it is never free.
      have first := (framesFree_iff.mp run 0 (by omega)).2
      rw [Nat.add_zero, (Nat.mul_eq_zero.mp zero).resolve_right (by decide), reserved] at first
      simp at first
    · intro none
      split
      · rfl
      split
      · exact absurd ⟨_, pmemSearch_some ‹_›⟩ none
      · rfl

/-- A frame is found in memory of which only the first frame is used. -/
theorem pmem_alloc_complete_second : FindsFreeRun { pmemBoot with frameBitmap := (· == 0), totalFrames := 2 } 1 :=
  (pmem_alloc_complete_iff rfl (by decide) (by decide)).mpr fun frame free => ⟨frame, free, .inr (Nat.zero_le _)⟩

/-- A map of the whole memory, after the first frame behind the kernel was taken and released. -/
def cursorMoved : Pmem where
  frameBitmap frame := frame < 5632
  frameRefcount frame := if frame < 5632 then 1 else 0
  totalFrames := 32768
  usedFrames := 5632
  allocationCursor := 5633
  taken frame := if frame ≤ 5632 then 1 else 0
  released frame := if frame = 5632 then 1 else 0

/-- The only free run begins before the cursor, and is not found. -/
theorem straddling_run_missed : pmemShort cursorMoved 27136 = false ∧ ¬ FindsFreeRun cursorMoved 27136 := by
  have free : ∀ {frame}, framesFree cursorMoved frame 27136 ↔ frame = 5632 := by
    intro frame
    simp only [framesFree_iff, cursorMoved, maxFrames, decide_eq_false_iff_not]
    constructor
    · intro clear
      have first := clear 0 (by decide)
      have last := clear 27135 (by decide)
      omega
    · omega
  refine ⟨by decide, fun finds => ?_⟩
  have missed : pmemSearch cursorMoved 27136 = none := by
    rw [← Option.not_isSome_iff_eq_none, Option.isSome_iff_exists, pmemSearch_isSome_iff (by decide)]
    rintro ⟨frame, run, beside⟩
    obtain rfl := free.mp run
    exact absurd beside (by decide)
  apply ((finds id).1 ⟨5632, free.mpr rfl⟩).1
  simp [pmemAlloc, pmemReclaim, pmemTake, missed, maxFrames]

end Galio

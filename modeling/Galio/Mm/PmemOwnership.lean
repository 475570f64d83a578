import Galio.Lib.Run
import Galio.Mm.PmemLaws

/-! An allocated frame has no outstanding reference as long as no reference count overflows. -/

namespace Galio

open Pmem Transition List

variable {pmem : Pmem} {frame count : Nat}

/-- The references on a frame are counted exactly, and a free frame has none. -/
def FrameCell.Sound (cell : FrameCell) : Prop :=
  cell.taken = cell.released + cell.count.toNat ∧ cell.Clean

/-- Every frame's record is sound. -/
def Pmem.Sound (pmem : Pmem) : Prop :=
  ∀ frame, (pmem.cell frame).Sound

variable {cell : FrameCell}

lemma FrameCell.Sound.ref (sound : cell.Sound) (room : cell.count ≠ 255) : cell.ref.Sound := by
  obtain ⟨balanced, clean⟩ := sound
  -- Below 255 the byte addition is the addition of numbers.
  have below : cell.count.toNat < 255 := by
    have bound := cell.count.toNat_lt
    have apart : cell.count.toNat ≠ 255 := fun same => room (UInt8.toNat_inj.mp same)
    omega
  refine ⟨?_, clean.ref⟩
  simp only [FrameCell.ref, UInt8.toNat_add, UInt8.reduceToNat]
  omega

lemma FrameCell.Sound.deref (sound : cell.Sound) : cell.deref.Sound := by
  obtain ⟨balanced, clean⟩ := sound
  refine ⟨?_, clean.deref⟩
  unfold FrameCell.deref
  split
  · exact balanced
  rename_i held
  have positive : cell.count.toNat ≠ 0 := fun zero => held (UInt8.toNat_inj.mp zero)
  have lowered : (cell.count - 1).toNat = cell.count.toNat - 1 := by
    rw [UInt8.toNat_sub_of_le]
    · rfl
    · rw [UInt8.le_iff_toNat_le]
      simp only [UInt8.reduceToNat]
      omega
  simp only [lowered]
  omega

lemma Pmem.Sound.refFrame (sound : pmem.Sound)
    (room : pmem.frameRefcount frame ≠ 255) : (pmem.refFrame frame).Sound := by
  intro other
  rw [cell_refFrame]
  split
  · rename_i here
    exact (sound other).ref (by rw [here.1]; exact room)
  · exact sound other

lemma Pmem.Sound.refFrames (sound : pmem.Sound) {frames : List Nat} (distinct : frames.Nodup)
    (room : ∀ frame ∈ frames, pmem.frameRefcount frame ≠ 255) : (pmem.refFrames frames).Sound := by
  intro other
  rw [cell_refFrames distinct]
  split
  · rename_i here
    exact (sound other).ref (room other here.1)
  · exact sound other

lemma Pmem.Sound.derefFrames (sound : pmem.Sound) (frames : List Nat) : (pmem.derefFrames frames).Sound :=
  fun frame => derefFrames_keeps (fun _ kept => kept.deref) frames (sound frame)

variable {i : Nat}

lemma Pmem.Sound.unowned (sound : pmem.Sound) (free : framesFree pmem frame count)
    (below : i < count) : pmem.frameRefcount (frame + i) = 0 ∧
      pmem.taken (frame + i) = pmem.released (frame + i) := by
  obtain ⟨balanced, unreferenced⟩ := sound (frame + i)
  have zero : pmem.frameRefcount (frame + i) = 0 :=
    unreferenced ((framesFree_iff.mp free i below).2)
  simp only [cell_count, zero] at balanced
  exact ⟨zero, by simpa using balanced⟩

lemma Pmem.Sound.takeRun (sound : pmem.Sound) (fits : frame + count ≤ maxFrames)
    (free : framesFree pmem frame count) : (pmem.refFrames (frameRange frame count)).Sound := by
  have small : count ≤ 2 ^ 32 := by simp only [maxFrames] at fits; omega
  refine sound.refFrames (frameRange_nodup frame small) fun other mem => ?_
  -- Every frame of the run has count zero, which is not the last count of a byte.
  obtain ⟨from_start, before_end⟩ := (mem_frameRange fits).mp mem
  have zero := (sound.unowned free (show other - frame < count by omega)).1
  rw [show frame + (other - frame) = other by omega] at zero
  rw [zero]
  decide

lemma pmemInit_sound (mmap : Option (List MmapEntry)) : (pmemInit mmap).Sound := by
  intro frame
  have opened : (openCell mmap frame).Sound := ⟨rfl, fun _ => rfl⟩
  rw [cell_pmemInit]
  split
  · exact opened.ref (by show (0 : UInt8) ≠ 255; decide)
  · exact opened

/-- The calls a run of the allocator is made of. -/
inductive PmemOp where
  /-- `pmem_alloc`, with the releases `process_oom_kill` makes should the call start it. -/
  | alloc (numFrames : Nat) (freed : List (Nat × Nat))
  | allocRegion (numFrames minAddr maxAddr : Nat)
  | claim (addr numFrames : Nat)
  | refcountInc (addr : Nat)
  | refcountDec (addr : Nat)
  | free (addr numFrames : Nat)

/-- What the out-of-memory killer does to the allocator: one `pmem_free` after another. -/
def oomRelease (freed : List (Nat × Nat)) (pmem : Pmem) : Pmem :=
  freed.foldl (fun pmem range => pmemFree pmem range.1 range.2) pmem

/-- The allocator after a call, and the address returned (zero without one). -/
def PmemOp.exec (pmem : Pmem) : PmemOp → Pmem × Nat
  | .alloc numFrames freed => pmemAlloc (oomRelease freed) pmem numFrames
  | .allocRegion numFrames minAddr maxAddr => pmemAllocRegion pmem numFrames minAddr maxAddr
  | .claim addr numFrames => (pmemClaim pmem addr numFrames, 0)
  | .refcountInc addr => (pmemRefcountInc pmem addr, 0)
  | .refcountDec addr => (pmemRefcountDec pmem addr, 0)
  | .free addr numFrames => (pmemFree pmem addr numFrames, 0)

/-- The calls that return: a 32-bit loop counter never passes a count of 2^32 or more. -/
def PmemOp.Returns : PmemOp → Prop
  | .claim _ numFrames => numFrames < 2 ^ 32
  | .free _ numFrames => numFrames < 2 ^ 32
  | _ => True

/-- One call of the allocator. -/
def PmemStep (before : Pmem) (op : PmemOp) (after : Pmem) : Prop :=
  op.Returns ∧ after = (op.exec before).1

/-- No reference is taken on a frame whose count has reached 255. -/
def RefcountRoom (before : Pmem) : PmemOp → Prop
  | .claim addr numFrames =>
    ∀ frame ∈ frameRange (addr / frameSize) numFrames, before.frameRefcount frame ≠ 255
  | .refcountInc addr => before.frameRefcount (addr / frameSize) ≠ 255
  | _ => True

/--
The frames an allocation returns have had every reference released, for `pmem_alloc` in the state its search runs
in.
-/
def AllocatesUnowned (before : Pmem) (op : PmemOp) (_after : Pmem) : Prop :=
  match op with
  | .alloc numFrames freed =>
    let searched := pmemReclaim (oomRelease freed) before numFrames
    (op.exec before).2 ≠ 0 → ∀ i < numFrames,
      searched.taken ((op.exec before).2 / frameSize + i) =
        searched.released ((op.exec before).2 / frameSize + i)
  | .allocRegion numFrames _ _ =>
    (op.exec before).2 ≠ 0 → ∀ i < numFrames,
      before.taken ((op.exec before).2 / frameSize + i) =
        before.released ((op.exec before).2 / frameSize + i)
  | _ => True

lemma Pmem.Sound.oomRelease (sound : pmem.Sound) (freed : List (Nat × Nat)) : (oomRelease freed pmem).Sound := by
  induction freed generalizing pmem with
  | nil => exact sound
  | cons range _ ih => exact ih (sound.derefFrames _)

lemma Pmem.Sound.reclaim (sound : pmem.Sound) (freed : List (Nat × Nat))
    (numFrames : Nat) : (pmemReclaim (Galio.oomRelease freed) pmem numFrames).Sound := by
  unfold pmemReclaim
  split
  · exact sound.oomRelease freed
  · exact sound

variable {numFrames : Nat}

lemma Pmem.Sound.take (sound : pmem.Sound) (positive : numFrames ≠ 0) : (pmemTake pmem numFrames).1.Sound := by
  unfold pmemTake
  split
  · exact sound
  split
  · rename_i frame found
    have free := pmemSearch_some found
    -- Moving the cursor is no part of any frame's record.
    exact fun other => sound.takeRun (framesFree_bound positive free) free other
  · exact sound

lemma pmemTake_unowned (sound : pmem.Sound) (returned : (pmemTake pmem numFrames).2 ≠ 0) (below : i < numFrames) :
    pmem.taken ((pmemTake pmem numFrames).2 / frameSize + i) =
      pmem.released ((pmemTake pmem numFrames).2 / frameSize + i) := by
  unfold pmemTake at returned ⊢
  split at returned
  · exact absurd rfl returned
  rename_i fits
  rw [if_neg fits]
  split at returned
  · rename_i frame found
    simp only [address_div]
    exact (sound.unowned (pmemSearch_some found) below).2
  · exact absurd rfl returned

lemma pmemAllocRegion_sound (sound : pmem.Sound) (numFrames minAddr maxAddr : Nat) :
    (pmemAllocRegion pmem numFrames minAddr maxAddr).1.Sound ∧
      ((pmemAllocRegion pmem numFrames minAddr maxAddr).2 ≠ 0 → ∀ i < numFrames,
        pmem.taken ((pmemAllocRegion pmem numFrames minAddr maxAddr).2 / frameSize + i) =
          pmem.released ((pmemAllocRegion pmem numFrames minAddr maxAddr).2 / frameSize + i)) := by
  unfold pmemAllocRegion
  split
  · exact ⟨sound, fun returned => absurd rfl returned⟩
  rename_i accepted
  dsimp only
  split
  · rename_i frame found
    have free := (findFrames_some found).2.2
    have positive : numFrames ≠ 0 := fun zero => accepted (.inl zero)
    refine ⟨sound.takeRun (framesFree_bound positive free) free, fun _ i below => ?_⟩
    rw [address_div]
    exact (sound.unowned free below).2
  · exact ⟨sound, fun returned => absurd rfl returned⟩

/-- One call with room on every count keeps the allocator sound and hands out unowned frames. -/
theorem pmemStep_sound {before after : Pmem} {op : PmemOp} (sound : before.Sound) (step : PmemStep before op after)
    (room : RefcountRoom before op) : after.Sound ∧ AllocatesUnowned before op after := by
  obtain ⟨returns, rfl⟩ := step
  cases op with
  | alloc numFrames freed =>
    have searched := sound.reclaim freed numFrames
    simp only [PmemOp.exec, AllocatesUnowned, pmemAlloc]
    split
    · exact ⟨sound, fun returned => absurd rfl returned⟩
    · rename_i positive
      exact ⟨searched.take positive, fun returned i below =>
        pmemTake_unowned searched returned below⟩
  | allocRegion numFrames minAddr maxAddr => exact pmemAllocRegion_sound sound numFrames minAddr maxAddr
  | claim addr numFrames =>
    exact ⟨sound.refFrames (frameRange_nodup _ (Nat.le_of_lt returns)) room, trivial⟩
  | refcountInc addr =>
    refine ⟨?_, trivial⟩
    simp only [PmemOp.exec, pmemRefcountInc]
    split
    · exact sound.refFrame room
    · exact sound
  | refcountDec addr =>
    refine ⟨?_, trivial⟩
    simp only [PmemOp.exec, pmemRefcountDec]
    split
    · exact sound.derefFrames [addr / frameSize]
    · exact sound
  | free addr numFrames => exact ⟨sound.derefFrames _, trivial⟩

/--
Physical frames are handed out without an outstanding reference.

This holds of every allocation in every run from `pmem_init` in which no reference is taken on a
frame whose eight-bit count stands at 255.
-/
theorem pmem_frames_unowned (mmap : Option (List MmapEntry)) (run : List (PmemOp × Pmem))
    (follows : Along PmemStep (pmemInit mmap) run)
    (room : Along (fun before op _ => RefcountRoom before op) (pmemInit mmap) run) :
    Along AllocatesUnowned (pmemInit mmap) run := by
  -- Soundness is carried along the guarded run, and each guarded step gives the property.
  refine along_of_invariant Pmem.Sound ?_ (pmemInit_sound mmap) (along_and follows room)
  intro before op after sound step
  exact pmemStep_sound sound step.1 step.2

/-- The calls of a list, carried out one after another. -/
def pmemRecord (mmap : Option (List MmapEntry)) (ops : List PmemOp) : List (PmemOp × Pmem) :=
  record (fun pmem op => (op.exec pmem).1) (pmemInit mmap) ops

lemma pmemRecord_follows (mmap : Option (List MmapEntry)) {ops : List PmemOp}
    (returns : ∀ op ∈ ops, op.Returns) : Along PmemStep (pmemInit mmap) (pmemRecord mmap ops) :=
  along_record _ fun _ op mem => ⟨returns op mem, rfl⟩

/-- The first frame past the kernel is allocated, and it is nobody's. -/
theorem pmem_frames_unowned_first :
    (pmemAllocRegion (pmemInit none) 1 0x1600000 0x4000000).2 = 0x1600000 ∧
      Along AllocatesUnowned (pmemInit none) (pmemRecord none
        [.allocRegion 1 0x1600000 0x4000000, .free 0x1600000 1]) := by
  have returned : (pmemAllocRegion bootPmem 1 0x1600000 0x4000000).2 = 0x1600000 := by decide +kernel
  refine ⟨pmemInit_none ▸ returned, pmem_frames_unowned none _ (pmemRecord_follows none ?_) ⟨trivial, trivial, trivial⟩⟩
  intro op mem
  simp only [mem_cons, not_mem_nil, or_false] at mem
  rcases mem with rfl | rfl
  · trivial
  · show 1 < 2 ^ 32
    decide

lemma overflow_handed_out {pmem after : Pmem} (incremented : pmem =
      (replicate 257 (PmemOp.refcountInc 0x1600000)).foldl (fun pmem op => (op.exec pmem).1) bootPmem) :
    ¬AllocatesUnowned (pmemRefcountDec pmem 0x1600000) (.allocRegion 1 0x1600000 0x4000000) after := by
  have counts : (pmemAllocRegion (pmemRefcountDec pmem 0x1600000) 1 0x1600000 0x4000000).2 = 0x1600000 ∧
      (pmemRefcountDec pmem 0x1600000).taken 5632 = 257 ∧ (pmemRefcountDec pmem 0x1600000).released 5632 = 1 := by
    rw [incremented]
    decide +kernel
  intro unowned
  simp only [AllocatesUnowned, PmemOp.exec, counts.1] at unowned
  have equal := unowned (by decide) 0 (by decide)
  simp [frameSize, counts.2.1, counts.2.2] at equal

/--
A frame with 256 outstanding references is handed out.

The 256th reference wraps the count to zero, so one more reference and one release clear the bit.
-/
theorem pmem_frames_owned_after_overflow :
    ¬ ∀ (mmap : Option (List MmapEntry)) (run : List (PmemOp × Pmem)),
      Along PmemStep (pmemInit mmap) run → Along AllocatesUnowned (pmemInit mmap) run := by
  intro claimed
  -- The references stay a name, so that nothing unfolds the run.
  generalize many : replicate 257 (PmemOp.refcountInc 0x1600000) = references
  have returns : ∀ op ∈ references ++ [.refcountDec 0x1600000, .allocRegion 1 0x1600000 0x4000000], op.Returns := by
    intro op mem
    simp only [← many, mem_append, mem_replicate, mem_cons, not_mem_nil, or_false] at mem
    rcases mem with ⟨-, rfl⟩ | rfl | rfl <;> trivial
  have along := claimed none _ (pmemRecord_follows none returns)
  have last := along_record_append along
  exact overflow_handed_out (by rw [many, pmemInit_none]) last.2.1

end Galio

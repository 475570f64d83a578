import Mathlib.Algebra.Group.Nat.Defs
import Mathlib.Logic.Function.Basic

/-! The physical frame allocator of `kernel/mm/pmem.c`. -/

namespace Galio

open Function

/-- `FRAME_SIZE`, the bytes of one physical frame. -/
def frameSize : Nat := 4096

/-- `BITMAP_SIZE * 8`, the frames of the 128 MiB the bitmap tracks. -/
def maxFrames : Nat := 32768

/-- `KERNEL_HEAP_END`, the first address past the kernel image and its heap. -/
def kernelHeapEnd : Nat := 0x1600000

/--
The allocator's static state, the bitmap one bit per frame. The two ledgers are history variables the code never
reads: the references taken on a frame, and those released while its count was not zero.
-/
structure Pmem where
  frameBitmap : Nat → Bool
  frameRefcount : Nat → UInt8
  totalFrames : UInt32
  usedFrames : UInt32
  allocationCursor : Nat
  taken : Nat → Nat
  released : Nat → Nat

namespace Pmem

def setFrame (pmem : Pmem) (frame : Nat) : Pmem :=
  if frame ≥ maxFrames then pmem
  else { pmem with frameBitmap := update pmem.frameBitmap frame true }

def unsetFrame (pmem : Pmem) (frame : Nat) : Pmem :=
  if frame ≥ maxFrames then pmem
  else { pmem with frameBitmap := update pmem.frameBitmap frame false }

/-- `get_frame`, which reports every untracked frame as used. -/
def getFrame (pmem : Pmem) (frame : Nat) : Bool :=
  if frame ≥ maxFrames then true else pmem.frameBitmap frame

def refFrame (pmem : Pmem) (frame : Nat) : Pmem :=
  if frame ≥ maxFrames then pmem
  else
    let pmem :=
      if pmem.frameRefcount frame = 0 then
        { pmem.setFrame frame with usedFrames := pmem.usedFrames + 1 }
      else pmem
    -- The count is a byte, so the 256th reference brings it back to zero.
    { pmem with
      frameRefcount := update pmem.frameRefcount frame (pmem.frameRefcount frame + 1)
      taken := update pmem.taken frame (pmem.taken frame + 1) }

def derefFrame (pmem : Pmem) (frame : Nat) : Pmem :=
  if frame ≥ maxFrames then pmem
  else if pmem.frameRefcount frame = 0 then pmem
  else
    let pmem := { pmem with
      frameRefcount := update pmem.frameRefcount frame (pmem.frameRefcount frame - 1)
      released := update pmem.released frame (pmem.released frame + 1) }
    if pmem.frameRefcount frame = 0 then
      { pmem.unsetFrame frame with usedFrames := pmem.usedFrames - 1 }
    else pmem

/-- The frames `frame .. frame + count - 1`, with the sum taken in 32 bits as the loops do. -/
def frameRange (frame count : Nat) : List Nat :=
  (List.range count).map fun i => (frame + i) % 2 ^ 32

/-- `ref_frame` on each frame of a list, in order. -/
def refFrames (pmem : Pmem) (frames : List Nat) : Pmem :=
  frames.foldl refFrame pmem

/-- `deref_frame` on each frame of a list, in order. -/
def derefFrames (pmem : Pmem) (frames : List Nat) : Pmem :=
  frames.foldl derefFrame pmem

end Pmem

open Pmem

/-- The fields of `mmap_entry_t` that `pmem_init` reads. -/
structure MmapEntry where
  addrLow : Nat
  lenLow : Nat
  type : Nat

def mmapAvailable : Nat := 1

/-- The frames of a memory-map entry, from the low words of base and length. -/
def MmapEntry.frames (entry : MmapEntry) : List Nat :=
  if entry.type = mmapAvailable ∧ entry.lenLow > 0 then
    let startFrame := entry.addrLow / frameSize
    let endFrame := (entry.addrLow + entry.lenLow) % 2 ^ 32 / frameSize
    List.range' startFrame (endFrame - startFrame)
  else []

/-- The frames handed over without a memory map. -/
def defaultFrames : List Nat :=
  List.range' (0x100000 / frameSize) (0x8000000 / frameSize - 0x100000 / frameSize)

/-- `unset_frame` and the count of available frames, for each frame of an available region. -/
def releaseFrames (pmem : Pmem) (frames : List Nat) : Pmem :=
  frames.foldl (fun pmem frame =>
    { pmem.unsetFrame frame with totalFrames := pmem.totalFrames + 1 }) pmem

/-- `ref_frame` on those frames of a range whose count is still zero. -/
def reserveFrames (pmem : Pmem) (frames : List Nat) : Pmem :=
  frames.foldl (fun pmem frame =>
    if pmem.frameRefcount frame = 0 then pmem.refFrame frame else pmem) pmem

/-- The zero-initialised statics, before `pmem_init` runs. -/
def pmemBoot : Pmem where
  frameBitmap _ := false
  frameRefcount _ := 0
  totalFrames := 0
  usedFrames := 0
  allocationCursor := 0
  taken _ := 0
  released _ := 0

/-- `pmem_init`, given the entries of the memory map when there is one. -/
def pmemInit (mmap : Option (List MmapEntry)) : Pmem :=
  -- All memory counts as used until a region hands it over.
  let pmem := (List.range maxFrames).foldl setFrame pmemBoot
  let pmem :=
    match mmap with
    | none => releaseFrames pmem defaultFrames
    | some entries => entries.foldl (fun pmem entry => releaseFrames pmem entry.frames) pmem
  -- The kernel image and its heap come first, then the low megabyte.
  let kernelStartFrame := 0x100000 / frameSize
  let pmem := reserveFrames pmem
    (List.range' kernelStartFrame (kernelHeapEnd / frameSize - kernelStartFrame))
  reserveFrames pmem (List.range (0x100000 / frameSize))

/-- Whether `count` frames from `frame` on are free: the inner loop of both searches. -/
def framesFree (pmem : Pmem) (frame count : Nat) : Bool :=
  (List.range count).all fun i => !pmem.getFrame (frame + i)

/-- The first `frame` in `start ≤ frame`, `frame + count ≤ limit` that opens a free run. -/
def findFrames (pmem : Pmem) (start limit count : Nat) : Option Nat :=
  (List.range' start (limit + 1 - count - start)).find? fun frame => framesFree pmem frame count

/-- The test that makes `pmem_alloc` call the out-of-memory killer. -/
def pmemShort (pmem : Pmem) (numFrames : Nat) : Bool :=
  decide ((pmem.totalFrames - pmem.usedFrames).toNat < numFrames)

/-- The two passes of `pmem_alloc`: from the cursor on, and from the start to it. -/
def pmemSearch (pmem : Pmem) (numFrames : Nat) : Option Nat :=
  match findFrames pmem pmem.allocationCursor maxFrames numFrames with
  | some frame => some frame
  | none => findFrames pmem 0 pmem.allocationCursor numFrames

/-- `pmem_alloc` after the out-of-memory killer has had its turn. -/
def pmemTake (pmem : Pmem) (numFrames : Nat) : Pmem × Nat :=
  if numFrames > maxFrames then (pmem, 0)
  else
    match pmemSearch pmem numFrames with
    | some frame =>
      ({ pmem.refFrames (frameRange frame numFrames) with
          allocationCursor := (frame + numFrames) % maxFrames }, frame * frameSize)
    | none => (pmem, 0)

/-- The state in which `pmem_alloc` searches, given what `process_oom_kill` does. -/
def pmemReclaim (oomKill : Pmem → Pmem) (pmem : Pmem) (numFrames : Nat) : Pmem :=
  if pmemShort pmem numFrames then oomKill pmem else pmem

/-- `pmem_alloc`, given what `process_oom_kill` does to the allocator. -/
def pmemAlloc (oomKill : Pmem → Pmem) (pmem : Pmem) (numFrames : Nat) : Pmem × Nat :=
  if numFrames = 0 then (pmem, 0)
  else pmemTake (pmemReclaim oomKill pmem numFrames) numFrames

/--
`pmem_alloc_region`. The 64-bit sum `frame + num_frames` is not reduced: where it wraps, the loop body rejects
every frame.
-/
def pmemAllocRegion (pmem : Pmem) (numFrames minAddr maxAddr : Nat) : Pmem × Nat :=
  if numFrames = 0 ∨ minAddr ≥ maxAddr then (pmem, 0)
  else
    let startFrame := (minAddr + frameSize - 1) % 2 ^ 32 / frameSize
    let endFrame := min (maxAddr / frameSize) maxFrames
    match findFrames pmem startFrame endFrame numFrames with
    | some frame => (pmem.refFrames (frameRange frame numFrames), frame * frameSize)
    | none => (pmem, 0)

def pmemFree (pmem : Pmem) (addr numFrames : Nat) : Pmem :=
  pmem.derefFrames (frameRange (addr / frameSize) numFrames)

def pmemClaim (pmem : Pmem) (addr numFrames : Nat) : Pmem :=
  pmem.refFrames (frameRange (addr / frameSize) numFrames)

def pmemRefcountInc (pmem : Pmem) (addr : Nat) : Pmem :=
  let frame := addr / frameSize
  if frame < maxFrames then pmem.refFrame frame else pmem

def pmemRefcountDec (pmem : Pmem) (addr : Nat) : Pmem :=
  let frame := addr / frameSize
  if frame < maxFrames then pmem.derefFrame frame else pmem

def pmemGetRefcount (pmem : Pmem) (addr : Nat) : Nat :=
  let frame := addr / frameSize
  if frame < maxFrames then (pmem.frameRefcount frame).toNat else 0

end Galio

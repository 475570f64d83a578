import Galio.Mm.Pmem

/-! The shared-memory segments of `kernel/mm/shmem.c`, and how a dying process leaves them. -/

namespace Galio

open List

def shmMaxSegments : Nat := 16

structure ShmemSegment where
  used : Bool
  removed : Bool
  attachments : UInt16
  key : UInt32
  size : UInt32
  pages : Nat
  phys : Nat → Nat

/-- A segment that was cleared by `memset`. -/
def ShmemSegment.cleared : ShmemSegment := ⟨false, false, 0, 0, 0, 0, fun _ => 0⟩

structure ShmemAttachment where
  used : Bool
  pid : Nat
  shmid : Int
  address : Nat

/-- The two tables of `shmem.c`. -/
structure Shmem where
  segments : Nat → ShmemSegment
  attachments : Nat → ShmemAttachment

/-- `segment_from_id`, as an index into the segments. -/
def segmentFromId (shmem : Shmem) (shmid : Int) : Option Nat :=
  if shmid < 0 ∨ shmid ≥ shmMaxSegments ∨ (shmem.segments shmid.toNat).used = false then none
  else some shmid.toNat

/-- An update of one segment. -/
def Shmem.setSegment (shmem : Shmem) (id : Nat) (segment : ShmemSegment) : Shmem :=
  { shmem with segments := Function.update shmem.segments id segment }

def releaseSegment (pmem : Pmem) (shmem : Shmem) (shmid : Int) : Pmem × Shmem :=
  match segmentFromId shmem shmid with
  | none => (pmem, shmem)
  | some id =>
    let segment := shmem.segments id
    if segment.attachments ≠ 0 then (pmem, shmem)
    else
      ((List.range segment.pages).foldl (fun pmem i => pmemFree pmem (segment.phys i) 1) pmem,
        shmem.setSegment id .cleared)

/-- The loop body of `shmem_detach_process`. -/
def detachAttachment (pid : Nat) (state : Pmem × Shmem) (i : Nat) : Pmem × Shmem :=
  let (pmem, shmem) := state
  let attachment := shmem.attachments i
  if attachment.used && attachment.pid == pid then
    let segment := segmentFromId shmem attachment.shmid
    let shmem :=
      match segment with
      | none => shmem
      | some id =>
        let entry := shmem.segments id
        if entry.attachments ≠ 0 then
          shmem.setSegment id { entry with attachments := entry.attachments - 1 }
        else shmem
    let shmem := { shmem with
      attachments := Function.update shmem.attachments i { attachment with used := false } }
    match segment with
    | none => (pmem, shmem)
    | some id =>
      if (shmem.segments id).removed then releaseSegment pmem shmem attachment.shmid
      else (pmem, shmem)
  else (pmem, shmem)

def shmemDetachProcess (pmem : Pmem) (shmem : Shmem) (pid : Nat) : Pmem × Shmem :=
  (List.range (shmMaxSegments * 4)).foldl (detachAttachment pid) (pmem, shmem)

/-- No attachment belongs to the process. -/
def Detached (shmem : Shmem) (pid : Nat) : Prop :=
  ∀ i, i < shmMaxSegments * 4 →
    ¬((shmem.attachments i).used = true ∧ (shmem.attachments i).pid = pid)

lemma shmemDetachProcess_detached {shmem : Shmem} {pid : Nat} (detached : Detached shmem pid)
    (pmem : Pmem) : shmemDetachProcess pmem shmem pid = (pmem, shmem) := by
  have skipped : ∀ i ∈ range (shmMaxSegments * 4), detachAttachment pid (pmem, shmem) i = (pmem, shmem) := by
    intro i mem
    have none := detached i (mem_range.mp mem)
    simp only [detachAttachment]
    rw [if_neg (by simpa using none)]
  unfold shmemDetachProcess
  -- Every round of the loop starts from the state it leaves.
  generalize range (shmMaxSegments * 4) = indices at skipped
  induction indices with
  | nil => rfl
  | cons i rest ih =>
    rw [foldl_cons, skipped i mem_cons_self]
    exact ih fun j mem => skipped j (mem_cons_of_mem _ mem)

end Galio

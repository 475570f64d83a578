import Galio.Mm.ClaimTeardown
import Galio.Mm.SharedMemory

/-! The loops of `shmem.c` over the pages of a segment, read against the ledger of frames. -/

namespace Galio

open Function List

open Pmem

variable {address k pd : Nat} {pmem : Pmem} {segment : ShmemSegment}

/-- The frame of a segment's page. -/
def ShmemSegment.frame (segment : ShmemSegment) (k : Nat) : Nat := segment.phys k / frameSize

/-- The claim of a process on a page of a segment it attaches at an address. -/
def ShmemSegment.claim (segment : ShmemSegment) (pd address k : Nat) : Claim :=
  ⟨pd, address + k * pageSize, segment.frame k⟩

lemma attachedPage_inj {l : Nat} (same : address + k * pageSize = address + l * pageSize) : k = l :=
  Nat.eq_of_mul_eq_mul_right (by decide) (Nat.add_left_cancel same)

variable {kernel : Nat → Prop} {vm : Vm} {live frames : Finset Nat} {claims : Finset Claim}

section Release

lemma FrameClaims.congr (shared : FrameClaims kernel vm live frames claims)
    (cells : ∀ f, pmem.cell f = vm.pmem.cell f) : FrameClaims kernel { vm with pmem := pmem } live frames claims := by
  have ledger := shared.ledger
  have counts : ∀ f, pmem.frameRefcount f = vm.pmem.frameRefcount f := fun f => by
    rw [← cell_count, cells, cell_count]
  refine shared.recount (fun f => ?_) (Finset.Subset.refl live)
    { ledger with counted := fun f small other => ?_, exact := fun f listed => ?_ }
  · rw [cells]
    exact shared.clean f
  · rw [counts]
    exact ledger.counted f small other
  · rw [counts]
    exact ledger.exact f listed

variable {f : Nat}

lemma frameBitmap_derefFrames (clear : pmem.frameBitmap f = false)
    (released : List Nat) : (pmem.derefFrames released).frameBitmap f = false := by
  have kept : ∀ cell : FrameCell, cell.used = false → cell.deref.used = false := fun cell unused => by
    unfold FrameCell.deref
    split
    · exact unused
    · simp [unused]
  exact derefFrames_keeps kept released clear

/-- Frames of segments that nobody claims are released together, and are free then. -/
theorem FrameClaims.dropAll {released : List Nat} (distinct : released.Nodup)
    (shared : FrameClaims kernel vm live frames claims) (listed : ∀ f ∈ released, f ∈ frames)
    (unclaimed : ∀ f ∈ released, claimed claims f = 0) :
    FrameClaims kernel { vm with pmem := vm.pmem.derefFrames released } live
        (frames.filter fun f => f ∉ released) claims ∧
      ∀ f ∈ released, (vm.pmem.derefFrames released).frameBitmap f = false := by
  induction released generalizing vm frames with
  | nil =>
    refine ⟨?_, by simp⟩
    rw [Finset.filter_true_of_mem fun f _ => not_mem_nil]
    exact shared
  | cons head rest ih =>
    obtain ⟨absent, distinct'⟩ := nodup_cons.mp distinct
    have first := shared.drop (listed head mem_cons_self) (unclaimed head mem_cons_self)
    have gone := shared.drop_free (listed head mem_cons_self) (unclaimed head mem_cons_self)
    obtain ⟨kept, free⟩ := ih distinct' first (fun f mem => Finset.mem_erase.mpr
        ⟨fun same => absent (same ▸ mem), listed f (mem_cons_of_mem _ mem)⟩)
      (fun f mem => unclaimed f (mem_cons_of_mem _ mem))
    constructor
    · have same : (frames.erase head).filter (fun f => f ∉ rest) = frames.filter fun f => f ∉ head :: rest := by
        ext f
        simp only [Finset.mem_filter, Finset.mem_erase, mem_cons]
        tauto
      rw [← same]
      exact kept
    · intro f mem
      rcases mem_cons.mp mem with rfl | mem
      · exact frameBitmap_derefFrames gone rest
      · exact free f mem

lemma cell_derefFrames_comm (first second : List Nat) (pmem : Pmem) (f : Nat) :
    ((pmem.derefFrames first).derefFrames second).cell f = ((pmem.derefFrames second).derefFrames first).cell f := by
  simp only [derefFrames, cell_foldl FrameCell.deref cell_derefFrame]
  split
  · rw [← iterate_add_apply, ← iterate_add_apply, Nat.add_comm]
  · rfl

end Release

section Attach

variable {addr : Nat}

lemma pmemRefcountInc_frame (tracked : addr / frameSize < maxFrames) :
    pmemRefcountInc pmem addr = pmem.refFrame (addr / frameSize) := by
  simp [pmemRefcountInc, tracked]

lemma pmemRefcountDec_frame (tracked : addr / frameSize < maxFrames) :
    pmemRefcountDec pmem addr = pmem.derefFrame (addr / frameSize) := by
  simp [pmemRefcountDec, tracked]

lemma attachPage_mapped (segment : ShmemSegment) (pd address k : Nat)
    (whole : segment.phys k = segment.frame k * frameSize) (tracked : segment.frame k < maxFrames)
    (low : address + k * pageSize < 2 ^ 32)
    (space : UserSpace { vm with pmem := vm.pmem.refFrame (segment.frame k) } pd)
    (used : (vm.pmem.refFrame (segment.frame k)).frameBitmap (segment.frame k))
    (served : (vm.pool pd).tables (getTableSlot (address + k * pageSize)) ≠ 0 ∨
      (allocPageTable { vm with pmem := vm.pmem.refFrame (segment.frame k) }).2 ≠ 0) :
    PageMapped { vm with pmem := vm.pmem.refFrame (segment.frame k) } (attachPage pd address segment vm k) pd
      (getTableSlot (address + k * pageSize)) (getPageTableIndex (address + k * pageSize)) (segment.frame k) := by
  have mapped := space.map low tracked used served
  rw [← whole] at mapped
  unfold attachPage
  rw [pmemRefcountInc_frame tracked]
  exact mapped

/-- A round of the attaching loop claims the page, whether or not it could be mapped. -/
theorem FrameClaims.attachPage (shared : FrameClaims kernel vm live frames claims)
    (whole : segment.phys k = segment.frame k * frameSize) (listed : segment.frame k ∈ frames) (alive : pd ∈ live)
    (heap : HeapPage (address + k * pageSize)) (fresh : ∀ d ∈ claims, d.pd = pd → d.page ≠ address + k * pageSize)
    (room : claimed claims (segment.frame k) < 254) :
    FrameClaims kernel (attachPage pd address segment vm k) live frames
      (insert (segment.claim pd address k) claims) := by
  have reserved : FrameClaims kernel { vm with pmem := vm.pmem.refFrame (segment.frame k) } live frames
      (insert (segment.claim pd address k) claims) :=
    shared.reserve (c := segment.claim pd address k) listed alive heap fresh room
  have tracked := shared.ledger.tracked _ listed
  by_cases served : (vm.pool pd).tables (getTableSlot (address + k * pageSize)) ≠ 0 ∨
      (allocPageTable { vm with pmem := vm.pmem.refFrame (segment.frame k) }).2 ≠ 0
  · exact reserved.map (Finset.mem_insert_self _ claims) (attachPage_mapped _ _ _ _ whole tracked heap.low
      (reserved.spaces pd alive) (reserved.listed_used listed) served)
  · obtain ⟨absent, failed⟩ := not_or.mp served
    have same : Galio.attachPage pd address segment vm k = { vm with pmem := vm.pmem.refFrame (segment.frame k) } := by
      unfold Galio.attachPage
      rw [pmemRefcountInc_frame tracked]
      exact pagingMap_unserved _ _ (not_not.mp absent) (not_not.mp failed)
    rw [same]
    exact reserved

variable {indices : List Nat}

lemma FrameClaims.attachPages (segment : ShmemSegment) (address : Nat)
    (distinct : indices.Nodup) (shared : FrameClaims kernel vm live frames claims) (alive : pd ∈ live)
    (whole : ∀ k ∈ indices, segment.phys k = segment.frame k * frameSize)
    (listed : ∀ k ∈ indices, segment.frame k ∈ frames) (heap : ∀ k ∈ indices, HeapPage (address + k * pageSize))
    (fresh : ∀ k ∈ indices, ∀ d ∈ claims, d.pd = pd → d.page ≠ address + k * pageSize)
    (apart : ∀ k ∈ indices, ∀ l ∈ indices, segment.frame k = segment.frame l → k = l)
    (room : ∀ k ∈ indices, claimed claims (segment.frame k) < 254) :
    ∃ claims', FrameClaims kernel (indices.foldl (Galio.attachPage pd address segment) vm) live frames claims' ∧
      ∀ c, c ∈ claims' ↔ c ∈ claims ∨ ∃ k ∈ indices, c = segment.claim pd address k := by
  induction indices generalizing vm claims with
  | nil => exact ⟨claims, shared, by simp⟩
  | cons head rest ih =>
    have here : head ∈ head :: rest := mem_cons_self
    obtain ⟨absent, distinct'⟩ := nodup_cons.mp distinct
    have first := shared.attachPage (whole head here) (listed head here) alive (heap head here)
      (fresh head here) (room head here)
    have new : segment.claim pd address head ∉ claims := fun mem =>
      fresh head here _ mem rfl rfl
    obtain ⟨claims', done, members⟩ := ih distinct' first (fun k mem => whole k (mem_cons_of_mem _ mem))
      (fun k mem => listed k (mem_cons_of_mem _ mem))
      (fun k mem => heap k (mem_cons_of_mem _ mem))
      (fun k mem d inserted mine => by
        rcases Finset.mem_insert.mp inserted with rfl | old
        · intro same
          rw [attachedPage_inj same] at absent
          exact absent mem
        · exact fresh k (mem_cons_of_mem _ mem) d old mine)
      (fun k mem l mem' => apart k (mem_cons_of_mem _ mem) l (mem_cons_of_mem _ mem'))
      (fun k mem => by
        -- The frames of a segment are distinct, so the claim is on another frame.
        rw [claimed_insert new, if_neg]
        · exact room k (mem_cons_of_mem _ mem)
        · intro same
          rw [apart head here k (mem_cons_of_mem _ mem) same] at absent
          exact absent mem)
    refine ⟨claims', done, fun c => ?_⟩
    rw [members, Finset.mem_insert, exists_mem_cons_iff, or_comm (a := c = _), or_assoc]

lemma FrameClaims.detachPage (shared : FrameClaims kernel vm live frames claims)
    (mem : segment.claim pd address k ∈ claims) :
    FrameClaims kernel (detachPage pd address segment vm k) live frames
      (claims.erase (segment.claim pd address k)) := by
  have tracked := shared.ledger.tracked _ (shared.ledger.claim _ mem).2.1
  obtain ⟨unmapped, absent⟩ := shared.unmap mem
  have round : Galio.detachPage pd address segment vm k = { pagingUnmap vm pd (address + k * pageSize) with
        pmem := (pagingUnmap vm pd (address + k * pageSize)).pmem.derefFrame (segment.frame k) } := by
    rw [ShmemSegment.frame, ← pmemRefcountDec_frame tracked]
    rfl
  rw [round]
  exact unmapped.giveUp mem absent

lemma FrameClaims.detachPages (distinct : indices.Nodup) (shared : FrameClaims kernel vm live frames claims)
    (members : ∀ k ∈ indices, segment.claim pd address k ∈ claims) :
    ∃ claims', FrameClaims kernel (indices.foldl (Galio.detachPage pd address segment) vm) live frames claims' ∧
      ∀ c, c ∈ claims' ↔ c ∈ claims ∧ ∀ k ∈ indices, c ≠ segment.claim pd address k := by
  induction indices generalizing vm claims with
  | nil => exact ⟨claims, shared, by simp⟩
  | cons head rest ih =>
    obtain ⟨absent, distinct'⟩ := nodup_cons.mp distinct
    have first := shared.detachPage (members head mem_cons_self)
    obtain ⟨claims', done, left⟩ := ih distinct' first fun k mem => by
      refine Finset.mem_erase.mpr ⟨fun same => absent ?_, members k (mem_cons_of_mem _ mem)⟩
      rw [← attachedPage_inj (congrArg Claim.page same)]
      exact mem
    refine ⟨claims', done, fun c => ?_⟩
    rw [left, Finset.mem_erase, forall_mem_cons, and_comm (a := c ≠ _), and_assoc]

end Attach

end Galio

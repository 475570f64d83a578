import Galio.Mm.PmemLaws

/-! An allocator that has lent out frames, and gets them back. -/

namespace Galio

open Function List

open Pmem

variable {pmem before after : Pmem} {frames : List Nat} {frame : Nat}

/-- The allocator after single references on free frames alone; the cursor and the ledgers are left out. -/
structure Lent (before after : Pmem) (frames : List Nat) : Prop where
  clean : before.Clean
  distinct : frames.Nodup
  tracked : ∀ f ∈ frames, f < maxFrames
  free : ∀ f ∈ frames, before.frameBitmap f = false
  bitmap : ∀ f, after.frameBitmap f = (before.frameBitmap f || decide (f ∈ frames))
  refcount : ∀ f, after.frameRefcount f = if f ∈ frames then 1 else before.frameRefcount f
  totalFrames : after.totalFrames = before.totalFrames
  usedFrames : after.usedFrames = before.usedFrames + UInt32.ofNat frames.length

lemma Lent.nothing (clean : pmem.Clean) : Lent pmem pmem [] where
  clean := clean
  distinct := nodup_nil
  tracked := by simp
  free := by simp
  bitmap := by simp
  refcount := by simp
  totalFrames := rfl
  usedFrames := by simp

lemma Lent.perm {others : List Nat} (lent : Lent before after frames)
    (same : frames.Perm others) : Lent before after others where
  clean := lent.clean
  distinct := same.nodup_iff.mp lent.distinct
  tracked := fun f mem => lent.tracked f (same.mem_iff.mpr mem)
  free := fun f mem => lent.free f (same.mem_iff.mpr mem)
  bitmap := fun f => by simp only [lent.bitmap f, same.mem_iff]
  refcount := fun f => by simp only [lent.refcount f, same.mem_iff]
  totalFrames := lent.totalFrames
  usedFrames := by rw [lent.usedFrames, same.length_eq]

lemma refFrame_zero (tracked : frame < maxFrames) (zero : pmem.frameRefcount frame = 0) :
    (pmem.refFrame frame).frameBitmap = update pmem.frameBitmap frame true ∧
    (pmem.refFrame frame).frameRefcount = update pmem.frameRefcount frame 1 ∧
    (pmem.refFrame frame).totalFrames = pmem.totalFrames ∧
    (pmem.refFrame frame).usedFrames = pmem.usedFrames + 1 := by
  simp [refFrame, setFrame, Nat.not_le.mpr tracked, zero]

lemma derefFrame_one (tracked : frame < maxFrames) (one : pmem.frameRefcount frame = 1) :
    (pmem.derefFrame frame).frameBitmap = update pmem.frameBitmap frame false ∧
    (pmem.derefFrame frame).frameRefcount = update pmem.frameRefcount frame 0 ∧
    (pmem.derefFrame frame).totalFrames = pmem.totalFrames ∧
    (pmem.derefFrame frame).usedFrames = pmem.usedFrames - 1 := by
  simp [derefFrame, unsetFrame, Nat.not_le.mpr tracked, one]

lemma Lent.take (lent : Lent before after frames) (tracked : frame < maxFrames)
    (free : after.frameBitmap frame = false) : Lent before (after.refFrame frame) (frame :: frames) := by
  have clear := lent.bitmap frame
  rw [free, eq_comm, Bool.or_eq_false_iff, decide_eq_false_iff_not] at clear
  obtain ⟨unused, unlisted⟩ := clear
  have zero : after.frameRefcount frame = 0 := by
    rw [lent.refcount, if_neg unlisted]
    exact lent.clean frame unused
  obtain ⟨bitmap, refcount, total, used⟩ := refFrame_zero tracked zero
  refine ⟨lent.clean, nodup_cons.mpr ⟨unlisted, lent.distinct⟩, ?_, ?_, ?_, ?_, ?_, ?_⟩
  · rintro f (_ | ⟨_, mem⟩)
    · exact tracked
    · exact lent.tracked f mem
  · rintro f (_ | ⟨_, mem⟩)
    · exact unused
    · exact lent.free f mem
  · intro f
    rw [bitmap]
    by_cases same : f = frame
    · simp [same]
    · simp [same, lent.bitmap f]
  · intro f
    rw [refcount]
    by_cases same : f = frame
    · simp [same]
    · simp [same, lent.refcount f]
  · rw [total, lent.totalFrames]
  · rw [used, lent.usedFrames, length_cons, UInt32.ofNat_add, ← UInt32.add_assoc]
    rfl

lemma Lent.takes (lent : Lent before after frames) {more : List Nat} (distinct : more.Nodup)
    (tracked : ∀ f ∈ more, f < maxFrames) (free : ∀ f ∈ more, after.frameBitmap f = false) :
    Lent before (after.refFrames more) (more.reverse ++ frames) := by
  -- Each frame of the list is still free when its turn comes.
  induction more generalizing after frames with
  | nil => exact lent
  | cons head rest ih =>
    obtain ⟨fresh, restDistinct⟩ := nodup_cons.mp distinct
    have one := lent.take (tracked head mem_cons_self) (free head mem_cons_self)
    have later := ih one restDistinct (fun f mem => tracked f (mem_cons_of_mem _ mem)) ?_
    · rw [reverse_cons, append_assoc]
      exact later
    · intro f mem
      have apart : f ≠ head := by rintro rfl; exact fresh mem
      have unlisted := free f (mem_cons_of_mem _ mem)
      rw [lent.bitmap] at unlisted
      rw [one.bitmap]
      simpa [apart] using unlisted

lemma Lent.giveBack (lent : Lent before after (frame :: frames)) : Lent before (after.derefFrame frame) frames := by
  have one : after.frameRefcount frame = 1 := by rw [lent.refcount, if_pos mem_cons_self]
  obtain ⟨bitmap, refcount, total, used⟩ := derefFrame_one (lent.tracked frame mem_cons_self) one
  obtain ⟨fresh, distinct⟩ := nodup_cons.mp lent.distinct
  have unused := lent.free frame mem_cons_self
  refine ⟨lent.clean, distinct, fun f mem => lent.tracked f (mem_cons_of_mem _ mem),
    fun f mem => lent.free f (mem_cons_of_mem _ mem), ?_, ?_, ?_, ?_⟩
  · intro f
    rw [bitmap]
    by_cases same : f = frame
    · simp [same, unused, fresh]
    · simp [same, lent.bitmap f]
  · intro f
    rw [refcount, update_apply]
    by_cases same : f = frame
    · rw [if_pos same, same, if_neg fresh]
      exact (lent.clean frame unused).symm
    · simp [same, lent.refcount f]
  · rw [total, lent.totalFrames]
  · rw [used, lent.usedFrames, length_cons, UInt32.ofNat_add, ← UInt32.add_assoc]
    exact UInt32.add_sub_cancel _ _

/-- Two allocators with the same frames in use, counted the same. -/
structure SameFrames (before after : Pmem) : Prop where
  bitmap : after.frameBitmap = before.frameBitmap
  refcount : after.frameRefcount = before.frameRefcount
  totalFrames : after.totalFrames = before.totalFrames
  usedFrames : after.usedFrames = before.usedFrames

lemma Lent.giveAllBack {returned : List Nat} (lent : Lent before after frames) (same : returned.Perm frames) :
    SameFrames before (after.derefFrames returned) := by
  replace lent := lent.perm same.symm
  clear same
  induction returned generalizing after with
  | nil =>
    refine ⟨?_, ?_, lent.totalFrames, ?_⟩
    · funext f
      show after.frameBitmap f = _
      simp [lent.bitmap f]
    · funext f
      show after.frameRefcount f = _
      simp [lent.refcount f]
    · show after.usedFrames = _
      simp [lent.usedFrames]
  | cons head rest ih => exact ih lent.giveBack

end Galio

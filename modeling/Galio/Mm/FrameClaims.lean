import Mathlib.Algebra.BigOperators.Group.Finset.Basic
import Mathlib.Algebra.Order.BigOperators.Group.Finset
import Galio.Mm.Holders
import Galio.Syscall.MemoryLaws

/-! The ledger of frames shared by several processes: who holds a frame, and what its count says. -/

namespace Galio

open Pmem Option Finset

/-- The slots of the heap range. -/
def HeapSlot (s : Nat) : Prop := 512 ≤ s ∧ s < 640

/-- The frames written when heap pages are mapped and unmapped. -/
def Vm.HeapFrame (vm : Vm) (pd frame : Nat) : Prop :=
  (∃ j, j < 4 ∧ frame = (vm.pool pd).pageDirectory / frameSize + j) ∨
    ∃ s, HeapSlot s ∧ (vm.pool pd).tables s ≠ 0 ∧ frame = (vm.pool pd).tables s / frameSize

/-- A directory's own tables: of the heap range, and linked for users. -/
def Vm.OwnTable (vm : Vm) (pd frame : Nat) : Prop :=
  ∃ s, s < pageTableSlots ∧ (vm.pool pd).tables s ≠ 0 ∧ frame = (vm.pool pd).tables s / frameSize ∧
    (HeapSlot s ∨ (isPresent (vm.link pd s) = true ∧ isUser (vm.link pd s) = true))

open Classical in
/-- How often a directory holds a frame: by entries, as a level, as a table. -/
noncomputable def Vm.weight (vm : Vm) (pd frame : Nat) : Nat :=
  (vm.holders pd frame).card + (levels vm pd).count frame + if vm.OwnTable pd frame then 1 else 0

/-- A reference to a frame that is kept for a page of a process, mapped or not. -/
structure Claim where
  pd : Nat
  page : Nat
  frame : Nat
  deriving DecidableEq

/-- How many claims there are on a frame. -/
def claimed (claims : Finset Claim) (frame : Nat) : Nat := (claims.filter (·.frame = frame)).card

open Classical in
/--
What the counts say. A segment's frame has its own reference and one for each claim, and is mapped only where
claimed; any other frame has one for each time a directory holds it.
-/
structure ClaimLedger (kernel : Nat → Prop) (vm : Vm) (pmem : Pmem) (live segment : Finset Nat)
    (claims : Finset Claim) : Prop where
  counted : ∀ f, f < maxFrames → f ∉ segment →
    (∑ pd ∈ live, vm.weight pd f) + (if kernel f then 1 else 0) ≤ (pmem.frameRefcount f).toNat
  tracked : ∀ f ∈ segment, f < maxFrames
  exact : ∀ f ∈ segment, (pmem.frameRefcount f).toNat = 1 + claimed claims f
  outside : ∀ f ∈ segment, ¬kernel f ∧ ∀ pd ∈ live, ¬vm.Structural pd f ∧ f ∉ levels vm pd
  mapped : ∀ f ∈ segment, ∀ pd ∈ live, ∀ cell ∈ vm.holders pd f,
    ∃ c ∈ claims, c.pd = pd ∧ c.frame = f ∧ cell = vm.cellOf pd c.page
  claim : ∀ c ∈ claims, c.pd ∈ live ∧ c.frame ∈ segment ∧ HeapPage c.page
  unique : ∀ c ∈ claims, ∀ d ∈ claims, c.pd = d.pd → c.page = d.page → c = d

/-- The directories of the living processes, with the ledger of their frames. -/
structure FrameClaims (kernel : Nat → Prop) (vm : Vm) (live segment : Finset Nat)
    (claims : Finset Claim) : Prop where
  clean : vm.pmem.Clean
  spaces : ∀ pd ∈ live, UserSpace vm pd
  -- What one process writes of its directory is part of no other.
  apart : ∀ pd ∈ live, ∀ q ∈ live, q ≠ pd → ∀ f, vm.HeapFrame pd f → ¬vm.Structural q f
  borrowed : ∀ pd ∈ live, ∀ f, vm.Structural pd f → f ∈ levels vm pd ∨ vm.OwnTable pd f ∨ kernel f
  ledger : ClaimLedger kernel vm vm.pmem live segment claims

variable {after vm : Vm} {c : Claim} {f g pd s : Nat} {kernel : Nat → Prop} {pmem : Pmem}
  {live segment : Finset Nat} {claims : Finset Claim} {slot index : Nat}

lemma HeapSlot.below (heap : HeapSlot s) : s < pageTableSlots :=
  Nat.lt_trans heap.2 (by decide)

lemma HeapPage.heapSlot {page : Nat} (heap : HeapPage page) : HeapSlot (getTableSlot page) := heap.slot

lemma Vm.HeapFrame.structural (own : vm.HeapFrame pd f) : vm.Structural pd f :=
  own.imp_right fun ⟨s, heap, named, same⟩ => ⟨s, heap.below, named, same⟩

lemma Vm.OwnTable.structural (own : vm.OwnTable pd f) : vm.Structural pd f := by
  obtain ⟨s, below, named, same, _⟩ := own
  exact .inr ⟨s, below, named, same⟩

section Same

variable {before : Vm}

section

variable (same : Untouched before after pd)
include same

lemma Untouched.levels : levels after pd = levels before pd := by
  rw [Galio.levels, Galio.levels, same.pool]

lemma Untouched.structural : after.Structural pd f ↔ before.Structural pd f := by
  rw [Vm.Structural, Vm.Structural, same.pool]

lemma Untouched.ownTable : after.OwnTable pd f ↔ before.OwnTable pd f := by
  refine exists_congr fun s => and_congr_right fun below => ?_
  rw [same.pool, same.link below]

lemma Untouched.heapFrame : after.HeapFrame pd f ↔ before.HeapFrame pd f := by
  rw [Vm.HeapFrame, Vm.HeapFrame, same.pool]

lemma Untouched.weight (f : Nat) : after.weight pd f = before.weight pd f := by
  classical
  unfold Vm.weight
  rw [holders_congr same.pte, same.levels]
  exact congrArg _ (if_congr same.ownTable rfl rfl)

end

end Same

section Facts

lemma ClaimLedger.referenced (ledger : ClaimLedger kernel vm pmem live segment claims) (alive : pd ∈ live)
    (tracked : f < maxFrames) (held : 0 < vm.weight pd f ∨ kernel f) : pmem.frameRefcount f ≠ 0 := by
  intro zero
  by_cases shared : f ∈ segment
  · have exact := ledger.exact f shared
    rw [zero] at exact
    simp at exact
    omega
  · have counted := ledger.counted f tracked shared
    rw [zero] at counted
    rcases held with weighs | reserved
    · simp at counted
      have none := counted.1 pd alive
      omega
    · simp [reserved] at counted

lemma weight_of_maps (maps : vm.Maps pd f) : 0 < vm.weight pd f := by
  have some := card_pos.mpr (maps_iff_holders.mp maps)
  unfold Vm.weight
  omega

lemma weight_of_level (level : f ∈ levels vm pd) : 0 < vm.weight pd f := by
  have some := List.count_pos_iff.mpr level
  unfold Vm.weight
  omega

lemma weight_mono (fewer : (after.holders pd g).card ≤ (vm.holders pd g).card)
    (same : levels after pd = levels vm pd) (tables : after.OwnTable pd g → vm.OwnTable pd g) :
    after.weight pd g ≤ vm.weight pd g := by
  classical
  have own : (if after.OwnTable pd g then 1 else 0) ≤ if vm.OwnTable pd g then 1 else 0 := by
    by_cases own : after.OwnTable pd g
    · rw [if_pos own, if_pos (tables own)]
    · rw [if_neg own]
      exact Nat.zero_le _
  unfold Vm.weight
  rw [same]
  omega

section Used

variable (ledger : ClaimLedger kernel vm pmem live segment claims) (alive : pd ∈ live)
  (borrowed : ∀ f, vm.Structural pd f → f ∈ levels vm pd ∨ vm.OwnTable pd f ∨ kernel f) (space : UserSpace vm pd)

include ledger alive borrowed space

lemma ClaimLedger.referenced_of (held : vm.Structural pd f ∨ vm.Maps pd f) : pmem.frameRefcount f ≠ 0 := by
  rcases held with own | maps
  · apply ledger.referenced alive (space.structural_used own).1
    rcases borrowed f own with level | table | reserved
    · exact .inl (weight_of_level level)
    · exact .inl (by rw [Vm.weight, if_pos table]; omega)
    · exact .inr reserved
  · exact ledger.referenced alive (space.held f maps).1 (.inl (weight_of_maps maps))

end Used

lemma FrameClaims.recount (shared : FrameClaims kernel vm live segment claims) (clean : pmem.Clean)
    {live' segment' : Finset Nat} {claims' : Finset Claim} (fewer : live' ⊆ live)
    (ledger : ClaimLedger kernel vm pmem live' segment' claims') :
    FrameClaims kernel { vm with pmem := pmem } live' segment' claims' where
  clean := clean
  spaces := fun pd alive => by
    have space := shared.spaces pd (fewer alive)
    refine space.keep ⟨rfl, fun _ _ => rfl⟩ clean fun f held => clean.used_of_count ?_
    exact ledger.referenced_of alive (shared.borrowed pd (fewer alive)) space held
  apart := fun pd alive q alive' => shared.apart pd (fewer alive) q (fewer alive')
  borrowed := fun pd alive => shared.borrowed pd (fewer alive)
  ledger := { ledger with }

lemma claimed_insert (fresh : c ∉ claims) (f : Nat) :
    claimed (insert c claims) f = claimed claims f + if c.frame = f then 1 else 0 := by
  unfold claimed
  rw [filter_insert]
  split
  · rw [card_insert_of_notMem fun member => fresh (mem_of_mem_filter c member)]
  · rfl

end Facts

section Counts

variable (shared : FrameClaims kernel vm live segment claims)

include shared

lemma FrameClaims.free (tracked : f < maxFrames) (clear : vm.pmem.frameBitmap f = false) :
    f ∉ segment ∧ ¬kernel f ∧ ∀ pd ∈ live, vm.weight pd f = 0 := by
  have zero : vm.pmem.frameRefcount f = 0 := shared.clean f clear
  refine ⟨fun listed => ?_, fun reserved => ?_, fun pd alive => ?_⟩
  · have exact := shared.ledger.exact f listed
    rw [zero] at exact
    simp at exact
    omega
  · by_cases listed : f ∈ segment
    · exact (shared.ledger.outside f listed).1 reserved
    · have counted := shared.ledger.counted f tracked listed
      rw [zero] at counted
      simp [reserved] at counted
  · by_contra weighs
    exact shared.ledger.referenced alive tracked (.inl (Nat.pos_of_ne_zero weighs)) zero

lemma FrameClaims.used (alive : pd ∈ live) (held : vm.Structural pd f ∨ vm.Maps pd f) : vm.pmem.frameBitmap f :=
  shared.clean.used_of_count
    (shared.ledger.referenced_of alive (shared.borrowed pd alive) (shared.spaces pd alive) held)

section

variable (tracked : f < maxFrames) (clear : vm.pmem.frameBitmap f = false)
  (cells : ∀ g, pmem.cell g = if g = f then (vm.pmem.cell g).ref else vm.pmem.cell g)
include tracked clear cells

lemma FrameClaims.lose : FrameClaims kernel { vm with pmem := pmem } live segment claims := by
  obtain ⟨fresh, unreserved, nobody⟩ := shared.free tracked clear
  have counts : ∀ g ≠ f, pmem.frameRefcount g = vm.pmem.frameRefcount g := fun g other => by
    rw [← cell_count, cells, if_neg other, cell_count]
  have ledger := shared.ledger
  refine shared.recount (fun g => ?_) (Finset.Subset.refl live)
    { ledger with counted := fun g small other => ?_, exact := fun g listed => ?_ }
  · rw [cells]
    split
    · exact (shared.clean g).ref
    · exact shared.clean g
  · by_cases same : g = f
    · subst same
      rw [sum_eq_zero nobody, if_neg unreserved]
      exact Nat.zero_le _
    · rw [counts g same]
      exact ledger.counted g small other
  · rw [counts g fun same => fresh (same ▸ listed)]
    exact ledger.exact g listed

lemma FrameClaims.take : FrameClaims kernel { vm with pmem := pmem } live (insert f segment) claims := by
  obtain ⟨fresh, unreserved, nobody⟩ := shared.free tracked clear
  have lost := shared.lose tracked clear cells
  have ledger := lost.ledger
  refine lost.recount lost.clean (Finset.Subset.refl live) ⟨?_, ?_, ?_, ?_, ?_, ?_, ledger.unique⟩
  · intro g small other
    rw [mem_insert, not_or] at other
    exact ledger.counted g small other.2
  · intro g listed
    rcases mem_insert.mp listed with rfl | old
    · exact tracked
    · exact ledger.tracked g old
  · intro g listed
    rcases mem_insert.mp listed with rfl | old
    · -- Claims are on frames of segments, and this was none.
      have unclaimed : claimed claims g = 0 := by
        refine card_eq_zero.mpr (filter_eq_empty_iff.mpr fun c member same => fresh ?_)
        rw [← same]
        exact (ledger.claim c member).2.1
      rw [unclaimed, ← cell_count, cells, if_pos rfl]
      show (vm.pmem.frameRefcount g + 1).toNat = 1
      rw [shared.clean.count_zero clear]
      rfl
    · exact ledger.exact g old
  · intro g listed
    rcases mem_insert.mp listed with rfl | old
    · refine ⟨unreserved, fun pd alive => ⟨fun own => ?_, fun level => ?_⟩⟩
      · rw [shared.used alive (.inl own)] at clear
        simp at clear
      · exact absurd (nobody pd alive) (Nat.pos_iff_ne_zero.mp (weight_of_level level))
    · exact ledger.outside g old
  · intro g listed pd alive cell holds
    rcases mem_insert.mp listed with rfl | old
    · have maps : vm.Maps pd g := maps_iff_holders.mpr ⟨cell, holds⟩
      exact absurd (nobody pd alive) (Nat.pos_iff_ne_zero.mp (weight_of_maps maps))
    · exact ledger.mapped g old pd alive cell holds
  · intro c member
    obtain ⟨alive, listed, heap⟩ := ledger.claim c member
    exact ⟨alive, mem_insert_of_mem listed, heap⟩

end

lemma FrameClaims.listed_used (listed : f ∈ segment) : vm.pmem.frameBitmap f := by
  refine shared.clean.used_of_count fun zero => ?_
  have counted := shared.ledger.exact f listed
  rw [zero, UInt8.toNat_zero] at counted
  omega

section

variable (listed : f ∈ segment) (unclaimed : claimed claims f = 0)
include listed unclaimed

lemma FrameClaims.weight_zero (alive : pd ∈ live) : vm.weight pd f = 0 := by
  have ledger := shared.ledger
  obtain ⟨notOwn, notLevel⟩ := (ledger.outside f listed).2 pd alive
  have nobody : vm.holders pd f = ∅ := by
    rw [← not_nonempty_iff_eq_empty]
    rintro ⟨cell, holds⟩
    obtain ⟨c, member, _, same, _⟩ := ledger.mapped f listed pd alive cell holds
    have some : 0 < claimed claims f :=
      card_pos.mpr ⟨c, mem_filter.mpr ⟨member, same⟩⟩
    omega
  unfold Vm.weight
  rw [nobody, card_empty, List.count_eq_zero_of_not_mem notLevel, if_neg fun own => notOwn own.structural]

lemma FrameClaims.drop :
    FrameClaims kernel { vm with pmem := vm.pmem.derefFrame f } live (segment.erase f) claims := by
  have ledger := shared.ledger
  have counts : ∀ g ≠ f, (vm.pmem.derefFrame f).frameRefcount g = vm.pmem.frameRefcount g :=
    fun g other => by rw [← cell_count, cell_derefFrame, if_neg fun same => other same.1, cell_count]
  have clean : (vm.pmem.derefFrame f).Clean := shared.clean.derefFrames [f]
  refine shared.recount clean (Finset.Subset.refl live)
    ⟨fun g small other => ?_, fun g left => ledger.tracked g (mem_of_mem_erase left),
      fun g left => ?_, fun g left => ledger.outside g (mem_of_mem_erase left),
      fun g left => ledger.mapped g (mem_of_mem_erase left), fun c member => ?_, ledger.unique⟩
  · by_cases same : g = f
    · subst same
      rw [sum_eq_zero fun pd alive => shared.weight_zero listed unclaimed alive,
        if_neg (ledger.outside g listed).1]
      exact Nat.zero_le _
    · rw [counts g same]
      exact ledger.counted g small fun old => other (mem_erase.mpr ⟨same, old⟩)
  · rw [counts g (ne_of_mem_erase left)]
    exact ledger.exact g (mem_of_mem_erase left)
  · obtain ⟨alive, inSegment, heap⟩ := ledger.claim c member
    refine ⟨alive, mem_erase.mpr ⟨fun same => ?_, inSegment⟩, heap⟩
    have some : 0 < claimed claims f :=
      card_pos.mpr ⟨c, mem_filter.mpr ⟨member, same⟩⟩
    omega

lemma FrameClaims.drop_free : (vm.pmem.derefFrame f).frameBitmap f = false := by
  have one : vm.pmem.frameRefcount f = 1 := by
    rw [← UInt8.toNat_inj, shared.ledger.exact f listed, unclaimed]
    rfl
  rw [← cell_used, cell_derefFrame, if_pos ⟨rfl, shared.ledger.tracked f listed⟩]
  simp [FrameCell.deref, one]

end

lemma FrameClaims.reserve (listed : c.frame ∈ segment) (alive : c.pd ∈ live) (heap : HeapPage c.page)
    (fresh : ∀ d ∈ claims, d.pd = c.pd → d.page ≠ c.page) (room : claimed claims c.frame < 254) :
    FrameClaims kernel { vm with pmem := vm.pmem.refFrame c.frame } live segment (insert c claims) := by
  have ledger := shared.ledger
  have tracked := ledger.tracked c.frame listed
  have new : c ∉ claims := fun member => fresh c member rfl rfl
  have counts : ∀ g ≠ c.frame, (vm.pmem.refFrame c.frame).frameRefcount g = vm.pmem.frameRefcount g :=
    fun g other => by rw [← cell_count, cell_refFrame, if_neg fun same => other same.1, cell_count]
  have clean : (vm.pmem.refFrame c.frame).Clean := shared.clean.refFrames [c.frame]
  refine shared.recount clean (Finset.Subset.refl live)
    ⟨fun g small other => ?_, ledger.tracked, fun g inSegment => ?_, ledger.outside,
      fun g inSegment pd alive cell holds => ?_, fun d member => ?_, fun d member e member' => ?_⟩
  · rw [counts g fun same => other (same ▸ listed)]
    exact ledger.counted g small other
  · rw [claimed_insert new]
    by_cases same : c.frame = g
    · subst same
      have old := ledger.exact c.frame inSegment
      rw [← cell_count, cell_refFrame, if_pos ⟨rfl, tracked⟩]
      show (vm.pmem.frameRefcount c.frame + 1).toNat = _
      simp
      omega
    · rw [counts g (Ne.symm same), if_neg same]
      exact ledger.exact g inSegment
  · obtain ⟨d, member, rest⟩ := ledger.mapped g inSegment pd alive cell holds
    exact ⟨d, mem_insert_of_mem member, rest⟩
  · rcases mem_insert.mp member with rfl | old
    · exact ⟨alive, listed, heap⟩
    · exact ledger.claim d old
  · intro samePd samePage
    rcases mem_insert.mp member with rfl | old
    · rcases mem_insert.mp member' with rfl | old'
      · rfl
      · exact absurd samePage.symm (fresh e old' samePd.symm)
    · rcases mem_insert.mp member' with rfl | old'
      · exact absurd samePage (fresh d old samePd)
      · exact ledger.unique d old e old' samePd samePage

lemma FrameClaims.giveUp (member : c ∈ claims) (unmapped : vm.pte c.pd (vm.cellOf c.pd c.page) = none) :
    FrameClaims kernel { vm with pmem := vm.pmem.derefFrame c.frame } live segment (claims.erase c) := by
  have ledger := shared.ledger
  obtain ⟨_, listed, _⟩ := ledger.claim c member
  have tracked := ledger.tracked c.frame listed
  have counts : ∀ g ≠ c.frame, (vm.pmem.derefFrame c.frame).frameRefcount g = vm.pmem.frameRefcount g :=
    fun g other => by rw [← cell_count, cell_derefFrame, if_neg fun same => other same.1, cell_count]
  have clean : (vm.pmem.derefFrame c.frame).Clean := shared.clean.derefFrames [c.frame]
  refine shared.recount clean (Finset.Subset.refl live)
    ⟨fun g small other => ?_, ledger.tracked, fun g inSegment => ?_, ledger.outside,
      fun g inSegment pd alive cell holds => ?_, fun d left => ledger.claim d (mem_of_mem_erase left),
      fun d left e left' => ledger.unique d (mem_of_mem_erase left) e (mem_of_mem_erase left')⟩
  · rw [counts g fun same => other (same ▸ listed)]
    exact ledger.counted g small other
  · have erased := (claimed_insert (notMem_erase c claims) g).symm
    rw [insert_erase member] at erased
    by_cases same : c.frame = g
    · subst same
      have old := ledger.exact c.frame inSegment
      rw [if_pos rfl] at erased
      rw [← cell_count, cell_derefFrame, if_pos ⟨rfl, tracked⟩, FrameCell.count_deref, cell_count]
      omega
    · rw [if_neg same, Nat.add_zero] at erased
      rw [counts g (Ne.symm same), erased]
      exact ledger.exact g inSegment
  · obtain ⟨d, old, rfl, frame, place⟩ := ledger.mapped g inSegment pd alive cell holds
    refine ⟨d, mem_erase.mpr ⟨?_, old⟩, rfl, frame, place⟩
    rintro rfl
    rw [mem_holders, place, unmapped] at holds
    simp at holds

/--
What changes one directory alone keeps the ledger.

The directory comes to be made of frames it had or free ones, and to hold a frame no more often than before or than
its new count says.
-/
theorem FrameClaims.change (untouched : ∀ q ∈ live, q ≠ pd → Untouched vm after q)
    (space : UserSpace after pd) (clean : after.pmem.Clean) (levels : levels after pd = levels vm pd)
    (cells : ∀ f, vm.pmem.frameBitmap f → after.pmem.cell f = vm.pmem.cell f)
    (heapFrame : ∀ f, after.HeapFrame pd f → vm.HeapFrame pd f ∨ vm.pmem.frameBitmap f = false)
    (structural : ∀ f, after.Structural pd f → vm.Structural pd f ∨ vm.pmem.frameBitmap f = false)
    (borrowed : ∀ f, after.Structural pd f → f ∈ Galio.levels after pd ∨ after.OwnTable pd f ∨ kernel f)
    (weight : ∀ g ∉ segment, after.weight pd g ≤ vm.weight pd g ∨
      vm.pmem.frameBitmap g = false ∧ after.weight pd g ≤ (after.pmem.frameRefcount g).toNat)
    (mapped : ∀ f ∈ segment, ∀ cell ∈ after.holders pd f,
      ∃ c ∈ claims, c.pd = pd ∧ c.frame = f ∧ cell = after.cellOf pd c.page) :
    FrameClaims kernel after live segment claims := by
  have ledger := shared.ledger
  -- A frame in use is not free, and keeps its count.
  have taken : ∀ {q f}, q ∈ live → vm.Structural q f ∨ vm.Maps q f → ¬vm.pmem.frameBitmap f = false :=
    fun alive held clear => by
      rw [shared.used alive held] at clear
      simp at clear
  have count : ∀ f, vm.pmem.frameBitmap f → after.pmem.frameRefcount f = vm.pmem.frameRefcount f :=
    fun f used => by rw [← cell_count, cells f used, cell_count]
  refine ⟨clean, fun q alive => ?_, fun p alive q alive' other f own own' => ?_, fun q alive f own => ?_,
    fun g small apart => ?_, ledger.tracked, fun f inSegment => ?_, fun f inSegment => ?_,
    fun f inSegment q alive cell holds => ?_, ledger.claim, ledger.unique⟩
  · by_cases same : q = pd
    · rwa [same]
    · refine (shared.spaces q alive).keep (untouched q alive same) clean fun f held => ?_
      have used := shared.used alive held
      rw [← cell_used, cells f used, cell_used, used]
  · by_cases mine : p = pd
    · subst mine
      have old := (untouched q alive' other).structural.mp own'
      rcases heapFrame f own with before | clear
      · exact shared.apart p alive q alive' other f before old
      · exact taken alive' (.inl old) clear
    · have old := (untouched p alive mine).heapFrame.mp own
      by_cases theirs : q = pd
      · subst theirs
        rcases structural f own' with before | clear
        · exact shared.apart p alive q alive' other f old before
        · exact taken alive (.inl old.structural) clear
      · exact shared.apart p alive q alive' other f old ((untouched q alive' theirs).structural.mp own')
  · by_cases same : q = pd
    · subst same
      exact borrowed f own
    · have kept := untouched q alive same
      rw [kept.levels, kept.ownTable]
      exact shared.borrowed q alive f (kept.structural.mp own)
  · have before := ledger.counted g small apart
    cases used : vm.pmem.frameBitmap g with
    | true =>
      have fewer : ∑ q ∈ live, after.weight q g ≤ ∑ q ∈ live, vm.weight q g := by
        refine sum_le_sum fun q alive => ?_
        by_cases same : q = pd
        · subst same
          exact (weight g apart).resolve_right fun free => absurd (free.1.symm.trans used) (by decide)
        · exact Nat.le_of_eq ((untouched q alive same).weight g)
      rw [count g used]
      omega
    | false =>
      -- A free frame is held by nobody but the directory.
      obtain ⟨_, unreserved, nobody⟩ := shared.free small used
      have others : ∀ q ∈ live, q ≠ pd → after.weight q g = 0 := fun q alive other =>
        ((untouched q alive other).weight g).trans (nobody q alive)
      rw [if_neg unreserved, add_zero]
      by_cases mine : pd ∈ live
      · rw [sum_eq_single_of_mem pd mine others]
        rcases weight g apart with fewer | ⟨_, fits⟩
        · rw [nobody pd mine] at fewer
          exact fewer.trans (Nat.zero_le _)
        · exact fits
      · rw [sum_eq_zero fun q alive => others q alive fun same => mine (same ▸ alive)]
        exact Nat.zero_le _
  · rw [count f (shared.listed_used inSegment)]
    exact ledger.exact f inSegment
  · refine ⟨(ledger.outside f inSegment).1, fun q alive => ?_⟩
    obtain ⟨notOwn, notLevel⟩ := (ledger.outside f inSegment).2 q alive
    by_cases same : q = pd
    · subst same
      refine ⟨fun own => ?_, by rwa [levels]⟩
      rcases structural f own with before | clear
      · exact notOwn before
      · exact absurd (clear.symm.trans (shared.listed_used inSegment)) (by decide)
    · have kept := untouched q alive same
      exact ⟨fun own => notOwn (kept.structural.mp own), by rwa [kept.levels]⟩
  · by_cases same : q = pd
    · subst same
      exact mapped f inSegment cell holds
    · have kept := untouched q alive same
      rw [holders_congr kept.pte] at holds
      obtain ⟨d, old, mineToo, frame, place⟩ := ledger.mapped f inSegment q alive cell holds
      exact ⟨d, old, mineToo, frame, by rw [place, Vm.cellOf, Vm.cellOf, kept.pool]⟩

end Counts

section Map

variable (shared : FrameClaims kernel vm live segment claims) (member : c ∈ claims)

section

variable {frame : Nat} (mapped : PageMapped vm after pd slot index frame)
include mapped

lemma PageMapped.levels : levels after pd = levels vm pd := by
  rw [Galio.levels, Galio.levels, mapped.directory, mapped.pdpt, mapped.pageDirectory]

lemma PageMapped.link_kept (below : s < pageTableSlots) (old : (vm.pool pd).tables s ≠ 0) :
    after.link pd s = vm.link pd s := by
  apply mapped.links s below
  by_cases here : s = slot
  · exact .inr (here ▸ old)
  · exact .inl here

lemma PageMapped.ownTable (own : vm.OwnTable pd g) : after.OwnTable pd g := by
  obtain ⟨s, below, named, same, kind⟩ := own
  have kept := mapped.kept s named
  refine ⟨s, below, by rwa [kept], by rw [kept, same], ?_⟩
  rwa [mapped.link_kept below named]

lemma PageMapped.slot_cases (named : (after.pool pd).tables s ≠ 0) :
    (vm.pool pd).tables s ≠ 0 ∧ (after.pool pd).tables s = (vm.pool pd).tables s ∨
      (vm.pool pd).tables slot = 0 ∧ (after.pool pd).tables s = (after.pool pd).tables slot := by
  by_cases old : (vm.pool pd).tables s = 0
  · -- A slot that comes to name a table names the new one.
    rcases (mapped.names s).mp named with before | ⟨absent, _⟩
    · exact absurd old before
    · exact .inr ⟨absent, (mapped.named s).resolve_left fun same => named (same.trans old)⟩
  · exact .inl ⟨old, mapped.kept s old⟩

lemma PageMapped.ownTable_cases (own : after.OwnTable pd g) : vm.OwnTable pd g ∨
      (vm.pool pd).tables slot = 0 ∧ g = (after.pool pd).tables slot / frameSize := by
  obtain ⟨s, below, named, rfl, kind⟩ := own
  rcases mapped.slot_cases named with ⟨old, kept⟩ | ⟨absent, new⟩
  · rw [mapped.link_kept below old] at kind
    exact .inl ⟨s, below, old, by rw [kept], kind⟩
  · exact .inr ⟨absent, by rw [new]⟩

lemma PageMapped.heapFrame_cases
    (own : after.HeapFrame pd f) : vm.HeapFrame pd f ∨ vm.pmem.frameBitmap f = false := by
  rcases own with ⟨j, inFour, rfl⟩ | ⟨s, heap, named, rfl⟩
  · exact .inl (.inl ⟨j, inFour, by rw [mapped.pageDirectory]⟩)
  · rcases mapped.slot_cases named with ⟨old, kept⟩ | ⟨absent, new⟩
    · exact .inl (.inr ⟨s, heap, old, by rw [kept]⟩)
    · rw [new]
      exact .inr (mapped.created absent)

lemma PageMapped.structural_cases
    (own : after.Structural pd f) : vm.Structural pd f ∨ f = (after.pool pd).tables slot / frameSize := by
  rcases own with ⟨j, inFour, rfl⟩ | ⟨s, below, named, rfl⟩
  · exact .inl (.inl ⟨j, inFour, by rw [mapped.pageDirectory]⟩)
  · rcases mapped.slot_cases named with ⟨old, kept⟩ | ⟨_, new⟩
    · exact .inl (.inr ⟨s, below, old, by rw [kept]⟩)
    · exact .inr (by rw [new])

variable (inSlot : slot < pageTableSlots)
include inSlot

variable (inTable : index < 512) (tracked : frame < maxFrames) (other : g ≠ frame)
include inTable tracked other

lemma PageMapped.holders_le : (after.holders pd g).card ≤ (vm.holders pd g).card := by
  rw [holders_erase (mapped.pte inSlot inTable)]
  · exact card_erase_le
  · rw [map_some, entryFrame_userEntry tracked]
    exact fun same => other (some.inj same).symm

lemma PageMapped.weight_le (old : ¬((vm.pool pd).tables slot = 0 ∧ g = (after.pool pd).tables slot / frameSize)) :
    after.weight pd g ≤ vm.weight pd g :=
  weight_mono (mapped.holders_le inSlot inTable tracked other) mapped.levels fun own =>
    (mapped.ownTable_cases own).resolve_right old

lemma PageMapped.weight_made (nobody : vm.weight pd g = 0) : after.weight pd g ≤ 1 := by
  classical
  have fewer := mapped.holders_le inSlot inTable tracked other
  have tables : (if after.OwnTable pd g then 1 else 0) ≤ 1 := by
    split
    · exact Nat.le_refl _
    · exact Nat.zero_le _
  unfold Vm.weight at nobody ⊢
  rw [mapped.levels]
  omega

end

include shared member

variable (mapped : PageMapped vm after c.pd (getTableSlot c.page) (getPageTableIndex c.page) c.frame)
include mapped

lemma FrameClaims.map_untouched {q : Nat} (alive : q ∈ live) (other : q ≠ c.pd) : Untouched vm after q := by
  obtain ⟨mine, listed, heap⟩ := shared.ledger.claim c member
  refine ⟨mapped.pools q other, fun f own => ?_⟩
  have outside := shared.apart c.pd mine q alive other f
  refine mapped.mem f ((shared.spaces q alive).structural_used own).1 ?_ (fun j inFour same => ?_) ?_
  · rintro rfl
    exact ((shared.ledger.outside _ listed).2 q alive).1 own
  · exact outside (.inl ⟨j, inFour, same⟩) own
  · rintro rfl
    by_cases absent : (vm.pool c.pd).tables (getTableSlot c.page) = 0
    · have clear := mapped.created absent
      rw [shared.used alive (.inl own)] at clear
      simp at clear
    · refine outside (.inr ⟨_, heap.heapSlot, absent, ?_⟩) own
      rw [mapped.kept _ absent]

lemma FrameClaims.map : FrameClaims kernel after live segment claims := by
  have ledger := shared.ledger
  obtain ⟨mine, listed, heap⟩ := ledger.claim c member
  have inSlot := getTableSlot_lt heap.low
  have inTable := getPageTableIndex_lt c.page
  have tracked := ledger.tracked c.frame listed
  refine shared.change (fun q alive other => shared.map_untouched member mapped alive other) mapped.space
    mapped.space.layout.clean mapped.levels mapped.cells (fun f => mapped.heapFrame_cases) mapped.fresh
    (fun f own => ?_) (fun g apart => ?_) fun f inSegment cell holds => ?_
  · rcases mapped.structural_cases own with before | rfl
    · rw [mapped.levels]
      exact (shared.borrowed c.pd mine f before).imp_right fun rest => rest.imp_left mapped.ownTable
    · exact .inr (.inl ⟨_, inSlot, mapped.present, rfl, .inl heap.heapSlot⟩)
  · have other : g ≠ c.frame := fun same => apart (same ▸ listed)
    by_cases made : (vm.pool c.pd).tables (getTableSlot c.page) = 0 ∧
        g = (after.pool c.pd).tables (getTableSlot c.page) / frameSize
    · -- The new table was nobody's, and has one reference.
      obtain ⟨absent, rfl⟩ := made
      have clear := mapped.created absent
      have small := (mapped.space.structural_used (.inr ⟨_, inSlot, mapped.present, rfl⟩)).1
      obtain ⟨_, _, nobody⟩ := shared.free small clear
      refine .inr ⟨clear, ?_⟩
      rw [← cell_count, mapped.counted absent]
      show _ ≤ (vm.pmem.frameRefcount _ + 1).toNat
      rw [shared.clean.count_zero clear]
      exact mapped.weight_made inSlot inTable tracked other (nobody c.pd mine)
    · exact .inl (mapped.weight_le inSlot inTable tracked other made)
  · rw [mem_holders, mapped.pte inSlot inTable] at holds
    split at holds
    · rename_i here
      rw [map_some, entryFrame_userEntry tracked] at holds
      exact ⟨c, member, rfl, some.inj holds, here⟩
    · obtain ⟨d, old, mineToo, frame, place⟩ := ledger.mapped f inSegment c.pd mine cell (mem_holders.mpr holds)
      refine ⟨d, old, mineToo, frame, ?_⟩
      -- The table that shows the entry stays where it is.
      have low := (ledger.claim d old).2.2.low
      have named : (vm.pool c.pd).tables (getTableSlot d.page) ≠ 0 := by
        intro absent
        rw [place, pte_cellOf low, Vm.shown, absent] at holds
        simp at holds
      rw [place, Vm.cellOf, Vm.cellOf, mapped.kept _ named]

end Map

section Unmap

variable (unmapped : PageUnmapped vm after pd slot index)

include unmapped

lemma PageUnmapped.levels : levels after pd = levels vm pd := by
  rw [Galio.levels, Galio.levels, unmapped.directory, unmapped.pdpt, unmapped.pageDirectory]

lemma PageUnmapped.kept (named : (after.pool pd).tables s ≠ 0) : (after.pool pd).tables s = (vm.pool pd).tables s :=
  (unmapped.tables s).resolve_right fun lost => named lost.1

lemma PageUnmapped.same (other : s ≠ slot / 2 ∨ s = slot) : (after.pool pd).tables s = (vm.pool pd).tables s :=
  (unmapped.tables s).resolve_right fun lost => by omega

lemma PageUnmapped.structural (own : after.Structural pd f) : vm.Structural pd f := by
  rcases own with ⟨j, inFour, rfl⟩ | ⟨s, below, named, rfl⟩
  · exact .inl ⟨j, inFour, by rw [unmapped.pageDirectory]⟩
  · have kept := unmapped.kept named
    rw [kept] at named ⊢
    exact .inr ⟨s, below, named, rfl⟩

lemma PageUnmapped.heapFrame (own : after.HeapFrame pd f) : vm.HeapFrame pd f := by
  rcases own with ⟨j, inFour, rfl⟩ | ⟨s, heap, named, rfl⟩
  · exact .inl ⟨j, inFour, by rw [unmapped.pageDirectory]⟩
  · have kept := unmapped.kept named
    rw [kept] at named ⊢
    exact .inr ⟨s, heap, named, rfl⟩

lemma PageUnmapped.ownTable (own : after.OwnTable pd f) : vm.OwnTable pd f := by
  obtain ⟨s, below, named, rfl, kind⟩ := own
  have kept := unmapped.kept named
  rw [kept] at named ⊢
  rw [unmapped.links s below] at kind
  exact ⟨s, below, named, rfl, kind⟩

lemma PageUnmapped.ownTable_kept (heap : HeapSlot slot) (present : (vm.pool pd).tables slot ≠ 0)
    (own : vm.OwnTable pd f) : after.OwnTable pd f := by
  obtain ⟨s, below, named, rfl, kind⟩ := own
  rcases unmapped.tables s with same | ⟨_, _, _, shared⟩
  · refine ⟨s, below, by rwa [same], by rw [same], ?_⟩
    rwa [unmapped.links s below]
  · -- Half the slot gave up the second name of a table that the slot keeps.
    have same := unmapped.same (.inr rfl)
    exact ⟨slot, heap.below, by rwa [same], by rw [same, shared], .inl heap⟩

lemma PageUnmapped.weight_le (inSlot : slot < pageTableSlots) (g : Nat) : after.weight pd g ≤ vm.weight pd g := by
  have fewer : (after.holders pd g).card ≤ (vm.holders pd g).card := by
    rw [holders_erase (unmapped.pte inSlot)]
    · exact card_erase_le
    · simp
  exact weight_mono fewer unmapped.levels unmapped.ownTable

end Unmap

section UnmapClaim

variable (shared : FrameClaims kernel vm live segment claims) (member : c ∈ claims)

include shared member

lemma FrameClaims.unmap_present (present : (vm.pool c.pd).tables (getTableSlot c.page) ≠ 0)
    (unmapped : PageUnmapped vm after c.pd (getTableSlot c.page) (getPageTableIndex c.page)) :
    FrameClaims kernel after live segment claims := by
  have ledger := shared.ledger
  obtain ⟨mine, _, heap⟩ := ledger.claim c member
  have inSlot := getTableSlot_lt heap.low
  have slots := heap.heapSlot
  refine shared.change (fun q alive other => ⟨unmapped.pools q other, fun f own => unmapped.mem f fun same => ?_⟩)
    unmapped.space (by rw [unmapped.pmem]; exact shared.clean) unmapped.levels fun f _ => by rw [unmapped.pmem]
    (fun f own => .inl (unmapped.heapFrame own)) (fun f own => .inl (unmapped.structural own)) (fun f own => ?_)
    (fun g _ => .inl (unmapped.weight_le inSlot g)) fun f inSegment cell holds => ?_
  · exact shared.apart c.pd mine q alive other f (.inr ⟨_, slots, present, same⟩) own
  · rw [unmapped.levels]
    exact (shared.borrowed c.pd mine f (unmapped.structural own)).imp_right fun rest =>
      rest.imp_left (unmapped.ownTable_kept slots present)
  · rw [mem_holders, unmapped.pte inSlot] at holds
    split at holds
    · simp at holds
    obtain ⟨d, old, mineToo, frame, place⟩ :=
      ledger.mapped f inSegment c.pd mine cell (mem_holders.mpr holds)
    refine ⟨d, old, mineToo, frame, ?_⟩
    -- Half a heap slot is no heap slot, so the entry's table keeps its name.
    have there := (ledger.claim d old).2.2.heapSlot
    rw [place, Vm.cellOf, Vm.cellOf, unmapped.same (.inl ?_)]
    have first := slots.2
    have second := there.1
    omega

lemma FrameClaims.unmap : FrameClaims kernel (pagingUnmap vm c.pd c.page) live segment claims ∧
    (pagingUnmap vm c.pd c.page).pte c.pd ((pagingUnmap vm c.pd c.page).cellOf c.pd c.page) = none := by
  obtain ⟨mine, _, heap⟩ := shared.ledger.claim c member
  have inSlot := getTableSlot_lt heap.low
  by_cases absent : (vm.pool c.pd).tables (getTableSlot c.page) = 0
  · have same : pagingUnmap vm c.pd c.page = vm := by simp [pagingUnmap, absent]
    rw [same, pte_cellOf heap.low, Vm.shown, absent]
    exact ⟨shared, by simp⟩
  · have unmapped := (shared.spaces c.pd mine).unmap heap.low absent
    refine ⟨shared.unmap_present member absent unmapped, ?_⟩
    rw [unmapped.pte inSlot, Vm.cellOf, unmapped.same (.inr rfl), if_pos rfl]

end UnmapClaim

end Galio

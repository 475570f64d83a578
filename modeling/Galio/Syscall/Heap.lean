import Galio.Mm.Holders
import Galio.Syscall.Mmap

/-! The frames a process gets from `brk` and `mmap`, over whole runs. -/

namespace Galio

open Pmem Transition Option

/--
Every frame obtained since the start, page tables apart, is held by one user entry and referenced once, or
released.
-/
def Accounted (start now : Vm) (pd : Nat) : Prop :=
  ∀ frame, start.pmem.taken frame < now.pmem.taken frame → ¬now.Structural pd frame →
    (now.pmem.frameRefcount frame = 1 ∧ ∃ cell entry, now.holders pd frame = {cell} ∧
      now.pte pd cell = some entry ∧ isUser entry = true) ∨
    (now.pmem.frameRefcount frame = 0 ∧ now.holders pd frame = ∅)

/-- A process whose entries are all counted and map none of its own tables. -/
structure HeapStart (vm : Vm) (pd : Nat) : Prop where
  space : UserSpace vm pd
  reserved : vm.pmem.frameBitmap 0 = true
  apart : ∀ frame, vm.Maps pd frame → ¬vm.Structural pd frame
  counted : ∀ frame, (vm.holders pd frame).card ≤ (vm.pmem.frameRefcount frame).toNat

/-- What holds of a process at work on its heap. -/
structure HeapInvariant (start vm : Vm) (pd : Nat) : Prop extends HeapStart vm pd where
  accounted : Accounted start vm pd

/-- What the out-of-memory killer leaves of a process that shares no frame with victims. -/
structure SparedAlone (before after : Vm) (pd : Nat) : Prop extends Spared before after pd where
  reserved : before.pmem.frameBitmap 0 = true → after.pmem.frameBitmap 0 = true
  counts : ∀ frame, before.Maps pd frame → after.pmem.frameRefcount frame = before.pmem.frameRefcount frame
  fewer : ∀ frame, after.pmem.frameRefcount frame ≤ before.pmem.frameRefcount frame

/-- An out-of-memory killer whose victims share nothing with the process. -/
def SparingAlone (oomKill : Vm → Vm) (pd : Nat) : Prop :=
  ∀ vm, UserSpace vm pd → SparedAlone vm (oomKill vm) pd

variable {after before start : Vm} {entry : Word} {page pd : Nat} {vm : Vm} {frame : Nat}

section Kill

variable {oomKill : Vm → Vm}

lemma SparingAlone.reclaim (alone : SparingAlone oomKill pd) (space : UserSpace vm pd) :
    SparedAlone vm (reclaim oomKill vm) pd := by
  unfold Galio.reclaim
  split
  · exact alone vm space
  · exact ⟨space.spared_self, id, fun _ _ => rfl, fun _ => UInt8.le_refl _⟩

lemma HeapInvariant.kill (invariant : HeapInvariant start vm pd)
    (spared : SparedAlone vm after pd) : HeapInvariant start after pd where
  space := invariant.space.spared spared.toSpared
  reserved := spared.reserved invariant.reserved
  apart := fun frame maps => by
    have structural : after.Structural pd frame ↔ vm.Structural pd frame := by
      simp only [Vm.Structural, spared.pool]
    rw [structural]
    exact invariant.apart frame (spared.maps.mp maps)
  counted := fun frame => by
    rw [holders_congr spared.pte]
    rcases (vm.holders pd frame).eq_empty_or_nonempty with none | some
    · rw [none]
      exact Nat.zero_le _
    · rw [spared.counts frame (maps_iff_holders.mpr some)]
      exact invariant.counted frame
  accounted := fun frame taken outside => by
    rw [spared.taken frame] at taken
    have outside' : ¬vm.Structural pd frame := by
      simpa only [Vm.Structural, spared.pool] using outside
    rw [holders_congr spared.pte]
    rcases invariant.accounted frame taken outside' with ⟨one, cell, entry, held, found, user⟩ | ⟨zero, none⟩
    · refine .inl ⟨?_, cell, entry, held, by rw [spared.pte, found], user⟩
      rw [spared.counts frame (maps_iff_holders.mpr (by rw [held]; exact Finset.singleton_nonempty cell)), one]
    · refine .inr ⟨?_, none⟩
      have fewer := spared.fewer frame
      rw [zero] at fewer
      exact UInt8.le_antisymm fewer (UInt8.zero_le)

end Kill

section

variable (given : PageGiven before after pd page frame) (heap : HeapPage page)
include given heap

lemma PageGiven.pte (cell : Nat × Nat) : after.pte pd cell =
      if cell = after.cellOf pd page then some (userEntry frame) else before.pte pd cell :=
  given.toPageMapped.pte (getTableSlot_lt heap.low) (getPageTableIndex_lt page) cell

lemma PageGiven.pte_before (space : UserSpace before pd)
    (unmapped : before.shown pd (getTableSlot page) (getPageTableIndex page) = none) :
    before.pte pd (after.cellOf pd page) = none := by
  by_cases absent : (before.pool pd).tables (getTableSlot page) = 0
  · cases found : before.pte pd (after.cellOf pd page) with
    | none => rfl
    | some entry =>
      -- A table that is made is none of those there were.
      obtain ⟨_, s, below, named, shows⟩ := pte_eq_some.mp found
      have free := given.created absent
      have used := space.layout.tableUsed s below (shown_eq_some.mp shows).1
      rw [show (before.pool pd).tables s = (after.pool pd).tables (getTableSlot page) from named, free] at used
      simp at used
  · have same : after.cellOf pd page = before.cellOf pd page := by
      rw [Vm.cellOf, Vm.cellOf, given.kept _ absent]
    rw [same, pte_cellOf heap.low, unmapped]

lemma PageGiven.single (space : UserSpace before pd) :
    after.pmem.frameRefcount frame = 1 ∧ after.holders pd frame = {after.cellOf pd page} := by
  constructor
  · rw [← cell_count, given.cell]
    show before.pmem.frameRefcount frame + 1 = 1
    rw [space.layout.clean.count_zero given.clear]
    rfl
  · -- Nobody held the frame, since it was free.
    have nobody : before.holders pd frame = ∅ := by
      rw [← Finset.not_nonempty_iff_eq_empty, ← maps_iff_holders]
      intro held
      have used := (space.held frame held).2
      rw [given.clear] at used
      simp at used
    have maps : (some (userEntry frame)).map entryFrame = some frame := by
      rw [map_some, entryFrame_userEntry given.tracked]
    rw [holders_insert (given.pte heap) maps, nobody]
    rfl

end

lemma HeapInvariant.given (invariant : HeapInvariant start before pd) (given : PageGiven before after pd page frame)
    (heap : HeapPage page) (unmapped : before.shown pd (getTableSlot page) (getPageTableIndex page) = none) :
    HeapInvariant start after pd := by
  have space := invariant.space
  have changed := given.pte heap
  have blank := given.pte_before heap space unmapped
  obtain ⟨one, single⟩ := given.single heap space
  have others : ∀ f ≠ frame, after.holders pd f = before.holders pd f := fun f other =>
    holders_other changed (by rw [blank]; exact fun held => absurd held (by simp)) (by
      rw [map_some, entryFrame_userEntry given.tracked]
      exact fun same => other (some.inj same).symm)
  refine ⟨⟨given.space, ?_, ?_, ?_⟩, ?_⟩
  · rw [← cell_used, given.cells 0 invariant.reserved, cell_used, invariant.reserved]
  · intro f held own
    by_cases same : f = frame
    · exact given.apart (same ▸ own)
    rw [maps_iff_holders, others f same, ← maps_iff_holders] at held
    rcases given.fresh f own with old | free
    · exact invariant.apart f held old
    · rw [(space.held f held).2] at free
      simp at free
  · intro f
    by_cases same : f = frame
    · rw [same, single, one]
      exact Nat.le_refl _
    · rw [others f same]
      rcases (before.holders pd f).eq_empty_or_nonempty with none | some
      · rw [none]
        exact Nat.zero_le _
      · rw [← cell_count, given.cells f (space.held f (maps_iff_holders.mpr some)).2]
        exact invariant.counted f
  · intro f taken outside
    by_cases same : f = frame
    · subst same
      refine .inl ⟨one, _, userEntry f, single, ?_, isUser_userEntry f⟩
      rw [changed, if_pos rfl]
    · have cell := given.others f same outside
      rw [show after.pmem.taken f = before.pmem.taken f from congrArg FrameCell.taken cell] at taken
      rw [others f same, ← cell_count, cell]
      apply (invariant.accounted f taken fun own => outside (given.structural own)).imp_left
      rintro ⟨count, c, entry, held, found, user⟩
      refine ⟨count, c, entry, held, ?_, user⟩
      rw [changed, if_neg, found]
      rintro rfl
      rw [blank] at found
      simp at found

/-- What `paging_unmap` and `pmem_free` do to a page that is mapped. -/
structure PageFreed (before after : Vm) (pd page : Nat) (entry : Word) : Prop where
  shown : before.shown pd (getTableSlot page) (getPageTableIndex page) = some entry
  nonzero : entryFrame entry ≠ 0
  unmapped : PageUnmapped before { after with pmem := before.pmem } pd (getTableSlot page)
    (getPageTableIndex page)
  cells : ∀ f, after.pmem.cell f =
    if f = entryFrame entry then (before.pmem.cell f).deref else before.pmem.cell f

lemma entryFrame_eq_zero (zero : entryFrame entry = 0) : entry &&& frameMask = 0#64 := by
  have low : (entry &&& frameMask) &&& 0xFFF#64 = 0#64 := by
    rw [BitVec.and_assoc, show frameMask &&& 0xFFF#64 = 0#64 by decide, BitVec.and_zero]
  have whole : (entry &&& frameMask).toNat % 2 ^ 12 = 0 := by
    have masked := congrArg BitVec.toNat low
    rw [BitVec.toNat_and (entry &&& frameMask), show (0xFFF#64).toNat = 2 ^ 12 - 1 by decide,
      Nat.and_two_pow_sub_one_eq_mod] at masked
    exact masked
  apply BitVec.eq_of_toNat_eq
  simp only [entryFrame, frameSize] at zero
  rw [show (0#64).toNat = 0 by decide]
  omega

/-- Unmapping and freeing a page does nothing, or takes its entry and one reference away. -/
theorem UserSpace.unmapFree_cases (space : UserSpace vm pd) (heap : HeapPage page) :
    (unmapFree vm pd page = vm ∧ ∀ entry,
      vm.shown pd (getTableSlot page) (getPageTableIndex page) = some entry → entryFrame entry = 0) ∨
    ∃ entry, PageFreed vm (unmapFree vm pd page) pd page entry := by
  have start : page % 4096 = 0 := heap.aligned
  have phys := pagingGetPhysical_shown vm pd page
  rw [start] at phys
  cases shows : vm.shown pd (getTableSlot page) (getPageTableIndex page) with
  | none =>
    rw [shows] at phys
    refine .inl ⟨by simp [unmapFree, phys], fun _ found => absurd found (by simp)⟩
  | some entry =>
    rw [shows] at phys
    simp only [BitVec.or_zero] at phys
    by_cases zero : entryFrame entry = 0
    · refine .inl ⟨by simp [unmapFree, phys, entryFrame_eq_zero zero], ?_⟩
      rintro _ ⟨⟩
      exact zero
    · have held := space.held _ ⟨_, getTableSlot_lt heap.low, _, getPageTableIndex_lt page, entry, shows, rfl⟩
      have mapped : entry &&& frameMask ≠ 0 := by
        intro none
        apply zero
        rw [entryFrame, none]
        rfl
      have unmapped := space.unmap heap.low (shown_eq_some.mp shows).1
      have freed : unmapFree vm pd page = { pagingUnmap vm pd page with
          pmem := vm.pmem.derefFrames [entryFrame entry] } := by
        simp only [unmapFree, phys, if_neg mapped, unmapped.pmem, pmemFree, BitVec.and_assoc]
        rw [frameRange_eq (Nat.succ_le_of_lt held.1)]
        rfl
      refine .inr ⟨entry, shows, zero, ?_, fun f => ?_⟩
      · rw [freed]
        have same : { pagingUnmap vm pd page with pmem := vm.pmem } = pagingUnmap vm pd page := by
          rw [← unmapped.pmem]
        exact same ▸ unmapped
      · rw [freed]
        show (vm.pmem.derefFrame (entryFrame entry)).cell f = _
        rw [cell_derefFrame]
        by_cases same : f = entryFrame entry
        · simp [held.1]
        · simp [same]

section Freed

variable (freed : PageFreed before after pd page entry)

include freed

variable (heap : HeapPage page)
include heap

lemma PageFreed.pte (cell : Nat × Nat) :
    after.pte pd cell = if cell = before.cellOf pd page then none else before.pte pd cell :=
  freed.unmapped.pte (getTableSlot_lt heap.low) cell

lemma PageFreed.tables {other : Nat} (heap' : HeapPage other) :
    (after.pool pd).tables (getTableSlot other) = (before.pool pd).tables (getTableSlot other) := by
  refine (freed.unmapped.tables (getTableSlot other)).resolve_right fun lost => ?_
  have slot := heap.slot
  have slot' := heap'.slot
  omega

lemma PageFreed.structural {f : Nat} : after.Structural pd f ↔ before.Structural pd f := by
  constructor
  · rintro (⟨j, inFour, rfl⟩ | ⟨s, below, present, rfl⟩)
    · exact .inl ⟨j, inFour, by rw [freed.unmapped.pageDirectory]⟩
    · rcases freed.unmapped.tables s with same | lost
      · exact .inr ⟨s, below, by rwa [← same], by rw [← same]⟩
      · exact absurd lost.1 present
  · rintro (⟨j, inFour, rfl⟩ | ⟨s, below, present, rfl⟩)
    · exact .inl ⟨j, inFour, by rw [← freed.unmapped.pageDirectory]⟩
    · rcases freed.unmapped.tables s with same | ⟨_, _, _, shared⟩
      · exact .inr ⟨s, below, by rwa [← same] at present, by rw [← same]⟩
      · -- The table keeps its own slot when it loses its second name.
        have same := freed.tables heap heap
        exact .inr ⟨getTableSlot page, getTableSlot_lt heap.low, by rwa [same, ← shared], by rw [same, ← shared]⟩

lemma PageFreed.holders (f : Nat) : after.holders pd f =
      if f = entryFrame entry then (before.holders pd f).erase (before.cellOf pd page) else before.holders pd f := by
  have changed := freed.pte heap
  have own : before.pte pd (before.cellOf pd page) = some entry := by
    rw [pte_cellOf heap.low, freed.shown]
  by_cases same : f = entryFrame entry
  · rw [if_pos same, holders_erase changed (by simp)]
  · rw [if_neg same, holders_other changed _ (by simp)]
    rw [own]
    exact fun held => same (some.inj held).symm

end Freed

lemma HeapInvariant.freed (invariant : HeapInvariant start before pd)
    (freed : PageFreed before after pd page entry) (heap : HeapPage page) : HeapInvariant start after pd := by
  have clean := invariant.space.layout.clean
  have holders := freed.holders heap
  have own : before.cellOf pd page ∈ before.holders pd (entryFrame entry) := by
    rw [mem_holders, pte_cellOf heap.low, freed.shown, map_some]
  have counted : ∀ f, (after.holders pd f).card ≤ (after.pmem.frameRefcount f).toNat := by
    intro f
    have before' := invariant.counted f
    rw [holders f, ← cell_count, freed.cells f]
    by_cases same : f = entryFrame entry
    · rw [if_pos same, if_pos same, Finset.card_erase_of_mem (same ▸ own), FrameCell.count_deref, cell_count]
      exact Nat.sub_le_sub_right before' 1
    · rw [if_neg same, if_neg same]
      exact before'
  have clean' : after.pmem.Clean := fun f => by
    rw [freed.cells]
    split
    · exact (clean f).deref
    · exact clean f
  have used : ∀ f ≠ entryFrame entry, after.pmem.frameBitmap f = before.pmem.frameBitmap f := by
    intro f other
    rw [← cell_used, freed.cells, if_neg other, cell_used]
  have maps : ∀ f, after.Maps pd f → before.Maps pd f := by
    intro f held
    rw [maps_iff_holders, holders f] at held
    rw [maps_iff_holders]
    split at held
    · exact held.mono (Finset.erase_subset _ _)
    · exact held
  have space : UserSpace after pd := by
    refine freed.unmapped.space.keep ⟨rfl, fun _ _ => rfl⟩ clean' fun f held => ?_
    by_cases same : f = entryFrame entry
    · -- The freed frame is in use as long as another entry holds it.
      have mapped : after.Maps pd f := by
        rcases held with structural | maps
        · have apart := invariant.apart f (by rw [maps_iff_holders, same]; exact ⟨_, own⟩)
          exact absurd ((freed.structural heap).mp structural) apart
        · exact maps
      have some := Finset.card_pos.mpr (maps_iff_holders.mp mapped)
      have least := counted f
      by_contra free
      rw [Bool.not_eq_true] at free
      rw [clean'.count_zero free] at least
      exact absurd (Nat.le_trans some least) (by decide)
    · rw [used f same]
      rcases held with structural | maps'
      · exact (invariant.space.structural_used ((freed.structural heap).mp structural)).2
      · exact (invariant.space.held f (maps f maps')).2
  refine ⟨⟨space, ?_, ?_, counted⟩, ?_⟩
  · rw [used 0 (fun zero => freed.nonzero zero.symm), invariant.reserved]
  · intro f held structural
    exact invariant.apart f (maps f held) ((freed.structural heap).mp structural)
  · intro f taken outside
    rw [freed.structural heap] at outside
    have taken' : start.pmem.taken f < before.pmem.taken f := by
      rw [← cell_taken after.pmem, freed.cells f] at taken
      split at taken
      · rwa [FrameCell.taken_deref, cell_taken] at taken
      · exact taken
    have accounted := invariant.accounted f taken' outside
    rw [holders f, ← cell_count, freed.cells f]
    by_cases same : f = entryFrame entry
    · rw [if_pos same, if_pos same]
      rcases accounted with ⟨one, cell, _, held, _⟩ | ⟨_, none⟩
      · rw [← same, held, Finset.mem_singleton] at own
        refine .inr ⟨?_, by rw [held, own, Finset.erase_singleton]⟩
        rw [← UInt8.toNat_inj, FrameCell.count_deref, cell_count, one]
        rfl
      · rw [← same, none] at own
        exact absurd own (Finset.notMem_empty _)
    · rw [if_neg same, if_neg same]
      apply accounted.imp_left
      rintro ⟨one, cell, kept, held, found, user⟩
      refine ⟨one, cell, kept, held, ?_, user⟩
      rw [freed.pte heap, if_neg, found]
      rintro rfl
      have other : before.cellOf pd page ∈ before.holders pd f := by
        rw [held]
        exact Finset.mem_singleton_self _
      rw [mem_holders] at other own
      exact same (some.inj (other.symm.trans own))

end Galio

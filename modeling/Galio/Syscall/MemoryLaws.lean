import Galio.Syscall.Memory

/-! The loop that gives a process fresh pages: what one page does, and what a whole run keeps. -/

namespace Galio

open Function List

open Pmem

/-- What the out-of-memory killer leaves of a process that it spares. -/
structure Spared (before after : Vm) (pd : Nat) : Prop extends Untouched before after pd where
  clean : after.pmem.Clean
  taken : ∀ frame, after.pmem.taken frame = before.pmem.taken frame
  used : ∀ frame, before.Structural pd frame ∨ before.Maps pd frame →
    after.pmem.frameBitmap frame = true

/-- An out-of-memory killer that picks other processes, whose memory is theirs. -/
def Sparing (oomKill : Vm → Vm) (pd : Nat) : Prop :=
  ∀ vm, UserSpace vm pd → Spared vm (oomKill vm) pd

variable {after before vm : Vm} {f first frame index limit other page pd : Nat}

lemma UserSpace.spared_self (space : UserSpace vm pd) : Spared vm vm pd where
  pool := rfl
  mem := fun _ _ => rfl
  clean := space.layout.clean
  taken := fun _ => rfl
  used := fun frame held => held.elim (fun own => (space.structural_used own).2)
    fun maps => (space.held frame maps).2

lemma Sparing.reclaim {oomKill : Vm → Vm} (sparing : Sparing oomKill pd) (space : UserSpace vm pd) : Spared vm
    (reclaim oomKill vm) pd := by
  unfold Galio.reclaim
  split
  · exact sparing vm space
  · exact space.spared_self

lemma UserSpace.spared (space : UserSpace before pd) (spared : Spared before after pd) : UserSpace after pd :=
  space.keep spared.toUntouched spared.clean spared.used

lemma takeFrame_cases (vm : Vm) : takeFrame vm = (vm, 0) ∨
    ∃ frame cursor, frame < maxFrames ∧ vm.pmem.frameBitmap frame = false ∧ takeFrame vm = ({ vm with
        pmem := { vm.pmem.refFrames [frame] with allocationCursor := cursor } }, frame * frameSize) := by
  unfold takeFrame
  rcases pmemTake_one vm.pmem with failed | ⟨frame, cursor, tracked, clear, taken⟩
  · exact .inl (by rw [failed])
  · exact .inr ⟨frame, cursor, tracked, clear, by rw [taken]⟩

/-- What handing out a free frame does to memory. -/
structure Granted (before after : Vm) (frame : Nat) : Prop where
  tracked : frame < maxFrames
  clear : before.pmem.frameBitmap frame = false
  pool : after.pool = before.pool
  mem : after.mem = before.mem
  cells : ∀ f, after.pmem.cell f = if f = frame then (before.pmem.cell f).ref else before.pmem.cell f

lemma Granted.of_cursor (tracked : frame < maxFrames)
    (clear : vm.pmem.frameBitmap frame = false) (cursor : Nat) : Granted vm { vm with
      pmem := { vm.pmem.refFrames [frame] with allocationCursor := cursor } } frame := by
  refine ⟨tracked, clear, rfl, rfl, fun f => ?_⟩
  show (vm.pmem.refFrame frame).cell f = _
  rw [cell_refFrame]
  by_cases same : f = frame
  · simp [tracked]
  · simp [same]

lemma takeFrame_granted (found : (takeFrame vm).2 ≠ 0) :
    ∃ frame, (takeFrame vm).2 = frame * frameSize ∧ Granted vm (takeFrame vm).1 frame := by
  rcases takeFrame_cases vm with failed | ⟨frame, cursor, tracked, clear, taken⟩
  · rw [failed] at found
    exact absurd rfl found
  · rw [taken]
    exact ⟨frame, rfl, Granted.of_cursor tracked clear cursor⟩

section Granted

variable (granted : Granted before after frame)

include granted

lemma Granted.untouched (pd : Nat) : Untouched before after pd :=
  ⟨by rw [granted.pool], fun _ _ => by rw [granted.mem]⟩

lemma Granted.ne_of_used (used : before.pmem.frameBitmap f) : f ≠ frame := by
  rintro rfl
  rw [granted.clear] at used
  simp at used

lemma Granted.cell_used (used : before.pmem.frameBitmap f) : after.pmem.cell f = before.pmem.cell f := by
  rw [granted.cells, if_neg (granted.ne_of_used used)]

lemma Granted.clear_before (clear : after.pmem.frameBitmap f = false) : before.pmem.frameBitmap f = false := by
  by_contra used
  rw [Bool.not_eq_false] at used
  rw [← Galio.cell_used, granted.cell_used used, Galio.cell_used, used] at clear
  simp at clear

lemma Granted.taken_le (f : Nat) : before.pmem.taken f ≤ after.pmem.taken f := by
  rw [← cell_taken, ← cell_taken, granted.cells]
  split
  · exact Nat.le_succ _
  · exact Nat.le_refl _

lemma Granted.space (space : UserSpace before pd) : UserSpace after pd := by
  refine space.keep (granted.untouched pd) (fun f => ?_) fun f held => ?_
  · rw [granted.cells]
    split
    · exact (space.layout.clean f).ref
    · exact space.layout.clean f
  · have used : before.pmem.frameBitmap f :=
      held.elim (fun own => (space.structural_used own).2) fun maps => (space.held f maps).2
    rw [← Galio.cell_used, granted.cell_used used, Galio.cell_used, used]

lemma Granted.used (clean : before.pmem.Clean) : after.pmem.frameBitmap frame := by
  rw [← Galio.cell_used, granted.cells, if_pos rfl]
  exact (clean frame).ref_used

end Granted

lemma untouched_fillFrame (outside : ¬vm.Structural pd frame)
    (content : Nat → Word) : Untouched vm (vm.fillFrame frame content) pd := by
  refine ⟨rfl, fun f own => ?_⟩
  show update vm.mem frame content f = vm.mem f
  rw [update_of_ne]
  rintro rfl
  exact outside own

lemma UserSpace.fillFrame (space : UserSpace vm pd)
    (outside : ¬vm.Structural pd frame) (content : Nat → Word) : UserSpace (vm.fillFrame frame content) pd :=
  space.keep (untouched_fillFrame outside content) space.layout.clean fun f held =>
    held.elim (fun own => (space.structural_used own).2) fun maps => (space.held f maps).2

lemma mem_pagesUpTo :
    page ∈ pagesUpTo first limit ↔ first ≤ page ∧ page < limit ∧ (page - first) % pageSize = 0 := by
  simp only [pagesUpTo, mem_map, mem_range, pageSize]
  constructor
  · rintro ⟨k, below, rfl⟩
    omega
  · rintro ⟨above, below, whole⟩
    exact ⟨(page - first) / 4096, by omega, by omega⟩

lemma pagesUpTo_nodup (first limit : Nat) : (pagesUpTo first limit).Nodup := by
  refine List.Nodup.map (fun j k same => ?_) nodup_range
  simp only [pageSize] at same
  omega

lemma pagesUpTo_append {higher : Nat} (order : limit ≤ higher) :
    ∃ more, pagesUpTo first higher = pagesUpTo first limit ++ more := by
  have counts : (limit - first + pageSize - 1) / pageSize ≤ (higher - first + pageSize - 1) / pageSize :=
    Nat.div_le_div_right (by omega)
  obtain ⟨rest, sum⟩ := Nat.exists_eq_add_of_le counts
  unfold pagesUpTo
  rw [sum, range_add, map_append]
  exact ⟨_, rfl⟩

/-- A page of the 4 GiB a directory covers, above the memory there is. -/
structure HighPage (page : Nat) : Prop where
  low : page < 2 ^ 32
  untracked : maxFrames ≤ page / frameSize

/-- A page of the heap range. -/
structure HeapPage (page : Nat) : Prop where
  above : userHeapStart ≤ page
  below : page < userHeapEnd
  aligned : page % pageSize = 0

lemma HeapPage.low (heap : HeapPage page) : page < 2 ^ 32 := by
  have below := heap.below
  simp only [userHeapEnd] at below
  omega

lemma heapPage_of_mem (above : userHeapStart ≤ first) (aligned : first % pageSize = 0)
    (below : limit ≤ userHeapEnd) (member : page ∈ pagesUpTo first limit) : HeapPage page := by
  obtain ⟨least, less, whole⟩ := mem_pagesUpTo.mp member
  refine ⟨above.trans least, less.trans_le below, ?_⟩
  simp only [pageSize] at aligned whole ⊢
  omega

lemma HeapPage.high (heap : HeapPage page) : HighPage page := by
  refine ⟨heap.low, ?_⟩
  have above := heap.above
  simp only [userHeapStart, maxFrames, frameSize] at above ⊢
  omega

lemma HeapPage.slot (heap : HeapPage page) : 512 ≤ getTableSlot page ∧ getTableSlot page < 640 := by
  have above := heap.above
  have below := heap.below
  rw [getTableSlot_eq heap.low]
  simp only [userHeapStart, userHeapEnd] at above below
  omega

lemma HeapPage.ext (heap : HeapPage page) (heap' : HeapPage other) (slots : getTableSlot page = getTableSlot other)
    (indices : getPageTableIndex page = getPageTableIndex other) : page = other := by
  have aligned := heap.aligned
  have aligned' := heap'.aligned
  rw [getTableSlot_eq heap.low, getTableSlot_eq heap'.low] at slots
  simp only [getPageTableIndex] at indices
  simp only [pageSize] at aligned aligned'
  omega

lemma UserSpace.heap_slots (space : UserSpace vm pd) (heap : HeapPage page)
    (heap' : HeapPage other) (present : (vm.pool pd).tables (getTableSlot page) ≠ 0)
    (same : (vm.pool pd).tables (getTableSlot page) = (vm.pool pd).tables (getTableSlot other)) :
    getTableSlot page = getTableSlot other := by
  have slot := heap.slot
  have slot' := heap'.slot
  rcases Nat.lt_trichotomy (getTableSlot page) (getTableSlot other) with less | equal | more
  · have half := space.named _ _ less (getTableSlot_lt heap'.low) (by rwa [← same]) same
    omega
  · exact equal
  · have half := space.named _ _ more (getTableSlot_lt heap.low) present same.symm
    omega

/-- What the loop body does where the page's table is found or made. -/
structure PageGiven (before after : Vm) (pd page frame : Nat) : Prop
    extends PageMapped before after pd (getTableSlot page) (getPageTableIndex page) frame where
  tracked : frame < maxFrames
  clear : before.pmem.frameBitmap frame = false
  cell : after.pmem.cell frame = (before.pmem.cell frame).ref
  apart : ¬after.Structural pd frame
  cleared : walkEntry after pd page = some (userEntry frame) → after.mem frame = fun _ => 0

lemma PageGiven.shown_kept (given : PageGiven before after pd page frame) (space : UserSpace before pd)
    (unmapped : before.shown pd (getTableSlot page) (getPageTableIndex page) = none) {s i : Nat}
    (below : s < pageTableSlots) (small : i < 512) {entry : Word}
    (shows : before.shown pd s i = some entry) : after.shown pd s i = some entry := by
  rw [given.shown s below i small, if_neg, shows]
  rintro ⟨tables, rfl⟩
  have named := (shown_eq_some.mp shows).1
  rw [given.kept s named] at tables
  by_cases absent : (before.pool pd).tables (getTableSlot page) = 0
  · -- A table that is made is none of those there were.
    have free := given.created absent
    rw [← tables, space.layout.tableUsed s below named] at free
    simp at free
  · -- A slot that names the page's table shows what the page does.
    rw [given.kept _ absent] at tables
    have same := shown_congr tables (getPageTableIndex page)
    rw [unmapped, shows] at same
    simp at same

/-- The loop body where the table is neither found nor made. -/
structure PageLost (before after : Vm) (pd : Nat) : Prop extends Untouched before after pd where
  space : UserSpace after pd
  taken : ∀ f, before.pmem.taken f ≤ after.pmem.taken f

/-- The table of a page is there, or a frame for it is once the page has its own. -/
def TableServed (vm : Vm) (pd page : Nat) : Prop :=
  (vm.pool pd).tables (getTableSlot page) ≠ 0 ∨ (allocPageTable (takeFrame vm).1).2 ≠ 0

lemma UserSpace.kernelFrame_cases (space : UserSpace vm pd) (low : page < 2 ^ 32) :
    kernelFrame vm (some pd) page = page / frameSize ∧ walkEntry vm pd page = none ∨
      ∃ entry, vm.shown pd (getTableSlot page) (getPageTableIndex page) = some entry ∧
        kernelFrame vm (some pd) page = entryFrame entry := by
  unfold kernelFrame
  cases walked : walkEntry vm pd page with
  | none => exact .inl ⟨by simp [walked], rfl⟩
  | some entry =>
    obtain ⟨⟨present, user, _⟩, read, shows, _⟩ := walkEntry_iff.mp walked
    have link := space.linked _ (getTableSlot_lt low) present user
    refine .inr ⟨entry, shown_eq_some.mpr ⟨link.1, shows, ?_⟩, by simp [walked]⟩
    rw [Vm.leaf, ← link.2, read]

/-- A page mapped once its frame is handed out was mapped from the state before. -/
theorem Granted.mapped {slot : Nat} {mid : Vm} (granted : Granted before mid frame) (used : mid.pmem.frameBitmap frame)
    (mapped : PageMapped mid after pd slot index frame) : PageMapped before after pd slot index frame := by
  obtain ⟨_, mem, pool, _, _⟩ := mid
  obtain rfl : pool = before.pool := granted.pool
  obtain rfl : mem = before.mem := granted.mem
  exact { mapped with
    created := fun absent => granted.clear_before (mapped.created absent)
    counted := fun absent => by
      have free := mapped.created absent
      rw [mapped.counted absent, granted.cells, if_neg]
      intro same
      rw [same, used] at free
      simp at free
    fresh := fun f own => (mapped.fresh f own).imp_right granted.clear_before
    cells := fun f inUse => by
      rw [mapped.cells f, granted.cell_used inUse]
      rw [← Galio.cell_used, granted.cell_used inUse, Galio.cell_used, inUse]
    others := fun f other notOwn => by rw [mapped.others f other notOwn, granted.cells, if_neg other]
    taken := fun f => (granted.taken_le f).trans (mapped.taken f) }

lemma PageMapped.fillFrame {slot : Nat} (mapped : PageMapped before after pd slot index frame)
    (inSlot : slot < pageTableSlots) (outside : ¬after.Structural pd f) (only : f < maxFrames → f = frame)
    (content : Nat → Word) : PageMapped before (after.fillFrame f content) pd slot index frame := by
  have same := untouched_fillFrame outside content
  exact { mapped with
    space := mapped.space.fillFrame outside content
    shown := fun s below i small => (same.shown below small).trans (mapped.shown s below i small)
    links := fun s below other => (same.link below).trans (mapped.links s below other)
    linked := fun absent => by
      rw [same.link inSlot]
      exact mapped.linked absent
    mem := fun g tracked other levels notTable => by
      show update after.mem f content g = _
      rw [update_of_ne, mapped.mem g tracked other levels notTable]
      rintro rfl
      exact other (only tracked) }

section MapTaken

variable (space : UserSpace vm pd) (high : HighPage page)

include space high

lemma UserSpace.mapTaken_given (served : TableServed vm pd page)
    (found : (takeFrame vm).2 ≠ 0) : ∃ frame, PageGiven vm (mapTaken vm (some pd) page).1 pd page frame := by
  obtain ⟨frame, address, granted⟩ := takeFrame_granted found
  have used := granted.used space.layout.clean
  have taken := (granted.space space).map high.low granted.tracked used served
  have state : (mapTaken vm (some pd) page).1 = zeroPage
      (pagingMap (takeFrame vm).1 pd page (BitVec.ofNat 64 (frame * frameSize))
        (pagePresent ||| pageRw ||| pageUser)) (some pd) page := by
    simp only [mapTaken, if_neg found, mapUserPage]
    rw [address]
  rw [state]
  generalize pagingMap (takeFrame vm).1 pd page (BitVec.ofNat 64 (frame * frameSize))
    (pagePresent ||| pageRw ||| pageUser) = after at taken ⊢
  have mapped := granted.mapped used taken
  -- The frame that is cleared is the fresh one, or lies past the memory there is.
  have cleared : kernelFrame after (some pd) page = page / frameSize ∧ walkEntry after pd page = none ∨
      kernelFrame after (some pd) page = frame := by
    rcases mapped.space.kernelFrame_cases high.low with identity | ⟨entry, shows, reached⟩
    · exact .inl identity
    · rw [mapped.shown_page high.low] at shows
      cases shows
      exact .inr (by rw [reached, entryFrame_userEntry granted.tracked])
  have apart : ¬after.Structural pd frame := by
    intro own
    rcases taken.fresh frame own with old | free
    · rw [Vm.Structural, granted.pool] at old
      exact granted.ne_of_used (space.structural_used old).2 rfl
    · rw [used] at free
      simp at free
  have only : kernelFrame after (some pd) page < maxFrames → kernelFrame after (some pd) page = frame := fun tracked =>
    cleared.resolve_left fun identity => Nat.not_lt.mpr high.untracked (identity.1 ▸ tracked)
  have outside : ¬after.Structural pd (kernelFrame after (some pd) page) := fun own =>
    apart (only (mapped.space.structural_used own).1 ▸ own)
  refine ⟨frame, mapped.fillFrame (getTableSlot_lt high.low) outside only _, granted.tracked, granted.clear, ?_, apart,
    fun reached => ?_⟩
  · show after.pmem.cell frame = _
    rw [taken.cells frame used, granted.cells, if_pos rfl]
  · rcases cleared with ⟨_, unreached⟩ | fresh
    · rw [zeroPage, (untouched_fillFrame outside _).walkEntry mapped.space high.low, unreached] at reached
      simp at reached
    · show update after.mem _ _ frame = _
      rw [fresh, update_self]

/-- A page without a table is lost, and so is the frame taken for it. -/
theorem UserSpace.mapTaken_lost (unserved : ¬TableServed vm pd page)
    (found : (takeFrame vm).2 ≠ 0) : PageLost vm (mapTaken vm (some pd) page).1 pd := by
  obtain ⟨frame, _, granted⟩ := takeFrame_granted found
  have space' := granted.space space
  obtain ⟨absent, failed⟩ : (vm.pool pd).tables (getTableSlot page) = 0 ∧
      (allocPageTable (takeFrame vm).1).2 = 0 := by
    simpa [TableServed] using unserved
  have absent' : ((takeFrame vm).1.pool pd).tables (getTableSlot page) = 0 := by rwa [granted.pool]
  have state : (mapTaken vm (some pd) page).1 = zeroPage (takeFrame vm).1 (some pd) page := by
    simp only [mapTaken, if_neg found, mapUserPage, pagingMap_unserved _ _ absent' failed]
  -- Nothing is shown at the page, so its identity map is cleared.
  have identity : kernelFrame (takeFrame vm).1 (some pd) page = page / frameSize := by
    rcases space'.kernelFrame_cases high.low with identity | ⟨entry, shows, _⟩
    · exact identity.1
    · exact absurd absent' (shown_eq_some.mp shows).1
  have outside : ¬(takeFrame vm).1.Structural pd (kernelFrame (takeFrame vm).1 (some pd) page) := by
    intro own
    have tracked := (space'.structural_used own).1
    rw [identity] at tracked
    exact absurd tracked (Nat.not_lt.mpr high.untracked)
  have same := untouched_fillFrame outside fun _ => 0
  rw [state, zeroPage]
  exact
    { pool := by rw [same.pool, granted.pool]
      mem := fun f own => by
        rw [same.mem f (by simpa only [Vm.Structural, granted.pool] using own), granted.mem]
      space := space'.fillFrame outside _
      taken := granted.taken_le }

omit high in
lemma UserSpace.takeFrame_lost : PageLost vm (takeFrame vm).1 pd := by
  rcases takeFrame_cases vm with failed | ⟨frame, cursor, tracked, clear, taken⟩
  · rw [failed]
    exact ⟨⟨rfl, fun _ _ => rfl⟩, space, fun _ => Nat.le_refl _⟩
  · have granted := Granted.of_cursor tracked clear cursor
    rw [taken]
    exact ⟨granted.untouched pd, granted.space space, granted.taken_le⟩

end MapTaken

end Galio

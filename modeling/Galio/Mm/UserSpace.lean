import Galio.Mm.CopyOnWriteLaws
import Galio.Mm.PagingMap

/-! One process's directory while it maps pages of its own: what each primitive shows and keeps. -/

namespace Galio

open Pmem

/-- The present entry a directory shows at a slot and index. -/
def Vm.shown (vm : Vm) (pd slot index : Nat) : Option Word :=
  if (vm.pool pd).tables slot ≠ 0 ∧ isPresent (vm.leaf pd slot index) = true then
    some (vm.leaf pd slot index)
  else none

/-- The frames of a process's directory: page directories and tables. -/
def Vm.Structural (vm : Vm) (pd frame : Nat) : Prop :=
  (∃ j, j < 4 ∧ frame = (vm.pool pd).pageDirectory / frameSize + j) ∨
    ∃ s, s < pageTableSlots ∧ (vm.pool pd).tables s ≠ 0 ∧ frame = (vm.pool pd).tables s / frameSize

/-- The frames a process maps. -/
def Vm.Maps (vm : Vm) (pd frame : Nat) : Prop :=
  ∃ s, s < pageTableSlots ∧ ∃ i, i < 512 ∧ ∃ entry,
    vm.shown pd s i = some entry ∧ frame = entryFrame entry

/-- The directory of a process at work; a table may be named by half its slot as well. -/
structure UserSpace (vm : Vm) (pd : Nat) : Prop where
  layout : TableLayout vm pd
  directoryTracked : ∀ j, j < 4 → (vm.pool pd).pageDirectory / frameSize + j < maxFrames
  tableTracked : ∀ s, s < pageTableSlots → (vm.pool pd).tables s ≠ 0 →
    (vm.pool pd).tables s / frameSize < maxFrames
  -- The processor never reaches a user table other than the one the slot names.
  linked : ∀ s, s < pageTableSlots → isPresent (vm.link pd s) = true → isUser (vm.link pd s) = true →
    (vm.pool pd).tables s ≠ 0 ∧ entryTable (vm.link pd s) = (vm.pool pd).tables s
  held : ∀ frame, vm.Maps pd frame → frame < maxFrames ∧ vm.pmem.frameBitmap frame = true
  named : ∀ s t, s < t → t < pageTableSlots → (vm.pool pd).tables t ≠ 0 →
    (vm.pool pd).tables s = (vm.pool pd).tables t → s = t / 2
  -- A table is linked from the highest slot that names it.
  owner : ∀ s, s < pageTableSlots → isPresent (vm.link pd s) = true → isUser (vm.link pd s) = true →
    ∀ t, s < t → t < pageTableSlots → (vm.pool pd).tables s ≠ (vm.pool pd).tables t

variable {after before mid vm : Vm} {entry : Word} {f frame i index pd s slot vaddr : Nat}

lemma shown_eq_some : vm.shown pd slot index = some entry ↔
      (vm.pool pd).tables slot ≠ 0 ∧ isPresent entry ∧ vm.leaf pd slot index = entry := by
  unfold Vm.shown
  constructor
  · intro shows
    split at shows
    · rename_i both
      cases shows
      exact ⟨both.1, both.2, rfl⟩
    · simp at shows
  · rintro ⟨table, present, rfl⟩
    rw [if_pos ⟨table, present⟩]

lemma shown_congr {other : Nat} (same : (vm.pool pd).tables slot = (vm.pool pd).tables other)
    (index : Nat) : vm.shown pd slot index = vm.shown pd other index := by
  unfold Vm.shown Vm.leaf
  rw [same]

lemma getPageEntry_shown (vm : Vm) (pd vaddr : Nat) : (getPageEntry vm pd vaddr).filter isPresent =
      vm.shown pd (getTableSlot vaddr) (getPageTableIndex vaddr) := by
  unfold getPageEntry Vm.shown Vm.leaf
  by_cases absent : (vm.pool pd).tables (getTableSlot vaddr) = 0
  · simp [absent]
  simp only [absent, ite_false, ne_eq]
  by_cases present :
      isPresent (vm.readWord ((vm.pool pd).tables (getTableSlot vaddr)) (getPageTableIndex vaddr))
  · simp [present]
  · simp [present]

lemma pagingGetPhysical_shown (vm : Vm) (pd vaddr : Nat) : pagingGetPhysical vm pd vaddr =
      match vm.shown pd (getTableSlot vaddr) (getPageTableIndex vaddr) with
      | none => 0
      | some entry => (entry &&& frameMask) ||| BitVec.ofNat 64 (vaddr % 4096) := by
  rw [← getPageEntry_shown, pagingGetPhysical]
  cases getPageEntry vm pd vaddr with
  | none => rfl
  | some entry =>
    cases present : isPresent entry with
    | true => simp [Option.filter, present]
    | false => simp [Option.filter, present]

lemma UserSpace.structural_used (space : UserSpace vm pd)
    (structural : vm.Structural pd frame) : frame < maxFrames ∧ vm.pmem.frameBitmap frame := by
  rcases structural with ⟨j, inFour, rfl⟩ | ⟨s, below, present, rfl⟩
  · exact ⟨space.directoryTracked j inFour, space.layout.directoryUsed j inFour⟩
  · exact ⟨space.tableTracked s below present, space.layout.tableUsed s below present⟩

section Keep

/-- A directory whose own frames are untouched. -/
structure Untouched (before after : Vm) (pd : Nat) : Prop where
  pool : after.pool pd = before.pool pd
  mem : ∀ frame, before.Structural pd frame → after.mem frame = before.mem frame

section

variable (same : Untouched before after pd)
include same

lemma Untouched.link (below : s < pageTableSlots) : after.link pd s = before.link pd s := by
  rw [Vm.link, Vm.link, same.pool, Vm.readWord, Vm.readWord, same.mem _ (.inl ⟨s / 512, slot_div_lt below, rfl⟩)]

lemma Untouched.leaf (below : s < pageTableSlots)
    (inTable : i < 512) (present : (before.pool pd).tables s ≠ 0) : after.leaf pd s i = before.leaf pd s i := by
  rw [Vm.leaf, Vm.leaf, same.pool, readWord_small _ _ inTable, readWord_small _ _ inTable,
    same.mem _ (.inr ⟨s, below, present, rfl⟩)]

lemma Untouched.shown (below : s < pageTableSlots)
    (inTable : i < 512) : after.shown pd s i = before.shown pd s i := by
  unfold Vm.shown
  by_cases present : (before.pool pd).tables s = 0
  · simp [same.pool, present]
  · rw [same.leaf below inTable present, same.pool]

lemma Untouched.maps : after.Maps pd frame ↔ before.Maps pd frame := by
  constructor
  · rintro ⟨s, below, i, inTable, entry, shows, rfl⟩
    exact ⟨s, below, i, inTable, entry, by rwa [same.shown below inTable] at shows, rfl⟩
  · rintro ⟨s, below, i, inTable, entry, shows, rfl⟩
    exact ⟨s, below, i, inTable, entry, by rwa [same.shown below inTable], rfl⟩

lemma Untouched.walkEntry (space : UserSpace before pd)
    (low : vaddr < 2 ^ 32) : walkEntry after pd vaddr = walkEntry before pd vaddr := by
  have inSlot := getTableSlot_lt low
  have inTable := getPageTableIndex_lt vaddr
  refine Option.ext fun entry => ?_
  rw [walkEntry_iff, walkEntry_iff, same.link inSlot]
  refine and_congr_right fun link => ?_
  -- A user link leads to the table its slot names.
  obtain ⟨present, table⟩ := space.linked _ inSlot link.1 link.2.1
  have leaf := same.leaf inSlot inTable present
  rw [Vm.leaf, Vm.leaf, same.pool] at leaf
  rw [table, leaf]

end

lemma UserSpace.keep (space : UserSpace before pd) (same : Untouched before after pd) (clean : after.pmem.Clean)
    (used : ∀ frame, before.Structural pd frame ∨ before.Maps pd frame → after.pmem.frameBitmap frame) :
    UserSpace after pd where
  layout :=
    { clean := clean
      rooted := by rw [same.pool]; exact space.layout.rooted
      directoryUsed := fun j inFour => by
        rw [same.pool]
        exact used _ (.inl (.inl ⟨j, inFour, rfl⟩))
      aligned := by rw [same.pool]; exact space.layout.aligned
      tableUsed := fun s below present => by
        rw [same.pool] at present ⊢
        exact used _ (.inl (.inr ⟨s, below, present, rfl⟩))
      apart := by rw [same.pool]; exact space.layout.apart }
  directoryTracked := by rw [same.pool]; exact space.directoryTracked
  tableTracked := by rw [same.pool]; exact space.tableTracked
  linked := fun s below present user => by
    rw [same.link below] at present user ⊢
    rw [same.pool]
    exact space.linked s below present user
  held := fun frame maps => by
    have old := same.maps.mp maps
    exact ⟨(space.held frame old).1, used frame (.inr old)⟩
  named := by rw [same.pool]; exact space.named
  owner := fun s below present user => by
    rw [same.link below] at present user
    rw [same.pool]
    exact space.owner s below present user

end Keep

/-- The entry a user page is given by `paging_map` with `PAGE_PRESENT | PAGE_RW | PAGE_USER`. -/
def userEntry (frame : Nat) : Word :=
  (BitVec.ofNat 64 (frame * frameSize) &&& frameMask) |||
    ((pagePresent ||| pageRw ||| pageUser) &&& pageFlags)

@[simp] lemma isPresent_userEntry (frame : Nat) : isPresent (userEntry frame) := by
  rw [userEntry, isPresent_build]
  decide

@[simp] lemma isUser_userEntry (frame : Nat) : isUser (userEntry frame) := by
  rw [userEntry, isUser_build]
  decide

@[simp] lemma isWritable_userEntry (frame : Nat) : isWritable (userEntry frame) := by
  rw [userEntry, isWritable_build]
  decide

lemma entryFrame_userEntry (tracked : frame < maxFrames) : entryFrame (userEntry frame) = frame :=
  entryFrame_build (by simp only [maxFrames] at tracked; omega) _

/-- What mapping a user page does to the directory, its table found or made. -/
structure PageMapped (before after : Vm) (pd slot index frame : Nat) : Prop where
  space : UserSpace after pd
  pageDirectory : (after.pool pd).pageDirectory = (before.pool pd).pageDirectory
  present : (after.pool pd).tables slot ≠ 0
  kept : ∀ s, (before.pool pd).tables s ≠ 0 → (after.pool pd).tables s = (before.pool pd).tables s
  named : ∀ s, (after.pool pd).tables s = (before.pool pd).tables s ∨
    (after.pool pd).tables s = (after.pool pd).tables slot
  -- A table that is made is named by its slot and by half of it.
  names : ∀ s, (after.pool pd).tables s ≠ 0 ↔ (before.pool pd).tables s ≠ 0 ∨
    (before.pool pd).tables slot = 0 ∧ (s = slot ∨ s = slot / 2)
  shown : ∀ s, s < pageTableSlots → ∀ i, i < 512 → after.shown pd s i =
    if (after.pool pd).tables s = (after.pool pd).tables slot ∧ i = index then some (userEntry frame)
    else before.shown pd s i
  -- A slot is linked when its table is made, and only then.
  links : ∀ s, s < pageTableSlots → s ≠ slot ∨ (before.pool pd).tables slot ≠ 0 →
    after.link pd s = before.link pd s
  linked : (before.pool pd).tables slot = 0 → isPresent (after.link pd slot) = true ∧
    isUser (after.link pd slot) = true ∧ isLarge (after.link pd slot) = false
  -- A table that is made stands in a frame nobody used.
  created : (before.pool pd).tables slot = 0 →
    before.pmem.frameBitmap ((after.pool pd).tables slot / frameSize) = false
  counted : (before.pool pd).tables slot = 0 → after.pmem.cell ((after.pool pd).tables slot / frameSize) =
    (before.pmem.cell ((after.pool pd).tables slot / frameSize)).ref
  fresh : ∀ f, after.Structural pd f → before.Structural pd f ∨ before.pmem.frameBitmap f = false
  cells : ∀ f, before.pmem.frameBitmap f = true → after.pmem.cell f = before.pmem.cell f
  others : ∀ f, f ≠ frame → ¬after.Structural pd f → after.pmem.cell f = before.pmem.cell f
  taken : ∀ f, before.pmem.taken f ≤ after.pmem.taken f
  -- The page directories and the slot's table are written, and nothing else.
  mem : ∀ f, f < maxFrames → f ≠ frame →
    (∀ j, j < 4 → f ≠ (before.pool pd).pageDirectory / frameSize + j) →
    f ≠ (after.pool pd).tables slot / frameSize → after.mem f = before.mem f
  directory : (after.pool pd).directory = (before.pool pd).directory
  pdpt : (after.pool pd).pdpt = (before.pool pd).pdpt
  pools : ∀ q, q ≠ pd → after.pool q = before.pool q

lemma PageMapped.structural (mapped : PageMapped before after pd slot index frame) (own : before.Structural pd f) :
    after.Structural pd f := by
  rcases own with ⟨j, inFour, rfl⟩ | ⟨s, below, present, rfl⟩
  · exact .inl ⟨j, inFour, by rw [mapped.pageDirectory]⟩
  · have kept := mapped.kept s present
    exact .inr ⟨s, below, by rwa [kept], by rw [kept]⟩

lemma PageMapped.shown_page (mapped : PageMapped before after pd (getTableSlot vaddr) (getPageTableIndex vaddr) frame)
    (low : vaddr < 2 ^ 32) :
    after.shown pd (getTableSlot vaddr) (getPageTableIndex vaddr) = some (userEntry frame) := by
  rw [mapped.shown _ (getTableSlot_lt low) _ (getPageTableIndex_lt vaddr), if_pos ⟨rfl, rfl⟩]

lemma PageMapped.mem_outside (mapped : PageMapped before after pd slot index frame)
    (inSlot : slot < pageTableSlots) (tracked : f < maxFrames) (other : f ≠ frame) (outside : ¬after.Structural pd f) :
    after.mem f = before.mem f := by
  refine mapped.mem f tracked other (fun j inFour same => outside (.inl ⟨j, inFour, ?_⟩))
    fun same => outside (.inr ⟨slot, inSlot, mapped.present, same⟩)
  rw [mapped.pageDirectory, same]

section Shown

variable {value : Word}

lemma TableLayout.shown_write (layout : TableLayout vm pd) (inSlot : slot < pageTableSlots)
    (inTable : index < 512) (present : (vm.pool pd).tables slot ≠ 0) (below : s < pageTableSlots)
    (small : i < 512) : (vm.writeWord ((vm.pool pd).tables slot) index value).shown pd s i =
      if (vm.pool pd).tables s = (vm.pool pd).tables slot ∧ i = index then
        if isPresent value = true then some value else none else vm.shown pd s i := by
  rw [Vm.shown, layout.leaf_write inSlot inTable value below small, writeWord_pool]
  by_cases same : (vm.pool pd).tables s = (vm.pool pd).tables slot ∧ i = index
  · simp only [same, and_self, ite_true, ne_eq, present, not_false_eq_true, true_and]
  · simp only [same]
    rfl

lemma NewTable.shown_eq {link : Word} (layout : TableLayout vm pd)
    (made : NewTable vm mid pd slot frame link) (inSlot : slot < pageTableSlots)
    (absent : (vm.pool pd).tables slot = 0) (below : s < pageTableSlots) (small : i < 512) :
    mid.shown pd s i = vm.shown pd s i := by
  unfold Vm.shown
  by_cases own : (mid.pool pd).tables s = frame * frameSize
  · -- The entries of the new table are empty, and its slots had no table before.
    have empty : (vm.pool pd).tables s = 0 := by
      rcases made.names_new layout below own with rfl | ⟨_, rfl, empty⟩
      · exact absent
      · exact empty
    have named : (mid.pool pd).tables s ≠ 0 := by rw [own]; exact made.free.address_ne_zero
    rw [made.leaf_eq layout inSlot below small named, if_pos own]
    simp [empty]
  · have old := made.tables_old own
    by_cases present : (vm.pool pd).tables s = 0
    · simp [old, present]
    rw [made.leaf_eq layout inSlot below small (old ▸ present), if_neg own, old]

end Shown

lemma pagingMap_unserved (paddr flags : Word)
    (absent : (vm.pool pd).tables (getTableSlot vaddr) = 0) (failed : (allocPageTable vm).2 = 0) :
    pagingMap vm pd vaddr paddr flags = vm := by
  have same := allocPageTable_fail failed
  have table : getPageTable vm pd vaddr (pagePresent ||| pageRw ||| (flags &&& pageUser)) true = (vm, 0) := by
    simp only [getPageTable, absent, ne_eq, not_true_eq_false, ite_false, Bool.not_true, Bool.false_eq_true]
    split
    · rfl
    · simp [same]
  simp [pagingMap, table]

lemma taken_refFrame_le (pmem : Pmem) (frame other : Nat) :
    pmem.taken other ≤ (pmem.refFrame frame).taken other := by
  rw [← cell_taken, ← cell_taken, cell_refFrame]
  split
  · exact Nat.le_succ _
  · exact Nat.le_refl _

section Map

variable (space : UserSpace vm pd) (inSlot : slot < pageTableSlots) (inTable : index < 512)
  (tracked : frame < maxFrames) (used : vm.pmem.frameBitmap frame = true)

lemma maps_of_shown (tracked : frame < maxFrames) (shown : ∀ s < pageTableSlots, ∀ i < 512, after.shown pd s i =
      if (after.pool pd).tables s = (after.pool pd).tables slot ∧ i = index then some (userEntry frame)
      else vm.shown pd s i) (maps : after.Maps pd f) : f = frame ∨ vm.Maps pd f := by
  obtain ⟨s, below, i, small, entry, shows, rfl⟩ := maps
  rw [shown s below i small] at shows
  split at shows
  · cases shows
    exact .inl (entryFrame_userEntry tracked)
  · exact .inr ⟨s, below, i, small, entry, shows, rfl⟩

include space inSlot inTable tracked used

lemma UserSpace.map_found (present : (vm.pool pd).tables slot ≠ 0) :
    PageMapped vm (vm.writeWord ((vm.pool pd).tables slot) index (userEntry frame)) pd slot index frame := by
  have shown : ∀ s < pageTableSlots, ∀ i < 512,
      (vm.writeWord ((vm.pool pd).tables slot) index (userEntry frame)).shown pd s i =
        if (vm.pool pd).tables s = (vm.pool pd).tables slot ∧ i = index then some (userEntry frame)
        else vm.shown pd s i := by
    intro s below i small
    rw [space.layout.shown_write inSlot inTable present below small]
    simp
  refine ⟨?_, rfl, present, fun _ _ => rfl, fun _ => .inl rfl,
    fun _ => ⟨.inl, fun named => named.resolve_right fun absent => present absent.1⟩, shown,
    fun s below _ => space.layout.link_write inSlot inTable _ present below,
    fun absent => absurd absent present, fun absent => absurd absent present,
    fun absent => absurd absent present, fun _ structural => .inl structural, fun _ _ => rfl, fun _ _ _ => rfl,
      fun _ => Nat.le_refl _, ?_,
    rfl, rfl, fun _ _ => rfl⟩
  · exact
      { layout := space.layout.write _ _ _
        directoryTracked := space.directoryTracked
        tableTracked := space.tableTracked
        linked := fun s below => by
          rw [space.layout.link_write inSlot inTable _ present below]
          exact space.linked s below
        held := fun f maps => by
          rcases maps_of_shown tracked shown maps with rfl | old
          · exact ⟨tracked, used⟩
          · exact space.held f old
        named := space.named
        owner := fun s below => by
          rw [space.layout.link_write inSlot inTable _ present below]
          exact space.owner s below }
  · -- The only frame written is the table's own.
    intro f _ _ _ outside
    funext i
    rw [mem_writeWord, Nat.div_eq_of_lt inTable, if_neg]
    rintro ⟨rfl, _⟩
    exact outside rfl

omit tracked used inTable in
lemma UserSpace.newTable {table : Nat} {flags : Word} (absent : (vm.pool pd).tables slot = 0)
    (made : NewTable vm mid pd slot table
      ((BitVec.ofNat 64 (table * frameSize) &&& tableMask) ||| (flags &&& pageFlags))) : UserSpace mid pd := by
  have self := made.tables_self
  refine ⟨made.layout space.layout, ?_, ?_, ?_, ?_, ?_, ?_⟩
  · rw [made.pageDirectory]
    exact space.directoryTracked
  · intro s below present
    by_cases own : (mid.pool pd).tables s = table * frameSize
    · rw [own, address_div]
      exact made.free.tracked
    · rw [made.tables_old own] at present ⊢
      exact space.tableTracked s below present
  · intro s below present user
    rw [made.link_eq space.layout below] at present user ⊢
    split at present
    · rename_i same
      rw [if_pos same, same, self, entryTable_link made.free.small]
      exact ⟨made.free.address_ne_zero, rfl⟩
    · rename_i other
      rw [if_neg other] at user ⊢
      have link := space.linked s below present user
      rw [made.tables_kept absent link.1]
      exact link
  · rintro f ⟨s, below, i, small, entry, shows, rfl⟩
    rw [made.shown_eq space.layout inSlot absent below small] at shows
    have held := space.held _ ⟨s, below, i, small, entry, shows, rfl⟩
    rw [made.pmem, frameBitmap_take space.layout.clean made.free]
    exact ⟨held.1, by rw [held.2, Bool.true_or]⟩
  · intro s t order below present same
    by_cases own : (mid.pool pd).tables t = table * frameSize
    · -- Only its own slot and half of it name the new table.
      rcases made.names_new space.layout below own with rfl | ⟨_, rfl, _⟩
      · rcases made.names_new space.layout (order.trans below) (same.trans own) with
          rfl | ⟨_, rfl, _⟩
        · exact absurd order (Nat.lt_irrefl _)
        · rfl
      · rcases made.names_new space.layout (order.trans below) (same.trans own) with
          rfl | ⟨_, rfl, _⟩
        · omega
        · exact absurd order (Nat.lt_irrefl _)
    · have other : (mid.pool pd).tables s ≠ table * frameSize := by rw [same]; exact own
      rw [made.tables_old own] at present same
      rw [made.tables_old other] at same
      exact space.named s t order below present same
  · intro s below present user t order within same
    rw [made.link_eq space.layout below] at present user
    split at present
    · rename_i own
      rw [own] at order same
      rcases made.names_new space.layout within (by rw [← same, self]) with rfl | ⟨_, rfl, _⟩
      · exact absurd order (Nat.lt_irrefl _)
      · omega
    · rename_i other
      rw [if_neg other] at user
      have link := space.linked s below present user
      rw [made.tables_kept absent link.1] at same
      have notOwn : (mid.pool pd).tables t ≠ table * frameSize := by
        intro own
        have used := made.ne_of_used (space.layout.tableUsed s below link.1)
        rw [same, own, address_div] at used
        exact used rfl
      rw [made.tables_old notOwn] at same
      exact space.owner s below present user t order within same

lemma UserSpace.map_made {table : Nat} {flags : Word} (present : isPresent flags) (user : isUser flags)
    (absent : (vm.pool pd).tables slot = 0) (made : NewTable vm mid pd slot table
      ((BitVec.ofNat 64 (table * frameSize) &&& tableMask) ||| (flags &&& pageFlags))) :
    PageMapped vm (mid.writeWord ((mid.pool pd).tables slot) index (userEntry frame)) pd slot index frame := by
  have self := made.tables_self
  have named : (mid.pool pd).tables slot ≠ 0 := by rw [self]; exact made.free.address_ne_zero
  have inUse : mid.pmem.frameBitmap frame = true := by
    rw [made.pmem, frameBitmap_take space.layout.clean made.free, used, Bool.true_or]
  -- Once the table is there, the page is mapped as in one that was found.
  have found := (space.newTable inSlot absent made).map_found inSlot inTable tracked inUse named
  refine ⟨found.space, made.pageDirectory, named, fun s => made.tables_kept absent, fun s => ?_,
    fun s => made.tables_ne_zero absent, fun s below i small => ?_, fun s below other => ?_,
    fun _ => ?_, fun _ => ?_, fun _ => ?_, ?_, ?_, ?_, ?_, ?_, made.directory, made.pdpt, made.others⟩
  · by_cases own : (mid.pool pd).tables s = table * frameSize
    · exact .inr (own.trans self.symm)
    · exact .inl (made.tables_old own)
  · rw [found.shown s below i small, made.shown_eq space.layout inSlot absent below small]
  · rw [found.links s below (.inr named), made.link_eq space.layout below,
      if_neg (other.resolve_right fun present => present absent)]
  · rw [found.links slot inSlot (.inr named), made.link_eq space.layout inSlot, if_pos rfl]
    simp [present, user]
  · rw [writeWord_pool, self, address_div]
    exact made.free.clear
  · rw [writeWord_pool, writeWord_pmem, self, address_div, made.pmem]
    show (vm.pmem.refFrame table).cell table = _
    rw [cell_refFrame, if_pos ⟨rfl, made.free.tracked⟩]
  · rintro f (⟨j, inFour, rfl⟩ | ⟨s, below, present, rfl⟩)
    · rw [writeWord_pool, made.pageDirectory]
      exact .inl (.inl ⟨j, inFour, rfl⟩)
    · rw [writeWord_pool] at present ⊢
      by_cases own : (mid.pool pd).tables s = table * frameSize
      · rw [own, address_div]
        exact .inr made.free.clear
      · rw [made.tables_old own] at present ⊢
        exact .inl (.inr ⟨s, below, present, rfl⟩)
  · intro f inUse
    rw [writeWord_pmem, made.pmem]
    exact cell_refFrames_of_notMem (by simpa using made.ne_of_used inUse) _
  · intro f _ outside
    rw [writeWord_pmem, made.pmem]
    refine cell_refFrames_of_notMem ?_ _
    rw [List.mem_singleton]
    rintro rfl
    exact outside (.inr ⟨slot, inSlot, named, by rw [writeWord_pool, self, address_div]⟩)
  · intro f
    rw [writeWord_pmem, made.pmem]
    exact taken_refFrame_le vm.pmem table f
  · intro f tracked other levels outside
    rw [found.mem f tracked other (made.pageDirectory ▸ levels) outside]
    funext i
    rw [made.mem, if_neg, if_neg]
    · rintro rfl
      exact outside (by rw [writeWord_pool, self, address_div])
    · rintro ⟨rfl, _⟩
      exact levels (slot / 512) (slot_div_lt inSlot) rfl

end Map

lemma UserSpace.map (space : UserSpace vm pd) (low : vaddr < 2 ^ 32)
    (tracked : frame < maxFrames) (used : vm.pmem.frameBitmap frame)
    (room : (vm.pool pd).tables (getTableSlot vaddr) ≠ 0 ∨ (allocPageTable vm).2 ≠ 0) : PageMapped vm
      (pagingMap vm pd vaddr (BitVec.ofNat 64 (frame * frameSize)) (pagePresent ||| pageRw ||| pageUser))
      pd (getTableSlot vaddr) (getPageTableIndex vaddr) frame := by
  have inSlot := getTableSlot_lt low
  have inTable := getPageTableIndex_lt vaddr
  obtain ⟨mid, present, mapped, found⟩ := pagingMap_cases (BitVec.ofNat 64 (frame * frameSize))
    (pagePresent ||| pageRw ||| pageUser) low space.layout.rooted room
  rw [mapped]
  rcases found with rfl | ⟨absent, table, made⟩
  · exact space.map_found inSlot inTable tracked used present
  · exact space.map_made inSlot inTable tracked used (isPresent_directoryFlags _) (by decide) absent made

/-- What unmapping a page does to the directory, whose slot names a table. -/
structure PageUnmapped (before after : Vm) (pd slot index : Nat) : Prop where
  space : UserSpace after pd
  -- Half the slot may lose the table's second name.
  tables : ∀ s, (after.pool pd).tables s = (before.pool pd).tables s ∨
    ((after.pool pd).tables s = 0 ∧ s = slot / 2 ∧ s ≠ slot ∧
      (before.pool pd).tables s = (before.pool pd).tables slot)
  shown : ∀ s, s < pageTableSlots → ∀ i, i < 512 → (after.pool pd).tables s ≠ 0 →
    after.shown pd s i =
      if (before.pool pd).tables s = (before.pool pd).tables slot ∧ i = index then none
      else before.shown pd s i
  pageDirectory : (after.pool pd).pageDirectory = (before.pool pd).pageDirectory
  pmem : after.pmem = before.pmem
  links : ∀ s, s < pageTableSlots → after.link pd s = before.link pd s
  mem : ∀ f, f ≠ (before.pool pd).tables slot / frameSize → after.mem f = before.mem f
  directory : (after.pool pd).directory = (before.pool pd).directory
  pdpt : (after.pool pd).pdpt = (before.pool pd).pdpt
  pools : ∀ q, q ≠ pd → after.pool q = before.pool q

lemma UserSpace.unmap (space : UserSpace vm pd) (low : vaddr < 2 ^ 32)
    (present : (vm.pool pd).tables (getTableSlot vaddr) ≠ 0) :
    PageUnmapped vm (pagingUnmap vm pd vaddr) pd (getTableSlot vaddr) (getPageTableIndex vaddr) := by
  have inSlot := getTableSlot_lt low
  have inTable := getPageTableIndex_lt vaddr
  rcases pagingUnmap_cases vm pd low with ⟨absent, _⟩ | ⟨_, same, slots⟩
  · exact absurd absent present
  generalize pagingUnmap vm pd vaddr = after at same slots ⊢
  generalize getPageTableIndex vaddr = index at same inTable ⊢
  generalize getTableSlot vaddr = slot at same slots present inSlot ⊢
  have tables : ∀ s, (after.pool pd).tables s = (vm.pool pd).tables s ∨
      ((after.pool pd).tables s = 0 ∧ s = slot / 2 ∧ s ≠ slot ∧
        (vm.pool pd).tables s = (vm.pool pd).tables slot) := by
    intro s
    rw [slots]
    split
    · rename_i second
      exact .inr ⟨rfl, second.2.1, by omega, second.2.2⟩
    · exact .inl rfl
  have kept : ∀ s, (after.pool pd).tables s ≠ 0 → (after.pool pd).tables s = (vm.pool pd).tables s :=
    fun s named => (tables s).resolve_right fun lost => named lost.1
  have shown : ∀ s < pageTableSlots, ∀ i < 512, (after.pool pd).tables s ≠ 0 → after.shown pd s i =
        if (vm.pool pd).tables s = (vm.pool pd).tables slot ∧ i = index then none
        else vm.shown pd s i := by
    intro s below i small named
    have written : (vm.writeWord ((vm.pool pd).tables slot) index 0).shown pd s i = _ :=
      space.layout.shown_write inSlot inTable present below small
    rw [if_neg (show ¬isPresent 0 = true by decide)] at written
    rw [← written, Vm.shown, Vm.shown, same.leaf (kept s named), kept s named, writeWord_pool]
  refine ⟨?_, tables, shown, same.pageDirectory, same.pmem, fun s below => ?_, fun f other => ?_,
    same.directory, same.pdpt, same.others⟩
  refine ⟨same.layout (space.layout.write _ _ _) fun s => ?_, ?_, ?_, ?_, ?_, ?_, ?_⟩
  · rcases tables s with same | lost
    · exact .inr same
    · exact .inl lost.1
  · rw [same.pageDirectory]
    exact space.directoryTracked
  · intro s below named
    have old := kept s named
    rw [old] at named ⊢
    exact space.tableTracked s below named
  · intro s below linked user
    rw [same.link, space.layout.link_write inSlot inTable _ present below] at linked user ⊢
    have link := space.linked s below linked user
    rcases tables s with old | ⟨_, half, other, shared⟩
    · rw [old]
      exact link
    · -- A linked slot is the highest that names its table, so it keeps it.
      exact absurd shared (space.owner s below linked user slot (by omega) inSlot)
  · rintro f ⟨s, below, i, small, entry, shows, rfl⟩
    have named := (shown_eq_some.mp shows).1
    rw [shown s below i small named] at shows
    split at shows
    · simp at shows
    · rw [same.pmem]
      exact space.held _ ⟨s, below, i, small, entry, shows, rfl⟩
  · intro s t order below named shared
    have old := kept t named
    have old' := kept s (by rw [shared]; exact named)
    rw [old] at named shared
    rw [old'] at shared
    exact space.named s t order below named shared
  · intro s below linked user t order within shared
    rw [same.link, space.layout.link_write inSlot inTable _ present below] at linked user
    have link := space.linked s below linked user
    have own := space.owner s below linked user
    rcases tables s with old | ⟨_, half, other, shares⟩
    · rcases tables t with old' | ⟨lost, _⟩
      · rw [old, old'] at shared
        exact own t order within shared
      · rw [old, lost] at shared
        exact link.1 shared
    · exact absurd shares (own slot (by omega) inSlot)
  · rw [same.link, space.layout.link_write inSlot inTable _ present below]
  · rw [same.mem]
    funext i
    rw [mem_writeWord, Nat.div_eq_of_lt inTable, if_neg]
    exact fun here => other here.1

lemma Created.userSpace {top second first : Nat} (kernel : LargeKernel vm)
    (made : Created vm after pd top second first (kernelEntry vm) (kernelTable vm)) : UserSpace after pd where
  layout := made.layout kernel
  directoryTracked := fun j inFour => by
    rw [made.pageDirectory, address_div]
    exact (made.free _ (by simp [directoryFrames, List.mem_range'_1, inFour])).tracked
  tableTracked := fun s below present => absurd (made.no_tables kernel below) present
  linked := fun s below _ user => by
    rw [made.link below, isUser_kernelEntry] at user
    exact absurd user (by decide)
  held := by
    rintro frame ⟨s, below, i, _, entry, shows, _⟩
    exact absurd (made.no_tables kernel below) (shown_eq_some.mp shows).1
  named := fun s t _ below present => absurd (made.no_tables kernel below) present
  owner := fun s below _ user => by
    rw [made.link below, isUser_kernelEntry] at user
    simp at user

end Galio

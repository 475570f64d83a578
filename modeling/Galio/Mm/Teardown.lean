import Galio.Lib.Lists
import Galio.Mm.Boot
import Galio.Mm.DirectoryPool
import Galio.Mm.PmemLent

/-! Building a user address space and freeing it again. -/

namespace Galio

open Transition List

/-- `pmem_alloc(1)` while no process is there to be killed for its memory. -/
def allocFrame (vm : Vm) : Vm × Nat :=
  let result := pmemAlloc id vm.pmem 1
  ({ vm with pmem := result.1 }, result.2)

/-- A page to be mapped and the flags to map it with. -/
structure BuildOp where
  vaddr : Nat
  flags : Word

/-- A fresh frame is mapped at a new user page; the state lists the pages mapped so far. -/
structure BuildStep (pd : Nat) (before : Vm × List Nat) (op : BuildOp) (after : Vm × List Nat) :
    Prop where
  user : isUserAddress op.vaddr = true
  distinct : op.vaddr / pageSize ∉ before.2
  flags : isPresent op.flags = true ∧ isUser op.flags = true
  frame : (allocFrame before.1).2 ≠ 0
  hasTable : (before.1.pool pd).tables (getTableSlot op.vaddr) ≠ 0 ∨
    (allocPageTable (allocFrame before.1).1).2 ≠ 0
  exec : after = (pagingMap (allocFrame before.1).1 pd op.vaddr
    (BitVec.ofNat 64 (allocFrame before.1).2) op.flags, op.vaddr / pageSize :: before.2)

/-- Where the frames taken since `boot` went: to pages, tables and levels; the lists may hold lost ones too. -/
structure Ledger (boot : Pmem) (pd : Nat) (vm : Vm) (users tables : List Nat) : Prop where
  layout : TableLayout vm pd
  lent : Lent boot vm.pmem (users ++ (tables ++ levels vm pd))
  named : ∀ s, s < pageTableSlots → (vm.pool pd).tables s ≠ 0 →
    (vm.pool pd).tables s / frameSize ∈ tables
  mapped : ∀ s, s < pageTableSlots → (vm.pool pd).tables s ≠ 0 → ∀ i, i < 512 →
    isPresent (vm.leaf pd s i) = true → entryFrame (vm.leaf pd s i) ∈ users
  unlinked : ∀ s, s < pageTableSlots → (vm.pool pd).tables s = 0 → isUser (vm.link pd s) = false

variable {after before vm : Vm} {boot : Pmem} {first frame pd pt s second top : Nat}
  {run : List (BuildOp × (Vm × List Nat))} {start : Vm × List Nat} {tables users : List Nat} {slot index : Nat}
  {mid : Vm} {link : Word}

lemma TableLayout.taking (layout : TableLayout vm pd) {pmem : Pmem} (clean : pmem.Clean)
    (grown : ∀ f, vm.pmem.frameBitmap f → pmem.frameBitmap f) : TableLayout { vm with pmem := pmem } pd where
  clean := clean
  rooted := layout.rooted
  directoryUsed := fun j below => grown _ (layout.directoryUsed j below)
  aligned := layout.aligned
  tableUsed := fun s below present => grown _ (layout.tableUsed s below present)
  apart := layout.apart

lemma allocFrame_ok (returned : (allocFrame vm).2 ≠ 0) :
    ∃ frame cursor, (allocFrame vm).2 = frame * frameSize ∧ frame ≠ 0 ∧ frame < maxFrames ∧
      vm.pmem.frameBitmap frame = false ∧
      (allocFrame vm).1 = { vm with pmem := { vm.pmem.refFrame frame with allocationCursor := cursor } } := by
  have taken : pmemAlloc id vm.pmem 1 = pmemTake vm.pmem 1 := by
    simp [pmemAlloc, pmemReclaim]
  simp only [allocFrame, taken] at returned ⊢
  obtain ⟨frame, address, after, free⟩ := pmemTake_ok (by decide) returned
  have cell := framesFree_iff.mp free 0 (by decide)
  refine ⟨frame, _, address, ?_, cell.1, cell.2, by rw [after]; rfl⟩
  rintro rfl
  rw [address] at returned
  exact returned rfl

lemma Ledger.alloc (ledger : Ledger boot pd vm users tables) (cursor : Nat) (tracked : frame < maxFrames)
    (free : vm.pmem.frameBitmap frame = false) :
    Ledger boot pd { vm with pmem := { vm.pmem.refFrame frame with allocationCursor := cursor } }
      (frame :: users) tables := by
  obtain ⟨layout, lent, named, mapped, unlinked⟩ := ledger
  have taken := lent.take tracked free
  have more : Lent boot { vm.pmem.refFrame frame with allocationCursor := cursor }
      (frame :: (users ++ (tables ++ levels vm pd))) :=
    { taken with }
  refine ⟨layout.taking (layout.clean.refFrames [frame]) ?_, more, named, ?_, unlinked⟩
  · intro f used
    rw [lent.bitmap] at used
    rw [more.bitmap]
    simp only [Bool.or_eq_true, decide_eq_true_eq] at used ⊢
    exact used.imp_right (mem_cons_of_mem _)
  · exact fun s below present i small shown => mem_cons_of_mem _ (mapped s below present i small shown)

lemma Ledger.write {entry : Word} (ledger : Ledger boot pd vm users tables) (inSlot : slot < pageTableSlots)
    (inTable : index < 512) (owned : entryFrame entry ∈ users) (present : (vm.pool pd).tables slot ≠ 0) :
    Ledger boot pd (vm.writeWord ((vm.pool pd).tables slot) index entry) users tables := by
  obtain ⟨layout, lent, named, mapped, unlinked⟩ := ledger
  refine ⟨layout.write .., lent, named, fun s below shown i small => ?_, fun s below absent => ?_⟩
  · rw [layout.leaf_write inSlot inTable entry below small]
    split
    · exact fun _ => owned
    · exact mapped s below shown i small
  · rw [layout.link_write inSlot inTable entry present below]
    exact unlinked s below absent

lemma NewTable.levels_eq (made : NewTable vm mid pd slot frame link) : levels mid pd = levels vm pd := by
  simp only [levels, made.directory, made.pdpt, made.pageDirectory]

lemma Ledger.newTable (ledger : Ledger boot pd vm users tables) (inSlot : slot < pageTableSlots)
    (made : NewTable vm mid pd slot frame link) : Ledger boot pd mid users (frame :: tables) := by
  obtain ⟨layout, lent, named, mapped, unlinked⟩ := ledger
  refine ⟨made.layout layout, ?_, fun s below shown => ?_, fun s below shown i small => ?_,
    fun s below absent => ?_⟩
  · have taken := lent.take made.free.tracked made.free.clear
    rw [made.levels_eq, made.pmem]
    exact taken.perm perm_middle.symm
  · by_cases own : (mid.pool pd).tables s = frame * frameSize
    · rw [own, address_div]
      exact mem_cons_self
    · rw [made.tables_old own] at shown ⊢
      exact mem_cons_of_mem _ (named s below shown)
  · rw [made.leaf_eq layout inSlot below small shown]
    split
    · exact fun zero => absurd zero (by decide)
    · rename_i other
      rw [made.tables_old other] at shown
      exact mapped s below shown i small
  · have other : (mid.pool pd).tables s ≠ frame * frameSize := by
      rw [absent]; exact made.free.address_ne_zero.symm
    rw [made.link_eq layout below, if_neg]
    · rw [made.tables_old other] at absent
      exact unlinked s below absent
    · rintro rfl
      exact other made.tables_self

lemma entryFrame_fresh (tracked : frame < maxFrames) (flags : Word) :
    entryFrame ((BitVec.ofNat 64 (frame * frameSize) &&& frameMask) ||| (flags &&& pageFlags)) = frame :=
  entryFrame_build (Nat.lt_trans tracked (by decide)) flags

/-- A directory whose tables have one slot each, which is linked. -/
structure Tidy (pd : Nat) (vm : Vm) (pages : List Nat) : Prop where
  single : SingleSlots vm pd
  linked : ∀ s, s < pageTableSlots → (vm.pool pd).tables s ≠ 0 →
    isPresent (vm.link pd s) = true ∧ isUser (vm.link pd s) = true
  recorded : ∀ s, s < pageTableSlots → (vm.pool pd).tables s ≠ 0 → ∀ i, i < 512 →
    isPresent (vm.leaf pd s i) = true → s * 512 + i ∈ pages

/-- The table of a slot is also named by half its number, which is not the user's. -/
def Aliased (pd : Nat) (vm : Vm) : Prop :=
  ∃ s, s < pageTableSlots ∧ s ≠ 0 ∧ (vm.pool pd).tables s ≠ 0 ∧
    (vm.pool pd).tables (s / 2) = (vm.pool pd).tables s ∧ isUser (vm.link pd (s / 2)) = false ∧
    ∀ other, other < pageTableSlots → (vm.pool pd).tables other = (vm.pool pd).tables s →
      other = s ∨ other = s / 2

lemma mem_leafFrames {f : Nat} (listed : f ∈ leafFrames vm pt) :
    ∃ i < 512, isPresent (vm.readWord pt i) ∧ entryFrame (vm.readWord pt i) = f := by
  obtain ⟨i, inRange, released⟩ := mem_flatMap.mp listed
  exact ⟨i, mem_range.mp inRange, leafFrame_eq_some (Option.mem_toList.mp released)⟩

variable {table : Nat}

lemma Ledger.tracked (ledger : Ledger boot pd vm users tables) (below : s < pageTableSlots)
    (present : (vm.pool pd).tables s ≠ 0) : (vm.pool pd).tables s / frameSize < maxFrames :=
  ledger.lent.tracked _ (mem_append_right _ (mem_append_left _ (ledger.named s below present)))

lemma Aliased.kept (aliased : Aliased pd vm)
    (ledger : Ledger boot pd vm users tables) : ∃ frame ∈ tables, frame ∉ teardownFrames vm pd := by
  obtain ⟨s, below, positive, present, shared, kernel, only⟩ := aliased
  refine ⟨(vm.pool pd).tables s / frameSize, ledger.named s below present, fun listed => ?_⟩
  have owned := ledger.named s below present
  have distinct := ledger.lent.distinct
  rw [nodup_append, nodup_append] at distinct
  obtain ⟨_, ⟨_, _, tablesApart⟩, usersApart⟩ := distinct
  rw [teardownFrames, mem_append] at listed
  rcases listed with walked | level
  · obtain ⟨other, inRange, released⟩ := mem_flatMap.mp walked
    have otherBelow := mem_range.mp inRange
    unfold slotFrames at released
    split at released
    · rename_i freed
      obtain ⟨_, linkUser, named, first⟩ := isFreed_iff.mp freed
      rcases mem_append.mp released with leaf | table
      · -- The frames of mapped pages are none of the tables.
        obtain ⟨i, small, shown, maps⟩ := mem_leafFrames leaf
        exact usersApart _ (ledger.mapped other otherBelow named i small shown) _
          (mem_append_left _ owned) maps
      · -- The slot named first is not the user's, and the other repeats it.
        rw [frameRange_address (ledger.tracked otherBelow named), range'_one, mem_singleton] at table
        have same : (vm.pool pd).tables other = (vm.pool pd).tables s := by
          rw [← ledger.layout.aligned other otherBelow, ← ledger.layout.aligned s below, table]
        rcases only other otherBelow same with rfl | rfl
        · exact first (other / 2) (by omega) shared
        · rw [Vm.link] at kernel
          rw [kernel] at linkUser
          simp at linkUser
    · exact absurd released not_mem_nil
  · exact tablesApart _ owned _ level rfl

variable {pages : List Nat}

lemma Tidy.slotFrames
    (tidy : Tidy pd vm pages) (ledger : Ledger boot pd vm users tables) (below : s < pageTableSlots) :
    slotFrames vm pd s = if (vm.pool pd).tables s = 0 then []
      else leafFrames vm ((vm.pool pd).tables s) ++ [(vm.pool pd).tables s / frameSize] := by
  by_cases absent : (vm.pool pd).tables s = 0
  · simp [Galio.slotFrames, isFreed, absent]
  obtain ⟨present, user⟩ := tidy.linked s below absent
  have freed : isFreed vm pd s := by
    refine isFreed_iff.mpr ⟨present, user, absent, fun previous earlier same => ?_⟩
    have self := tidy.single s below previous (by omega) absent same.symm
    omega
  rw [Galio.slotFrames, if_pos freed, if_neg absent]
  dsimp only
  rw [frameRange_address (ledger.tracked below absent), range'_one]

lemma leafFrames_congr (same : ∀ i < 512, after.readWord pt i = before.readWord pt i) :
    leafFrames after pt = leafFrames before pt :=
  flatMap_congr fun i inRange => by rw [same i (mem_range.mp inRange)]

lemma teardownFrames_gain {gained : List Nat} (inSlot : slot < pageTableSlots)
    (others : ∀ s < pageTableSlots, s ≠ slot → slotFrames after pd s = slotFrames before pd s)
    (here : (slotFrames after pd slot).Perm (gained ++ slotFrames before pd slot))
    (same : levels after pd = levels before pd) :
    (teardownFrames after pd).Perm (gained ++ teardownFrames before pd) := by
  have walked : ((range pageTableSlots).flatMap (slotFrames after pd)).Perm
      (gained ++ (range pageTableSlots).flatMap (slotFrames before pd)) :=
    Lists.flatMap_gain nodup_range (mem_range.mpr inSlot)
      (fun s inRange other => others s (mem_range.mp inRange) other) here
  unfold teardownFrames
  rw [same, ← append_assoc]
  exact walked.append_right _

section TidyMap

variable {entry : Word} (tidy : Tidy pd vm pages) (ledger : Ledger boot pd vm users tables)
  (inSlot : slot < pageTableSlots) (inTable : index < 512) (fresh : slot * 512 + index ∉ pages)
  (maps : leafFrame entry = some frame) (owned : entryFrame entry ∈ users)

include tidy ledger inSlot

section

variable (present : (vm.pool pd).tables slot ≠ 0)

include inTable present

lemma Tidy.write :
    Tidy pd (vm.writeWord ((vm.pool pd).tables slot) index entry) ((slot * 512 + index) :: pages) := by
  obtain ⟨single, linked, recorded⟩ := tidy
  refine ⟨single, fun s below shown => ?_, fun s below shown i small => ?_⟩
  · rw [ledger.layout.link_write inSlot inTable entry present below]
    exact linked s below shown
  · rw [ledger.layout.leaf_write inSlot inTable entry below small]
    split
    · rename_i here
      intro _
      rw [single s below slot inSlot shown here.1, here.2]
      exact mem_cons_self
    · exact fun isPresent => mem_cons_of_mem _ (recorded s below shown i small isPresent)

include fresh maps owned in
lemma Tidy.teardown_write : (teardownFrames (vm.writeWord ((vm.pool pd).tables slot) index entry) pd).Perm
      ([frame] ++ teardownFrames vm pd) := by
  have after : Tidy pd (vm.writeWord ((vm.pool pd).tables slot) index entry)
      ((slot * 512 + index) :: pages) := tidy.write ledger inSlot inTable present
  have kept := ledger.write inSlot inTable owned present
  have leaf := fun {s i : Nat} (below : s < pageTableSlots) (small : i < 512) =>
    ledger.layout.leaf_write inSlot inTable entry below small
  have gain : (leafFrames (vm.writeWord ((vm.pool pd).tables slot) index entry)
      ((vm.pool pd).tables slot)).Perm ([frame] ++ leafFrames vm ((vm.pool pd).tables slot)) := by
    refine Lists.flatMap_gain nodup_range (mem_range.mpr inTable) (fun i inRange other => ?_) ?_
    · have same := leaf inSlot (mem_range.mp inRange)
      rw [if_neg (fun here => other here.2)] at same
      exact congrArg (Option.toList ∘ leafFrame) same
    · have unmapped : isPresent (vm.leaf pd slot index) = false := by
        by_contra shown
        exact fresh (tidy.recorded slot inSlot present index inTable (by simpa using shown))
      rw [Vm.leaf] at unmapped
      have written := leaf inSlot inTable
      rw [if_pos ⟨rfl, rfl⟩] at written
      have gained := (congrArg leafFrame written).trans maps
      rw [Vm.leaf, writeWord_pool] at gained
      rw [gained]
      simp [leafFrame, unmapped]
  refine teardownFrames_gain inSlot (fun s below other => ?_) ?_ rfl
  · rw [after.slotFrames kept below, tidy.slotFrames ledger below, writeWord_pool]
    by_cases absent : (vm.pool pd).tables s = 0
    · rw [if_pos absent, if_pos absent]
    rw [if_neg absent, if_neg absent, leafFrames_congr]
    intro i small
    have same := leaf below small
    rw [if_neg] at same
    · exact same
    · exact fun here => other (tidy.single s below slot inSlot absent here.1)
  · rw [after.slotFrames kept inSlot, tidy.slotFrames ledger inSlot, writeWord_pool,
      if_neg present, if_neg present, ← append_assoc]
    exact gain.append_right _

end

variable (absent : (vm.pool pd).tables slot = 0) (made : NewTable vm mid pd slot table link)
  (guarded : slot = 0 ∨ (vm.pool pd).tables (slot / 2) ≠ 0) (links : isPresent link ∧ isUser link)

include made guarded links

lemma Tidy.newTable : Tidy pd mid pages := by
  obtain ⟨single, linked, recorded⟩ := tidy
  have layout := ledger.layout
  refine ⟨made.singleSlots layout guarded single, fun s below shown => ?_, fun s below shown i small => ?_⟩
  · rw [made.link_eq layout below]
    split
    · exact links
    rename_i other
    have old := made.tables_old fun own => other (made.names_self layout guarded below own)
    exact linked s below (old ▸ shown)
  · rw [made.leaf_eq layout inSlot below small shown]
    split
    · exact fun zero => absurd zero (by decide)
    · rename_i other
      rw [made.tables_old other] at shown
      exact recorded s below shown i small

include absent

lemma Tidy.teardown_table : (teardownFrames mid pd).Perm ([table] ++ teardownFrames vm pd) := by
  have layout := ledger.layout
  have after : Tidy pd mid pages := tidy.newTable ledger inSlot made guarded links
  have kept := ledger.newTable inSlot made
  refine teardownFrames_gain inSlot (fun s below other => ?_) ?_ made.levels_eq
  · have apart := fun own => other (made.names_self layout guarded below own)
    have old := made.tables_old apart
    rw [after.slotFrames kept below, tidy.slotFrames ledger below, old]
    by_cases none : (vm.pool pd).tables s = 0
    · rw [if_pos none, if_pos none]
    rw [if_neg none, if_neg none, leafFrames_congr]
    intro i small
    have same := made.leaf_eq layout inSlot below small (old ▸ none)
    rwa [if_neg apart, Vm.leaf, old] at same
  · -- The new table maps nothing yet.
    have present : (mid.pool pd).tables slot ≠ 0 := by rw [made.tables_self]; exact made.free.address_ne_zero
    have empty : leafFrames mid ((mid.pool pd).tables slot) = [] := by
      rw [leafFrames, flatMap_eq_nil_iff]
      intro i inRange
      have zero := made.leaf_eq layout inSlot inSlot (mem_range.mp inRange) present
      rw [if_pos made.tables_self, Vm.leaf] at zero
      rw [zero]
      rfl
    rw [after.slotFrames kept inSlot, tidy.slotFrames ledger inSlot, if_pos absent, if_neg present, empty,
      made.tables_self, address_div]
    exact List.Perm.refl _

end TidyMap

section AliasedMap

variable {entry : Word} (ledger : Ledger boot pd vm users tables) (inSlot : slot < pageTableSlots)

include ledger

include inSlot in
lemma Aliased.write (aliased : Aliased pd vm) (inTable : index < 512) (present : (vm.pool pd).tables slot ≠ 0) :
    Aliased pd (vm.writeWord ((vm.pool pd).tables slot) index entry) := by
  obtain ⟨s, below, positive, named, shared, kernel, only⟩ := aliased
  refine ⟨s, below, positive, named, shared, ?_, only⟩
  rw [ledger.layout.link_write inSlot inTable entry present (by omega)]
  exact kernel

lemma Aliased.newTable (aliased : Aliased pd vm) (absent : (vm.pool pd).tables slot = 0)
    (made : NewTable vm mid pd slot table link) : Aliased pd mid := by
  obtain ⟨s, below, positive, named, shared, kernel, only⟩ := aliased
  have layout := ledger.layout
  have kept := made.tables_kept absent named
  have keptHalf := made.tables_kept absent (shared ▸ named)
  refine ⟨s, below, positive, kept ▸ named, ?_, ?_, fun other otherBelow same => ?_⟩
  · rw [kept, keptHalf, shared]
  · rw [made.link_eq layout (by omega), if_neg]
    · exact kernel
    · rintro half
      rw [half, absent] at shared
      exact named shared.symm
  · rw [kept] at same
    apply only other otherBelow
    rw [← made.tables_old, same]
    rw [same]
    intro own
    have used := made.ne_of_used (layout.tableUsed s below named)
    rw [own, address_div] at used
    exact used rfl

include inSlot

lemma Ledger.aliased (made : NewTable vm mid pd slot table link) (positive : slot ≠ 0)
    (empty : (vm.pool pd).tables (slot / 2) = 0) : Aliased pd mid := by
  have layout := ledger.layout
  have self := made.tables_self
  have second : (mid.pool pd).tables (slot / 2) = table * frameSize := by
    rw [made.tables, if_pos (.inr ⟨positive, rfl, empty⟩)]
  have below : slot / 2 < pageTableSlots := by omega
  refine ⟨slot, inSlot, positive, ?_, second.trans self.symm, ?_, fun other otherBelow same => ?_⟩
  · rw [self]
    exact made.free.address_ne_zero
  · rw [made.link_eq layout below, if_neg (by omega)]
    exact ledger.unlinked _ below empty
  · rw [self] at same
    exact (made.names_new layout otherBelow same).imp_right fun entered => entered.2.1

end AliasedMap

/-- Every frame taken since `boot` is one the walk releases. -/
def Recoverable (boot : Pmem) (pd : Nat) (state : Vm × List Nat) : Prop :=
  ∃ users tables, Ledger boot pd state.1 users tables ∧ Tidy pd state.1 state.2 ∧
    (teardownFrames state.1 pd).Perm (users ++ (tables ++ levels state.1 pd))

/-- A frame taken since `boot` is one the walk misses. -/
def Lost (boot : Pmem) (pd : Nat) (state : Vm × List Nat) : Prop :=
  ∃ users tables, Ledger boot pd state.1 users tables ∧ Aliased pd state.1

/-- The entry a step writes. -/
def BuildOp.entry (op : BuildOp) (frame : Nat) : Word :=
  (BitVec.ofNat 64 (frame * frameSize) &&& frameMask) ||| (op.flags &&& pageFlags)

section Step

variable {before after : Vm × List Nat} {op : BuildOp}

lemma BuildStep.low (step : BuildStep pd before op after) : op.vaddr < 2 ^ 32 := by
  have below : op.vaddr ≤ userSpaceEnd := by simpa [isUserAddress] using step.user
  simp only [userSpaceEnd] at below
  omega

/-- A step takes a frame, makes the slot's table if there is none, and writes the entry there. -/
theorem BuildStep.cases (step : BuildStep pd before op after) (ledger : Ledger boot pd before.1 users tables) :
    ∃ frame pmem mid, Ledger boot pd { before.1 with pmem := pmem } (frame :: users) tables ∧
      leafFrame (op.entry frame) = some frame ∧ entryFrame (op.entry frame) ∈ frame :: users ∧
      (mid.pool pd).tables (getTableSlot op.vaddr) ≠ 0 ∧
      after.1 = mid.writeWord ((mid.pool pd).tables (getTableSlot op.vaddr)) (getPageTableIndex op.vaddr)
        (op.entry frame) ∧
      (mid = { before.1 with pmem := pmem } ∨
        (before.1.pool pd).tables (getTableSlot op.vaddr) = 0 ∧ ∃ table link,
          NewTable { before.1 with pmem := pmem } mid pd (getTableSlot op.vaddr) table link ∧
          isPresent link ∧ isUser link) := by
  have low := step.low
  obtain ⟨_, _, ⟨present, isUsers⟩, returned, hasTable, executed⟩ := step
  obtain ⟨frame, cursor, address, positive, tracked, free, taken⟩ := allocFrame_ok returned
  have entered := ledger.alloc cursor tracked free
  have maps : entryFrame (op.entry frame) = frame := entryFrame_fresh tracked op.flags
  have shown : isPresent (op.entry frame) = true := by
    rw [BuildOp.entry, isPresent_build]; exact present
  have nonzero : (op.entry frame &&& frameMask).toNat ≠ 0 := by
    intro zero
    rw [entryFrame, zero] at maps
    exact positive maps.symm
  rw [address, taken] at executed
  rw [taken] at hasTable
  obtain ⟨mid, named, written, found⟩ := pagingMap_cases (BitVec.ofNat 64 (frame * frameSize)) op.flags low
    entered.layout.rooted hasTable
  refine ⟨frame, _, mid, entered, ?_, maps.symm ▸ mem_cons_self, named, by rw [executed]; exact written, ?_⟩
  · rw [leafFrame, shown, if_pos (by simpa using nonzero), maps]
  · rcases found with same | ⟨absent, table, made⟩
    · exact .inl same
    · exact .inr ⟨absent, table, _, made, by simp, by simpa using isUsers⟩

/-- A step that enters no table twice keeps every frame recoverable. -/
theorem Recoverable.step (recoverable : Recoverable boot pd before) (step : BuildStep pd before op after)
    (guarded : EntersOnce before.1 pd op.vaddr) : Recoverable boot pd after := by
  obtain ⟨users, tables, ledger, tidy, walked⟩ := recoverable
  obtain ⟨frame, pmem, mid, entered, maps, owned, present, written, found⟩ := step.cases ledger
  have low := step.low
  have inSlot := getTableSlot_lt low
  have inTable := getPageTableIndex_lt op.vaddr
  have fresh := step.distinct
  have pages : after.2 = op.vaddr / pageSize :: before.2 := by rw [step.exec]
  rw [page_eq low] at fresh pages
  have tidy' : Tidy pd { before.1 with pmem := pmem } before.2 :=
    ⟨tidy.single, tidy.linked, tidy.recorded⟩
  have walked' : (teardownFrames { before.1 with pmem := pmem } pd).Perm
      (users ++ (tables ++ levels before.1 pd)) := walked
  obtain ⟨tables', ledger', tidy', walked'⟩ : ∃ tables', Ledger boot pd mid (frame :: users) tables' ∧
      Tidy pd mid before.2 ∧ (teardownFrames mid pd).Perm (users ++ (tables' ++ levels mid pd)) := by
    rcases found with rfl | ⟨absent, table, link, made, links⟩
    · exact ⟨tables, entered, tidy', walked'⟩
    · have allowed := guarded absent
      rw [legacySlot_eq low] at allowed
      refine ⟨table :: tables, entered.newTable inSlot made, tidy'.newTable entered inSlot made allowed links, ?_⟩
      have gained := tidy'.teardown_table entered inSlot absent made allowed links
      have moved : (table :: (users ++ (tables ++ levels before.1 pd))).Perm
          (users ++ table :: (tables ++ levels before.1 pd)) := perm_middle.symm
      rw [made.levels_eq]
      exact gained.trans ((walked'.append_left [table]).trans moved)
  rw [Recoverable, written, pages]
  exact ⟨frame :: users, tables', ledger'.write inSlot inTable owned present,
    tidy'.write ledger' inSlot inTable present,
    (tidy'.teardown_write ledger' inSlot inTable fresh maps owned present).trans (walked'.append_left [frame])⟩

lemma Recoverable.lose (recoverable : Recoverable boot pd before) (step : BuildStep pd before op after)
    (unguarded : ¬EntersOnce before.1 pd op.vaddr) : Lost boot pd after := by
  obtain ⟨users, tables, ledger, _, _⟩ := recoverable
  obtain ⟨frame, pmem, mid, entered, _, owned, present, written, found⟩ := step.cases ledger
  have low := step.low
  have inSlot := getTableSlot_lt low
  have inTable := getPageTableIndex_lt op.vaddr
  simp only [EntersOnce, Classical.not_imp, not_or, not_not] at unguarded
  obtain ⟨empty, positive, second⟩ := unguarded
  rw [legacySlot_eq low] at second
  rcases found with rfl | ⟨_, table, link, made, _⟩
  · exact absurd empty present
  · have ledger' := entered.newTable inSlot made
    rw [Lost, written]
    exact ⟨_, _, ledger'.write inSlot inTable owned present,
      (entered.aliased inSlot made positive second).write ledger' inSlot inTable present⟩

lemma Lost.step (lost : Lost boot pd before) (step : BuildStep pd before op after) : Lost boot pd after := by
  obtain ⟨users, tables, ledger, aliased⟩ := lost
  obtain ⟨frame, pmem, mid, entered, _, owned, present, written, found⟩ := step.cases ledger
  have inSlot := getTableSlot_lt step.low
  have inTable := getPageTableIndex_lt op.vaddr
  have aliased' : Aliased pd { before.1 with pmem := pmem } := aliased
  obtain ⟨tables', ledger', aliased'⟩ : ∃ tables', Ledger boot pd mid (frame :: users) tables' ∧
      Aliased pd mid := by
    rcases found with rfl | ⟨absent, table, link, made, _⟩
    · exact ⟨_, entered, aliased'⟩
    · exact ⟨_, entered.newTable inSlot made, aliased'.newTable entered absent made⟩
  rw [Lost, written]
  exact ⟨_, _, ledger'.write inSlot inTable owned present, aliased'.write ledger' inSlot inTable present⟩

end Step

lemma Lost.not_sameFrames {state : Vm × List Nat} (lost : Lost boot pd state) :
    ¬SameFrames boot (state.1.pmem.derefFrames (teardownFrames state.1 pd)) := by
  obtain ⟨users, tables, ledger, aliased⟩ := lost
  obtain ⟨frame, taken, missed⟩ := aliased.kept ledger
  have listed : frame ∈ users ++ (tables ++ levels state.1 pd) :=
    mem_append_right _ (mem_append_left _ taken)
  intro same
  -- The frame was free before and is in use after.
  have after := congrFun same.bitmap frame
  rw [← cell_used, cell_derefFrames_of_notMem missed, cell_used, ledger.lent.bitmap frame,
    ledger.lent.free frame listed] at after
  simp [listed] at after

lemma Created.levels_eq {entries : Nat → Word}
    {tables : Nat → Nat} (made : Created before after pd top second first entries tables) :
    levels after pd = directoryFrames top second first := by
  have topFree := made.free top (by simp [directoryFrames])
  have secondFree := made.free second (by simp [directoryFrames])
  have firstFree := made.free first (by simp [directoryFrames])
  have last := (made.free (first + 3) (by simp [directoryFrames])).tracked
  simp only [levels, levelFrames, made.directory, made.pdpt, made.pageDirectory, ne_eq,
    topFree.address_ne_zero, secondFree.address_ne_zero, firstFree.address_ne_zero]
  rw [frameRange_address (by rw [address_div]; exact topFree.tracked),
    frameRange_address (by rw [address_div]; exact secondFree.tracked),
    frameRange_address (by rw [address_div]; omega), address_div, address_div, address_div]
  rfl

lemma Created.recoverable {boot : Vm} (kernel : LargeKernel boot)
    (made : Created boot vm pd top second first (kernelEntry boot) (kernelTable boot)) :
    Recoverable boot.pmem pd (vm, []) := by
  have none : ∀ s < pageTableSlots, (vm.pool pd).tables s = 0 :=
    fun s below => made.no_tables kernel below
  have lent : Lent boot.pmem vm.pmem (levels vm pd) := by
    rw [made.levels_eq, made.pmem]
    have taken := (Lent.nothing kernel.clean).takes made.distinct
      (fun f mem => (made.free f mem).tracked) (fun f mem => (made.free f mem).clear)
    rw [append_nil] at taken
    exact taken.perm (reverse_perm _)
  refine ⟨[], [], ⟨made.layout kernel, lent, fun s below named => absurd (none s below) named,
    fun s below named => absurd (none s below) named, fun s below _ => ?_⟩, ⟨fun s below _ _ named =>
      absurd (none s below) named, fun s below named => absurd (none s below) named,
      fun s below named => absurd (none s below) named⟩, ?_⟩
  · rw [made.link below]
    exact isUser_kernelEntry boot s
  · have walked : (range pageTableSlots).flatMap (slotFrames vm pd) = [] := by
      rw [flatMap_eq_nil_iff]
      intro s inRange
      simp [slotFrames, isFreed, none s (mem_range.mp inRange)]
    rw [teardownFrames, walked]
    exact List.Perm.refl _

lemma build_run (follows : Along (BuildStep pd) start run) : (Recoverable boot pd start →
      (Along (fun before op _ => EntersOnce before.1 pd op.vaddr) start run ∧ Recoverable boot pd (final start run)) ∨
      (¬Along (fun before op _ => EntersOnce before.1 pd op.vaddr) start run ∧ Lost boot pd (final start run))) ∧
    (Lost boot pd start → Lost boot pd (final start run)) := by
  induction run generalizing start with
  | nil => exact ⟨fun recoverable => .inl ⟨trivial, recoverable⟩, id⟩
  | cons taken rest ih =>
    obtain ⟨step, later⟩ := follows
    obtain ⟨fromRecoverable, fromLost⟩ := ih later
    refine ⟨fun recoverable => ?_, fun lost => fromLost (lost.step step)⟩
    by_cases guarded : EntersOnce start.1 pd taken.1.vaddr
    · rcases fromRecoverable (recoverable.step step guarded) with ⟨along, kept⟩ | ⟨along, lost⟩
      · exact .inl ⟨⟨guarded, along⟩, kept⟩
      · exact .inr ⟨fun both => along both.2, lost⟩
    · exact .inr ⟨fun both => guarded both.1, fromLost (recoverable.lose step guarded)⟩

lemma build_count (follows : Along (BuildStep pd) start run) :
    (final start run).1.pageDirectoryCount = start.1.pageDirectoryCount := by
  refine final_of_invariant
    (fun state : Vm × List Nat => state.1.pageDirectoryCount = start.1.pageDirectoryCount) ?_ rfl follows
  intro before op after counted step
  rw [step.exec]
  exact (pagingMap_count ..).trans counted

lemma handedOut_length (ops : List DirectoryOp) (state : Vm × Shmem) :
    (handedOut state ops).length ≤ maxPageDirs - state.1.pageDirectoryCount := by
  obtain ⟨past, distinct⟩ := handedOut_past ops state
  have inside : handedOut state ops ⊆
      range' state.1.pageDirectoryCount (maxPageDirs - state.1.pageDirectoryCount) := by
    intro pd mem
    have bound := past pd mem
    rw [mem_range'_1]
    omega
  simpa using (subperm_of_subset distinct inside).length_le

/--
Freeing an address space never makes its directory available again, whatever is called later.

The allocator is back where it was exactly when no table of the address space was entered twice.
-/
theorem teardown_loses_directory {boot vm : Vm} {pd : Nat} (kernel : LargeKernel boot)
    (created : pagingCreateUserDirectory boot = (vm, some pd))
    {run : List (BuildOp × (Vm × List Nat))} (follows : Along (BuildStep pd) (vm, []) run)
    {shmem : Shmem} {pid : Nat} (detached : Detached shmem pid) {freed : Vm} {later : Shmem}
    (teardown : processFreeAddressSpace (final (vm, []) run).1 shmem pid (some pd) =
      (freed, later, none)) :
    (∀ ops, pd ∉ handedOut (freed, later) ops ∧
      (handedOut (freed, later) ops).length < maxPageDirs) ∧
    (SameFrames boot.pmem freed.pmem ↔
      Along (fun before op _ => EntersOnce before.1 pd op.vaddr) (vm, []) run) := by
  obtain ⟨top, second, first, made⟩ := pagingCreateUserDirectory_ok kernel.clean kernel.held created
  obtain ⟨freedEq, _⟩ := processFreeAddressSpace_detached detached teardown
  have counted : freed.pageDirectoryCount = pd + 1 := by
    rw [freedEq, ← made.pageDirectoryCount, ← build_count follows]
  constructor
  · intro ops
    have fits := handedOut_length ops (freed, later)
    refine ⟨fun again => ?_, ?_⟩
    · have past := ((handedOut_past ops (freed, later)).1 pd again).1
      dsimp only at past
      omega
    · simp only [maxPageDirs] at fits ⊢
      omega
  · have released : freed.pmem = (final (vm, []) run).1.pmem.derefFrames
        (teardownFrames (final (vm, []) run).1 pd) := by rw [freedEq]
    rw [released]
    rcases (build_run follows).1 (made.recoverable kernel) with ⟨along, kept⟩ | ⟨along, lost⟩
    · obtain ⟨users, tables, ledger, _, walked⟩ := kept
      exact ⟨fun _ => along, fun _ => ledger.lent.giveAllBack walked⟩
    · exact ⟨fun same => absurd same lost.not_sameFrames, fun all => absurd all along⟩

/-- The segment tables before any segment exists. -/
def noShmem : Shmem := ⟨fun _ => .cleared, fun _ => ⟨false, 0, 0, 0⟩⟩

lemma noShmem_detached (pid : Nat) : Detached noShmem pid := by
  intro i _ attached
  exact absurd attached.1 (by simp [noShmem])

lemma processFreeAddressSpace_noShmem (vm : Vm) (pid pd : Nat) :
    ∃ freed, processFreeAddressSpace vm noShmem pid (some pd) = (freed, noShmem, none) := by
  simp only [processFreeAddressSpace]
  exact ⟨_, rfl⟩

/-- Mapping one page below 2 MiB and freeing brings the allocator back, and loses the directory. -/
theorem teardown_loses_directory_once : ∃ vm, pagingCreateUserDirectory bootVm = (vm, some 1) ∧
    ∃ freed, processFreeAddressSpace (pagingMap (allocFrame vm).1 1 0x1000
        (BitVec.ofNat 64 (allocFrame vm).2) 0x7) noShmem 1 (some 1) = (freed, noShmem, none) ∧
      (∀ ops, 1 ∉ handedOut (freed, noShmem) ops) ∧ SameFrames bootVm.pmem freed.pmem := by
  obtain ⟨vm, created, returned, served⟩ : ∃ vm, pagingCreateUserDirectory bootVm = (vm, some 1) ∧
      (allocFrame vm).2 ≠ 0 ∧ (allocPageTable (allocFrame vm).1).2 ≠ 0 := ⟨bootUser, bootVm_creates, by decide +kernel⟩
  obtain ⟨freed, teardown⟩ := processFreeAddressSpace_noShmem (pagingMap (allocFrame vm).1 1 0x1000
    (BitVec.ofNat 64 (allocFrame vm).2) 0x7) 1 1
  have step : BuildStep 1 (vm, []) ⟨0x1000, 0x7⟩ _ :=
    ⟨by decide, by simp, ⟨by decide, by decide⟩, returned, .inr served, rfl⟩
  have follows : Along (BuildStep 1) (vm, []) [(_, _)] := ⟨step, trivial⟩
  have loses := teardown_loses_directory bootVm_largeKernel created follows (noShmem_detached 1) teardown
  exact ⟨vm, created, freed, teardown, fun ops => (loses.1 ops).1,
    loses.2.mpr ⟨fun _ => .inl (by decide), trivial⟩⟩

/-- A directory that is created and freed at once is never handed out again. -/
theorem teardown_keeps_slot : ∃ vm, pagingCreateUserDirectory bootVm = (vm, some 1) ∧
    ∃ freed, processFreeAddressSpace vm noShmem 1 (some 1) = (freed, noShmem, none) ∧
      ∀ ops, 1 ∉ handedOut (freed, noShmem) ops := by
  obtain ⟨top, second, first, made⟩ := bootVm_made bootVm_creates
  obtain ⟨freed, teardown⟩ := processFreeAddressSpace_noShmem bootUser 1 1
  obtain ⟨freedEq, _⟩ := processFreeAddressSpace_detached (noShmem_detached 1) teardown
  refine ⟨bootUser, bootVm_creates, freed, teardown, fun ops again => ?_⟩
  have past := ((handedOut_past ops (freed, noShmem)).1 1 again).1
  have counted : freed.pageDirectoryCount = 2 := by rw [freedEq]; exact made.pageDirectoryCount
  dsimp only at past
  omega

end Galio

import Galio.Mm.PagingSteps

/-! Where a directory's tables lie, and how mapping and unmapping change its entries. -/

namespace Galio

variable {i s : Nat}

/-- The directory entry of a slot, which the processor's walk follows. -/
def Vm.link (vm : Vm) (pd slot : Nat) : Word :=
  vm.readWord (vm.pool pd).pageDirectory slot

/-- The entry at an index of the table a slot names. -/
def Vm.leaf (vm : Vm) (pd slot index : Nat) : Word :=
  vm.readWord ((vm.pool pd).tables slot) index

/-- The tables of a directory, each named by one slot or more, are frames in use apart from its directories. -/
structure TableLayout (vm : Vm) (pd : Nat) : Prop where
  clean : vm.pmem.Clean
  rooted : (vm.pool pd).pageDirectory ≠ 0
  directoryUsed : ∀ j, j < 4 →
    vm.pmem.frameBitmap ((vm.pool pd).pageDirectory / frameSize + j) = true
  aligned : ∀ s, s < pageTableSlots →
    (vm.pool pd).tables s / frameSize * frameSize = (vm.pool pd).tables s
  tableUsed : ∀ s, s < pageTableSlots → (vm.pool pd).tables s ≠ 0 →
    vm.pmem.frameBitmap ((vm.pool pd).tables s / frameSize) = true
  apart : ∀ s, s < pageTableSlots → (vm.pool pd).tables s ≠ 0 → ∀ j, j < 4 →
    (vm.pool pd).tables s / frameSize ≠ (vm.pool pd).pageDirectory / frameSize + j

lemma readWord_small (vm : Vm) (table : Nat) (inTable : i < 512) :
    vm.readWord table i = vm.mem (table / frameSize) i := by
  rw [Vm.readWord, Nat.div_eq_of_lt inTable, Nat.mod_eq_of_lt inTable, Nat.add_zero]

variable {before after : Vm} {pd slot frame : Nat}

section NewTable

variable {link : Word}

section

variable (made : NewTable before after pd slot frame link)
include made

lemma NewTable.ne_of_used {other : Nat} (used : before.pmem.frameBitmap other) : other ≠ frame := by
  rintro rfl
  rw [made.free.clear] at used
  exact absurd used (by decide)

lemma NewTable.link_eq (layout : TableLayout before pd)
    (below : s < pageTableSlots) : after.link pd s = if s = slot then link else before.link pd s := by
  have used := made.ne_of_used (layout.directoryUsed (s / 512) (slot_div_lt below))
  rw [Vm.link, Vm.link, Vm.readWord, Vm.readWord, made.pageDirectory, made.mem, if_neg used]
  by_cases same : s = slot
  · simp [same]
  · rw [if_neg same, if_neg]
    omega

lemma NewTable.layout (layout : TableLayout before pd) : TableLayout after pd where
  clean := by rw [made.pmem]; exact layout.clean.refFrames _
  rooted := by rw [made.pageDirectory]; exact layout.rooted
  directoryUsed := fun j below => by
    rw [made.pageDirectory, made.pmem, frameBitmap_take layout.clean made.free,
      layout.directoryUsed j below, Bool.true_or]
  aligned := fun s below => by
    rw [made.tables]
    split
    · rw [address_div]
    · exact layout.aligned s below
  tableUsed := fun s below present => by
    rw [made.pmem, frameBitmap_take layout.clean made.free]
    rw [made.tables] at present ⊢
    split
    · simp [address_div]
    · rename_i old
      rw [if_neg old] at present
      rw [layout.tableUsed s below present, Bool.true_or]
  apart := fun s below present j inFour => by
    rw [made.pageDirectory]
    rw [made.tables] at present ⊢
    split
    · rw [address_div]
      exact (made.ne_of_used (layout.directoryUsed j inFour)).symm
    · rename_i old
      rw [if_neg old] at present
      exact layout.apart s below present j inFour

end

end NewTable

variable {vm : Vm} {index : Nat}

section Leaf

variable (layout : TableLayout vm pd) (inSlot : slot < pageTableSlots) (inTable : index < 512) (value : Word)

include layout inSlot inTable

lemma TableLayout.link_write (present : (vm.pool pd).tables slot ≠ 0) (below : s < pageTableSlots) :
    (vm.writeWord ((vm.pool pd).tables slot) index value).link pd s = vm.link pd s := by
  have apart := layout.apart slot inSlot present (s / 512) (slot_div_lt below)
  rw [Vm.link, Vm.link, writeWord_pool, readWord_writeWord, if_neg]
  omega

lemma TableLayout.leaf_write (below : s < pageTableSlots) (small : i < 512) :
    (vm.writeWord ((vm.pool pd).tables slot) index value).leaf pd s i =
      if (vm.pool pd).tables s = (vm.pool pd).tables slot ∧ i = index then value else vm.leaf pd s i := by
  rw [Vm.leaf, Vm.leaf, writeWord_pool, readWord_writeWord, Nat.div_eq_of_lt inTable,
    Nat.div_eq_of_lt small, Nat.mod_eq_of_lt inTable, Nat.mod_eq_of_lt small, Nat.add_zero,
    Nat.add_zero]
  -- Tables are whole frames, so they are equal when their frames are.
  have same : (vm.pool pd).tables s / frameSize = (vm.pool pd).tables slot / frameSize ↔
      (vm.pool pd).tables s = (vm.pool pd).tables slot := by
    constructor
    · intro frames
      rw [← layout.aligned s below, ← layout.aligned slot inSlot, frames]
    · intro tables
      rw [tables]
  simp only [same]

end Leaf

lemma TableLayout.write (layout : TableLayout vm pd) (table index : Nat)
    (value : Word) : TableLayout (vm.writeWord table index value) pd :=
  { layout with }

variable {mid : Vm}

section MapAbsent

variable {link : Word} (layout : TableLayout before pd) (made : NewTable before mid pd slot frame link)

include made

lemma NewTable.tables_old (other : (mid.pool pd).tables s ≠ frame * frameSize) :
    (mid.pool pd).tables s = (before.pool pd).tables s := by
  have slots := made.tables s
  split at slots
  · exact absurd slots other
  · exact slots

lemma NewTable.tables_kept (absent : (before.pool pd).tables slot = 0) (present : (before.pool pd).tables s ≠ 0) :
    (mid.pool pd).tables s = (before.pool pd).tables s := by
  rw [made.tables, if_neg]
  rintro (rfl | ⟨_, rfl, empty⟩)
  · exact present absent
  · exact present empty

lemma NewTable.tables_ne_zero (absent : (before.pool pd).tables slot = 0) :
    (mid.pool pd).tables s ≠ 0 ↔ (before.pool pd).tables s ≠ 0 ∨
      (before.pool pd).tables slot = 0 ∧ (s = slot ∨ s = slot / 2) := by
  by_cases present : (before.pool pd).tables s = 0
  · rw [made.tables]
    split
    · rename_i new
      have half : s = slot ∨ s = slot / 2 := new.imp_right fun half => half.2.1
      simp [made.free.address_ne_zero, absent, half]
    · rename_i old
      have apart : ¬(s = slot ∨ s = slot / 2) := by
        rintro (rfl | rfl)
        · exact old (.inl rfl)
        · by_cases zero : slot = 0
          · exact old (.inl (by rw [zero]))
          · exact old (.inr ⟨zero, rfl, present⟩)
      simp [apart]
  · simp [made.tables_kept absent present, present]

include layout

lemma NewTable.names_new (below : s < pageTableSlots) (own : (mid.pool pd).tables s = frame * frameSize) :
    s = slot ∨ (slot ≠ 0 ∧ s = slot / 2 ∧ (before.pool pd).tables (slot / 2) = 0) := by
  by_contra old
  rw [made.tables, if_neg old] at own
  have kept : (before.pool pd).tables s ≠ 0 := by rw [own]; exact made.free.address_ne_zero
  have used := made.ne_of_used (layout.tableUsed s below kept)
  rw [own, address_div] at used
  exact absurd rfl used

lemma NewTable.leaf_eq (inSlot : slot < pageTableSlots) (below : s < pageTableSlots) (small : i < 512)
    (present : (mid.pool pd).tables s ≠ 0) : mid.leaf pd s i =
      if (mid.pool pd).tables s = frame * frameSize then 0 else before.leaf pd s i := by
  rw [Vm.leaf, readWord_small _ _ small, made.mem]
  by_cases own : (mid.pool pd).tables s = frame * frameSize
  · have used := made.ne_of_used (layout.directoryUsed (slot / 512) (slot_div_lt inSlot))
    rw [if_pos own, own, address_div, if_neg (fun same => used same.1.symm), if_pos rfl]
  · have old := made.tables_old own
    rw [old] at present
    have used := made.ne_of_used (layout.tableUsed s below present)
    have apart := layout.apart s below present (slot / 512) (slot_div_lt inSlot)
    rw [if_neg own, old, if_neg (fun same => apart same.1), if_neg used, Vm.leaf, readWord_small _ _ small]

end MapAbsent

/-- No two slots name one table. -/
def SingleSlots (vm : Vm) (pd : Nat) : Prop :=
  ∀ s, s < pageTableSlots → ∀ other, other < pageTableSlots → (vm.pool pd).tables s ≠ 0 →
    (vm.pool pd).tables s = (vm.pool pd).tables other → s = other

section SingleEntry

variable {link : Word} (layout : TableLayout before pd) (made : NewTable before mid pd slot frame link)
  (guarded : slot = 0 ∨ (before.pool pd).tables (slot / 2) ≠ 0)

include layout made guarded

lemma NewTable.names_self (below : s < pageTableSlots)
    (named : (mid.pool pd).tables s = frame * frameSize) : s = slot := by
  rcases made.names_new layout below named with same | ⟨positive, _, empty⟩
  · exact same
  · rcases guarded with zero | taken
    · exact absurd zero positive
    · exact absurd empty taken

lemma NewTable.singleSlots (single : SingleSlots before pd) : SingleSlots mid pd := by
  intro s below other below' named shared
  by_cases new : (mid.pool pd).tables s = frame * frameSize
  · rw [made.names_self layout guarded below new, made.names_self layout guarded below' (shared ▸ new)]
  · have old := made.tables_old new
    have old' := made.tables_old (shared ▸ new : (mid.pool pd).tables other ≠ _)
    exact single s below other below' (old ▸ named) (by rw [← old, ← old', shared])

end SingleEntry

section

variable (same : SameBesidesTables before after pd)
include same

lemma SameBesidesTables.link (s : Nat) : after.link pd s = before.link pd s := by
  rw [Vm.link, Vm.link, Vm.readWord, Vm.readWord, same.pageDirectory, same.mem]

lemma SameBesidesTables.leaf (kept : (after.pool pd).tables s = (before.pool pd).tables s) (i : Nat) :
    after.leaf pd s i = before.leaf pd s i := by
  rw [Vm.leaf, Vm.leaf, kept, Vm.readWord, Vm.readWord, same.mem]

lemma SameBesidesTables.layout (layout : TableLayout before pd)
    (fewer : ∀ s, (after.pool pd).tables s = 0 ∨ (after.pool pd).tables s = (before.pool pd).tables s) :
    TableLayout after pd where
  clean := by rw [same.pmem]; exact layout.clean
  rooted := by rw [same.pageDirectory]; exact layout.rooted
  directoryUsed := fun j below => by
    rw [same.pageDirectory, same.pmem]; exact layout.directoryUsed j below
  aligned := fun s below => by
    rcases fewer s with none | kept
    · rw [none, Nat.zero_div, Nat.zero_mul]
    · rw [kept]; exact layout.aligned s below
  tableUsed := fun s below present => by
    have kept := (fewer s).resolve_left present
    rw [kept] at present ⊢
    rw [same.pmem]
    exact layout.tableUsed s below present
  apart := fun s below present => by
    have kept := (fewer s).resolve_left present
    rw [kept] at present ⊢
    rw [same.pageDirectory]
    exact layout.apart s below present

end

/-- The calls that change a directory's translations. -/
inductive PagingOp
  | map (vaddr : Nat) (paddr flags : Word)
  | unmap (vaddr : Nat)

/-- The address a call is about. -/
def PagingOp.vaddr : PagingOp → Nat
  | .map vaddr _ _ => vaddr
  | .unmap vaddr => vaddr

/-- Carrying out a call. -/
def PagingOp.exec (pd : Nat) (vm : Vm) : PagingOp → Vm
  | .map vaddr paddr flags => pagingMap vm pd vaddr paddr flags
  | .unmap vaddr => pagingUnmap vm pd vaddr

/-- A mapping finds the table of its slot, or a frame to make one. -/
def PagingOp.HasTable (pd : Nat) (vm : Vm) : PagingOp → Prop
  | .map vaddr _ _ => (vm.pool pd).tables (getTableSlot vaddr) ≠ 0 ∨ (allocPageTable vm).2 ≠ 0
  | .unmap _ => True

/-- Mapping the address makes no table, or one entered at its own slot only. -/
def EntersOnce (vm : Vm) (pd vaddr : Nat) : Prop :=
  (vm.pool pd).tables (getTableSlot vaddr) = 0 →
    getTableSlot vaddr = 0 ∨ (vm.pool pd).tables (legacySlot vaddr) ≠ 0

/-- A call below 4 GiB whose table allocation, if it needs one, succeeds. -/
structure PagingStep (pd : Nat) (before : Vm) (op : PagingOp) (after : Vm) : Prop where
  low : op.vaddr < 2 ^ 32
  hasTable : op.HasTable pd before
  exec : after = op.exec pd before

lemma TableLayout.step {op : PagingOp} (layout : TableLayout before pd)
    (step : PagingStep pd before op after) : TableLayout after pd := by
  obtain ⟨low, hasTable, rfl⟩ := step
  cases op with
  | map vaddr paddr flags =>
    change vaddr < 2 ^ 32 at low
    show TableLayout (pagingMap before pd vaddr paddr flags) pd
    obtain ⟨mid, _, written, found⟩ := pagingMap_cases paddr flags low layout.rooted hasTable
    rw [written]
    rcases found with rfl | ⟨_, frame, made⟩
    · exact layout.write ..
    · exact (made.layout layout).write ..
  | unmap vaddr =>
    change vaddr < 2 ^ 32 at low
    show TableLayout (pagingUnmap before pd vaddr) pd
    rcases pagingUnmap_cases before pd low with ⟨_, unchanged⟩ | ⟨_, same, slots⟩
    · rw [unchanged]
      exact layout
    · refine same.layout (layout.write ..) fun s => ?_
      have slot := slots s
      split at slot
      · exact .inl slot
      · exact .inr slot

/-- The kernel's map is made of 2 MiB pages in memory that is in use. -/
structure LargeKernel (vm : Vm) : Prop where
  clean : vm.pmem.Clean
  held : KernelHeld vm
  large : ∀ s, s < pageTableSlots → isPresent (kernelEntry vm s) = true →
    isLarge (kernelEntry vm s) = true

lemma LargeKernel.kernelTable_eq (kernel : LargeKernel vm) (below : s < pageTableSlots) : kernelTable vm s = 0 := by
  unfold kernelTable
  split
  · rfl
  rw [if_neg]
  intro small
  simp only [Bool.and_eq_true] at small
  rw [kernel.large s below small.1] at small
  exact absurd small.2 (by decide)

variable {top second first : Nat}

lemma Created.link {entries : Nat → Word}
    {tables : Nat → Nat} (made : Created before after pd top second first entries tables)
    (below : s < pageTableSlots) : after.link pd s = entries s := by
  rw [Vm.link, made.pageDirectory, made.entries s below]

section UserDirectory

variable (kernel : LargeKernel vm) (made : Created vm after pd top second first (kernelEntry vm) (kernelTable vm))

include kernel made

lemma Created.no_tables (below : s < pageTableSlots) : (after.pool pd).tables s = 0 := by
  rw [made.tables s below, kernel.kernelTable_eq below]

lemma Created.layout : TableLayout after pd where
  clean := by rw [made.pmem]; exact kernel.clean.refFrames _
  rooted := by
    rw [made.pageDirectory]
    exact (made.free first (by simp [directoryFrames])).address_ne_zero
  directoryUsed := fun j below => by
    have listed : first + j ∈ directoryFrames top second first := by
      simp [directoryFrames, below]
    rw [made.pageDirectory, address_div, made.pmem, kernel.clean.frameBitmap_refFrames]
    simp [listed, (made.free _ listed).tracked]
  aligned := fun s below => by rw [made.no_tables kernel below, Nat.zero_div, Nat.zero_mul]
  tableUsed := fun s below present => absurd (made.no_tables kernel below) present
  apart := fun s below present => absurd (made.no_tables kernel below) present

end UserDirectory

end Galio

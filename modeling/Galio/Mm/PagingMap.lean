import Galio.Mm.Boot

/-! A user directory as a finite map from pages to frames. -/

namespace Galio

open Function

open Transition

variable {s i vaddr : Nat} {vm : Vm} {translation : Translation}

/-- The abstract directory: the frame each mapped page translates to. -/
abbrev Translation := Nat → Option Word

/-- The directory that maps nothing. -/
def Translation.empty : Translation := fun _ => none

/-- What a call means for the abstract directory. -/
def PagingOp.apply (translation : Translation) : PagingOp → Translation
  | .map vaddr paddr _ => Function.update translation (vaddr / pageSize) (some (paddr &&& frameMask))
  | .unmap vaddr => Function.update translation (vaddr / pageSize) none

/-- The physical address under the abstract directory, zero when not mapped. -/
def Translation.physical (translation : Translation) (addr : Nat) : Word :=
  match translation (addr / pageSize) with
  | none => 0
  | some frame => frame ||| BitVec.ofNat 64 (addr % 4096)

/-- The directory answers every address below 4 GiB as the abstract one does. -/
def Translates (pd : Nat) (state : Vm × Translation) : Prop :=
  ∀ addr, addr < 2 ^ 32 → pagingGetPhysical state.1 pd addr = state.2.physical addr

/-- A mapping names a frame below 4 GiB and is present. -/
def PagingOp.Maps : PagingOp → Prop
  | .map _ paddr flags => paddr.toNat < 2 ^ 32 ∧ isPresent flags = true
  | .unmap _ => True

/-- A call on the directory together with its meaning for the abstract one. -/
structure TranslationStep (pd : Nat) (before : Vm × Translation) (op : PagingOp)
    (after : Vm × Translation) : Prop where
  step : PagingStep pd before.1 op after.1
  maps : op.Maps
  meaning : after.2 = op.apply before.2

/-- No table is made and entered under a second slot. -/
def PagingOp.SingleEntry (pd : Nat) (vm : Vm) : PagingOp → Prop
  | .map vaddr _ _ => EntersOnce vm pd vaddr
  | .unmap _ => True

/-- What the entry at a slot and index translates to. -/
def Vm.translated (vm : Vm) (pd slot index : Nat) : Option Word :=
  if (vm.pool pd).tables slot = 0 then none
  else if isPresent (vm.leaf pd slot index) then some (vm.leaf pd slot index &&& frameMask)
  else none

/-- Each table is named by one slot, and the entries hold the abstract directory. -/
structure MapInvariant (pd : Nat) (state : Vm × Translation) : Prop where
  layout : TableLayout state.1 pd
  single : SingleSlots state.1 pd
  content : ∀ s, s < pageTableSlots → ∀ i, i < 512 →
    state.2 (s * 512 + i) = state.1.translated pd s i

lemma pagingGetPhysical_eq (vm : Vm) (pd addr : Nat) : pagingGetPhysical vm pd addr =
      match vm.translated pd (getTableSlot addr) (getPageTableIndex addr) with
      | none => 0
      | some frame => frame ||| BitVec.ofNat 64 (addr % 4096) := by
  unfold pagingGetPhysical getPageEntry Vm.translated Vm.leaf
  by_cases absent : (vm.pool pd).tables (getTableSlot addr) = 0
  · simp [absent]
  simp only [absent]
  by_cases present :
      isPresent (vm.readWord ((vm.pool pd).tables (getTableSlot addr)) (getPageTableIndex addr))
  · simp [present]
  · simp [present]

variable {pd : Nat}

lemma MapInvariant.translates {state : Vm × Translation}
    (invariant : MapInvariant pd state) : Translates pd state := by
  intro addr low
  rw [pagingGetPhysical_eq, Translation.physical, page_eq low,
    invariant.content _ (getTableSlot_lt low) _ (getPageTableIndex_lt addr)]

lemma page_inj {s' i' : Nat} (small : i < 512) (small' : i' < 512) :
    s * 512 + i = s' * 512 + i' ↔ s = s' ∧ i = i' := by
  omega

lemma update_page (translation : Translation) (value : Option Word) (low : vaddr < 2 ^ 32) (small : i < 512) :
    update translation (vaddr / pageSize) value (s * 512 + i) =
      if s = getTableSlot vaddr ∧ i = getPageTableIndex vaddr then value else translation (s * 512 + i) := by
  rw [page_eq low, update_apply]
  simp only [page_inj small (getPageTableIndex_lt vaddr)]

/-- What a written entry translates to. -/
def translatedEntry (entry : Word) : Option Word :=
  if isPresent entry then some (entry &&& frameMask) else none

variable {slot index : Nat}

lemma SingleSlots.translated_write (single : SingleSlots vm pd)
    (layout : TableLayout vm pd) (inSlot : slot < pageTableSlots) (inTable : index < 512)
    (present : (vm.pool pd).tables slot ≠ 0) (value : Word) (below : s < pageTableSlots) (small : i < 512) :
    (vm.writeWord ((vm.pool pd).tables slot) index value).translated pd s i =
      if s = slot ∧ i = index then translatedEntry value else vm.translated pd s i := by
  rw [Vm.translated, Vm.translated, layout.leaf_write inSlot inTable value below small, writeWord_pool]
  by_cases absent : (vm.pool pd).tables s = 0
  · have other : s ≠ slot := by rintro rfl; exact present absent
    simp [absent, other]
  · have named : (vm.pool pd).tables s = (vm.pool pd).tables slot ↔ s = slot :=
      ⟨single s below slot inSlot absent, fun same => by rw [same]⟩
    simp only [named, absent]
    by_cases written : s = slot ∧ i = index
    · simp [written, translatedEntry]
    · simp [written]

section NewTable

variable {before mid : Vm} {frame : Nat} {link : Word} (layout : TableLayout before pd)
  (made : NewTable before mid pd slot frame link) (guarded : slot = 0 ∨ (before.pool pd).tables (slot / 2) ≠ 0)

include layout made guarded

lemma NewTable.translated_eq (inSlot : slot < pageTableSlots) (absent : (before.pool pd).tables slot = 0)
    (below : s < pageTableSlots) (small : i < 512) : mid.translated pd s i = before.translated pd s i := by
  unfold Vm.translated
  by_cases own : s = slot
  · subst own
    have named : (mid.pool pd).tables s ≠ 0 := by rw [made.tables_self]; exact made.free.address_ne_zero
    rw [made.leaf_eq layout inSlot below small named, if_pos made.tables_self, if_pos absent]
    simp
  · have other : (mid.pool pd).tables s ≠ frame * frameSize :=
      fun named => own (made.names_self layout guarded below named)
    have old := made.tables_old other
    by_cases none : (before.pool pd).tables s = 0
    · simp [old, none]
    · rw [made.leaf_eq layout inSlot below small (old ▸ none), if_neg other, old]

end NewTable

variable {paddr flags : Word}

lemma MapInvariant.map (invariant : MapInvariant pd (vm, translation))
    (low : vaddr < 2 ^ 32) (hasTable : PagingOp.HasTable pd vm (.map vaddr paddr flags))
    (present : isPresent flags) (guarded : PagingOp.SingleEntry pd vm (.map vaddr paddr flags)) :
    MapInvariant pd (pagingMap vm pd vaddr paddr flags, PagingOp.apply translation (.map vaddr paddr flags)) := by
  obtain ⟨layout, single, content⟩ := invariant
  have step : PagingStep pd vm (.map vaddr paddr flags) (pagingMap vm pd vaddr paddr flags) :=
    ⟨low, hasTable, rfl⟩
  have laid := layout.step step
  have inSlot := getTableSlot_lt low
  have inTable := getPageTableIndex_lt vaddr
  have entry : translatedEntry ((paddr &&& frameMask) ||| (flags &&& pageFlags)) = some (paddr &&& frameMask) := by
    simp [translatedEntry, present]
  obtain ⟨mid, named, written, found⟩ := pagingMap_cases paddr flags low layout.rooted hasTable
  -- A table that is made shows nothing yet.
  obtain ⟨layout', single', content'⟩ : MapInvariant pd (mid, translation) := by
    rcases found with rfl | ⟨absent, frame, made⟩
    · exact ⟨layout, single, content⟩
    · have allowed := guarded absent
      rw [legacySlot_eq low] at allowed
      refine ⟨made.layout layout, made.singleSlots layout allowed single, fun s below i small => ?_⟩
      exact (content s below i small).trans (made.translated_eq layout allowed inSlot absent below small).symm
  refine ⟨laid, by rw [written]; exact single', fun s below i small => ?_⟩
  simp only [PagingOp.apply]
  rw [update_page translation _ low small, written,
    SingleSlots.translated_write single' layout' inSlot inTable named _ below small, entry]
  split
  · rfl
  · exact content' s below i small

lemma MapInvariant.unmap (invariant : MapInvariant pd (vm, translation)) (low : vaddr < 2 ^ 32) :
    MapInvariant pd (pagingUnmap vm pd vaddr, PagingOp.apply translation (.unmap vaddr)) := by
  obtain ⟨layout, single, content⟩ := invariant
  have step : PagingStep pd vm (.unmap vaddr) (pagingUnmap vm pd vaddr) := ⟨low, trivial, rfl⟩
  have laid := layout.step step
  have inSlot := getTableSlot_lt low
  have inTable := getPageTableIndex_lt vaddr
  rcases pagingUnmap_cases vm pd low with ⟨absent, unchanged⟩ | ⟨present, same, slots⟩
  · refine ⟨laid, by rw [unchanged]; exact single, fun s below i small => ?_⟩
    simp only [PagingOp.apply]
    rw [update_page translation _ low small, unchanged]
    split
    · rename_i page
      simp [Vm.translated, page.1, absent]
    · exact content s below i small
  · -- The table has no second slot, so none is withdrawn.
    have kept : ∀ s < pageTableSlots,
        ((pagingUnmap vm pd vaddr).pool pd).tables s = (vm.pool pd).tables s := by
      intro s below
      rw [slots, if_neg]
      rintro ⟨positive, half, shared⟩
      have self := single _ inSlot s below present shared.symm
      omega
    refine ⟨laid, ?_, fun s below i small => ?_⟩
    · intro s below other below' named shared
      rw [kept s below] at named shared
      rw [kept other below'] at shared
      exact single s below other below' named shared
    · simp only [PagingOp.apply]
      rw [update_page translation _ low small, Vm.translated, kept s below, same.leaf (kept s below)]
      have cleared := SingleSlots.translated_write single layout inSlot inTable present 0 below small
      rw [Vm.translated, writeWord_pool] at cleared
      rw [cleared]
      split
      · rfl
      · exact content s below i small

lemma second_byte (inSlot : s < pageTableSlots) (inTable : i < 512) :
    pageAddress s i + 1 < 2 ^ 32 ∧ getTableSlot (pageAddress s i + 1) = s ∧
      getPageTableIndex (pageAddress s i + 1) = i ∧ (pageAddress s i + 1) % 4096 = 1 := by
  have low : pageAddress s i + 1 < 2 ^ 32 := by
    simp only [pageAddress, pageTableSlots] at *
    omega
  rw [getTableSlot_eq low]
  simp only [pageAddress, getPageTableIndex] at *
  omega

lemma or_one_ne_zero (word : Word) : word ||| BitVec.ofNat 64 1 ≠ 0 := by
  intro zero
  have bit := congrArg (fun w => w.getLsbD 0) zero
  simp at bit

/-- A table entered under a second slot is seen at an address that was never mapped. -/
theorem MapInvariant.broken (invariant : MapInvariant pd (vm, translation))
    (low : vaddr < 2 ^ 32) (hasTable : PagingOp.HasTable pd vm (.map vaddr paddr flags))
    (present : isPresent flags) (unguarded : ¬PagingOp.SingleEntry pd vm (.map vaddr paddr flags)) :
    ¬Translates pd (pagingMap vm pd vaddr paddr flags, PagingOp.apply translation (.map vaddr paddr flags)) := by
  obtain ⟨layout, _, content⟩ := invariant
  have inSlot := getTableSlot_lt low
  have inTable := getPageTableIndex_lt vaddr
  simp only [PagingOp.SingleEntry, EntersOnce, Classical.not_imp, not_or, not_not] at unguarded
  obtain ⟨absent, positive, empty⟩ := unguarded
  rw [legacySlot_eq low] at empty
  obtain ⟨mid, named, written, found⟩ := pagingMap_cases paddr flags low layout.rooted hasTable
  rcases found with rfl | ⟨_, frame, made⟩
  · exact absurd absent named
  · -- The second slot is half the first, and its page at the same index shows the new entry.
    have below : getTableSlot vaddr / 2 < pageTableSlots := by omega
    have second : (mid.pool pd).tables (getTableSlot vaddr / 2) = (mid.pool pd).tables (getTableSlot vaddr) := by
      rw [made.tables_self, made.tables, if_pos (.inr ⟨positive, rfl, empty⟩)]
    have leaf := (made.layout layout).leaf_write inSlot inTable
      ((paddr &&& frameMask) ||| (flags &&& pageFlags)) below inTable
    rw [if_pos ⟨second, rfl⟩] at leaf
    rw [← second] at named
    obtain ⟨lowByte, slotOf, indexOf, offset⟩ := second_byte below inTable
    have shown : (pagingMap vm pd vaddr paddr flags).translated pd (getTableSlot vaddr / 2)
        (getPageTableIndex vaddr) =
        some (((paddr &&& frameMask) ||| (flags &&& pageFlags)) &&& frameMask) := by
      rw [written, Vm.translated, writeWord_pool, leaf, if_neg named, isPresent_build, if_pos present]
    have unmapped : PagingOp.apply translation (.map vaddr paddr flags)
        (getTableSlot vaddr / 2 * 512 + getPageTableIndex vaddr) = none := by
      simp only [PagingOp.apply]
      rw [update_page translation _ low inTable, if_neg (by omega)]
      exact (content _ below _ inTable).trans (if_pos empty)
    generalize pageAddress (getTableSlot vaddr / 2) (getPageTableIndex vaddr) + 1 = addr at *
    have concrete : pagingGetPhysical (pagingMap vm pd vaddr paddr flags) pd addr =
        (((paddr &&& frameMask) ||| (flags &&& pageFlags)) &&& frameMask) ||| BitVec.ofNat 64 1 := by
      rw [pagingGetPhysical_eq, slotOf, indexOf, offset, shown]
    have abstract :
        (PagingOp.apply translation (.map vaddr paddr flags)).physical addr = 0 := by
      rw [Translation.physical, page_eq lowByte, slotOf, indexOf, unmapped]
    intro translates
    exact or_one_ne_zero _ (concrete.symm.trans ((translates addr lowByte).trans abstract))

/--
A user directory behaves as a finite map throughout a run exactly when no table gets a second slot.

The run starts from a new user directory over a kernel of 2 MiB pages.
-/
theorem user_directory_translates_iff {boot vm : Vm} {pd : Nat} (kernel : LargeKernel boot)
    (created : pagingCreateUserDirectory boot = (vm, some pd))
    {run : List (PagingOp × (Vm × Translation))}
    (follows : Along (TranslationStep pd) (vm, Translation.empty) run) :
    Visits (Translates pd) (vm, Translation.empty) run ↔
      Along (fun before op _ => PagingOp.SingleEntry pd before.1 op) (vm, Translation.empty) run := by
  obtain ⟨top, second, first, made⟩ := pagingCreateUserDirectory_ok kernel.clean kernel.held created
  have start : MapInvariant pd (vm, Translation.empty) := by
    refine ⟨made.layout kernel, fun s below _ _ named => ?_, fun s below i _ => ?_⟩
    · exact absurd (made.no_tables kernel below) named
    · exact (if_pos (made.no_tables kernel below)).symm
  refine visits_iff_along (MapInvariant pd) (fun _ invariant => invariant.translates) ?_ ?_ start
    follows
  · rintro ⟨before, translation⟩ op ⟨after, meaning⟩ invariant ⟨⟨low, hasTable, executed⟩, maps, rfl⟩ guarded
    obtain rfl : after = op.exec pd before := executed
    cases op with
    | map vaddr paddr flags => exact invariant.map low hasTable maps.2 guarded
    | unmap vaddr => exact invariant.unmap low
  · rintro ⟨before, translation⟩ op ⟨after, meaning⟩ invariant ⟨⟨low, hasTable, executed⟩, maps, rfl⟩ unguarded
    obtain rfl : after = op.exec pd before := executed
    cases op with
    | map vaddr paddr flags => exact invariant.broken low hasTable maps.2 unguarded
    | unmap vaddr => exact absurd trivial unguarded

/-- Mapping a page below 2 MiB and unmapping it again leaves the directory a finite map. -/
theorem user_directory_translates_low : ∃ vm, pagingCreateUserDirectory bootVm = (vm, some 1) ∧
    Visits (Translates 1) (vm, Translation.empty)
      [(PagingOp.map 0x1000 0x2000000 0x7, (pagingMap vm 1 0x1000 0x2000000 0x7,
          PagingOp.apply Translation.empty (.map 0x1000 0x2000000 0x7))),
        (PagingOp.unmap 0x1000, (pagingUnmap (pagingMap vm 1 0x1000 0x2000000 0x7) 1 0x1000,
          PagingOp.apply (PagingOp.apply Translation.empty (.map 0x1000 0x2000000 0x7))
            (.unmap 0x1000)))] := by
  have served : (allocPageTable bootUser).2 ≠ 0 := by decide +kernel
  refine ⟨bootUser, bootVm_creates, (user_directory_translates_iff bootVm_largeKernel bootVm_creates ?_).mpr ?_⟩
  · exact ⟨⟨⟨by decide, .inr served, rfl⟩, ⟨by decide, by decide⟩, rfl⟩,
      ⟨⟨by decide, trivial, rfl⟩, trivial, rfl⟩, trivial⟩
  · exact ⟨fun _ => .inl (by decide), trivial, trivial⟩

/--
After the page at 1 GiB is mapped, the page at 512 MiB translates too, though it was never mapped.
-/
theorem user_directory_translates_twice : ∃ vm, pagingCreateUserDirectory bootVm = (vm, some 1) ∧
    TranslationStep 1 (vm, Translation.empty) (.map 0x40000000 0x2000000 0x7)
      (pagingMap vm 1 0x40000000 0x2000000 0x7,
        PagingOp.apply Translation.empty (.map 0x40000000 0x2000000 0x7)) ∧
    pagingGetPhysical (pagingMap vm 1 0x40000000 0x2000000 0x7) 1 0x20000000 = 0x2000000 ∧
    Translation.physical (PagingOp.apply Translation.empty (.map 0x40000000 0x2000000 0x7))
      0x20000000 = 0 := by
  have served : (allocPageTable bootUser).2 ≠ 0 := by decide +kernel
  refine ⟨bootUser, bootVm_creates, ⟨⟨by decide, .inr served, rfl⟩, ⟨by decide, by decide⟩, rfl⟩, ?_, by decide⟩
  decide +kernel

end Galio

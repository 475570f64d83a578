import Galio.Mm.Boot

/-! Validated user pages and the walk the processor makes for them. -/

namespace Galio

open Transition

variable {addr s pd vaddr : Nat} {vm : Vm}

/-- The slots of the addresses up to `USER_SPACE_END`. -/
def userSlots : Nat := 1536

/-- The processor's walk through a slot reaches the table the software consults for it. -/
structure Linked (vm : Vm) (pd slot : Nat) : Prop where
  present : isPresent (vm.link pd slot) = true
  user : isUser (vm.link pd slot) = true
  small : isLarge (vm.link pd slot) = false
  table : entryTable (vm.link pd slot) = (vm.pool pd).tables slot

/-- Every page of a validated range is one the processor reaches. -/
def WalkAgrees (pd : Nat) (vm : Vm) : Prop :=
  ∀ vaddr length write, length < 2 ^ 64 → pagingValidateUserRange vm pd vaddr length write = true →
    ∀ addr, vaddr ≤ addr → addr < vaddr + length → Linked vm pd (getTableSlot addr)

/-- Every slot through which a user page is visible is linked. -/
def EntriesLinked (pd : Nat) (vm : Vm) : Prop :=
  ∀ s, s < userSlots → ∀ i, i < 512 → (vm.pool pd).tables s ≠ 0 →
    isPresent (vm.leaf pd s i) = true → isUser (vm.leaf pd s i) = true → Linked vm pd s

lemma userSlot_lt (user : addr ≤ userSpaceEnd) : addr < 2 ^ 32 ∧ getTableSlot addr < userSlots := by
  simp only [userSpaceEnd] at user
  have low : addr < 2 ^ 32 := by omega
  refine ⟨low, ?_⟩
  rw [getTableSlot_eq low]
  simp only [userSlots]
  omega

lemma userSlots_lt (below : s < userSlots) : s < pageTableSlots :=
  Nat.lt_trans below (by decide)

variable {write : Bool}

lemma validatePage_iff {page : Nat} : validatePage vm pd page write ↔ (vm.pool pd).tables (getTableSlot page) ≠ 0 ∧
      isPresent (vm.leaf pd (getTableSlot page) (getPageTableIndex page)) ∧
      isUser (vm.leaf pd (getTableSlot page) (getPageTableIndex page)) ∧
      (write = false ∨ isWritable (vm.leaf pd (getTableSlot page) (getPageTableIndex page))) := by
  unfold validatePage getPageEntry Vm.leaf
  by_cases absent : (vm.pool pd).tables (getTableSlot page) = 0
  · simp [absent]
  · simp [absent, and_assoc]

lemma validated_page {length : Nat} (small : length < 2 ^ 64)
    (validated : pagingValidateUserRange vm pd vaddr length write)
    (above : vaddr ≤ addr) (below : addr < vaddr + length) :
    addr ≤ userSpaceEnd ∧ validatePage vm pd (addr / pageSize * pageSize) write := by
  unfold pagingValidateUserRange at validated
  rw [if_neg (by omega)] at validated
  by_cases kernelStart : isUserAddress vaddr = false
  · simp [kernelStart] at validated
  rw [if_neg (by simpa using kernelStart)] at validated
  by_cases wraps : (vaddr + length - 1) % 2 ^ 64 < vaddr ∨ (!isUserAddress ((vaddr + length - 1) % 2 ^ 64))
  · rw [if_pos wraps] at validated
    simp at validated
  · rw [if_neg wraps, List.all_eq_true] at validated
    have inside : vaddr ≤ (vaddr + length - 1) % 2 ^ 64 ∧ (vaddr + length - 1) % 2 ^ 64 ≤ userSpaceEnd := by
      simpa [isUserAddress] using wraps
    -- The range does not wrap, so its last byte is the sum.
    have last : (vaddr + length - 1) % 2 ^ 64 = vaddr + length - 1 := by omega
    rw [last] at validated inside
    refine ⟨by omega, ?_⟩
    have tested := validated (addr / pageSize - vaddr / pageSize) (by
      rw [List.mem_range]
      have upper : addr / pageSize ≤ (vaddr + length - 1) / pageSize :=
        Nat.div_le_div_right (by omega)
      omega)
    have lower : vaddr / pageSize ≤ addr / pageSize := Nat.div_le_div_right above
    rwa [pageAlignDown, ← Nat.add_mul,
      show vaddr / pageSize + (addr / pageSize - vaddr / pageSize) = addr / pageSize by omega]
      at tested

lemma validate_one (user : addr ≤ userSpaceEnd) (whole : addr / pageSize * pageSize = addr)
    (passes : validatePage vm pd addr false) : pagingValidateUserRange vm pd addr 1 false := by
  have last : (addr + 1 - 1) % 2 ^ 64 = addr := by
    simp only [userSpaceEnd] at user
    omega
  have isUser : isUserAddress addr := by simp [isUserAddress, user]
  simp only [pagingValidateUserRange, last, isUser]
  simp [pageAlignDown, whole, passes]

lemma walkAgrees_iff : WalkAgrees pd vm ↔ EntriesLinked pd vm := by
  constructor
  · intro agrees s below i inTable present shown user
    have inSlot := userSlots_lt below
    have slotOf := getTableSlot_pageAddress inSlot inTable
    have whole : pageAddress s i / pageSize * pageSize = pageAddress s i := by
      simp only [pageAddress, pageSize]
      omega
    have passes : validatePage vm pd (pageAddress s i) false := by
      rw [validatePage_iff, slotOf, getPageTableIndex_pageAddress inTable]
      exact ⟨present, shown, user, .inl rfl⟩
    have linked := agrees (pageAddress s i) 1 false (by decide)
      (validate_one (by simp only [userSlots, pageAddress, userSpaceEnd] at below ⊢; omega) whole passes)
      (pageAddress s i) (Nat.le_refl _)
      (Nat.lt_succ_self _)
    rwa [slotOf] at linked
  · intro linked vaddr length write small validated addr above below
    obtain ⟨user, passes⟩ := validated_page small validated above below
    obtain ⟨low, inUser⟩ := userSlot_lt user
    rw [validatePage_iff, getTableSlot_page low] at passes
    exact linked _ inUser _ (getPageTableIndex_lt _) passes.1 passes.2.1 passes.2.2.1

variable {before after : Vm}

lemma Linked.congr (linked : Linked before pd s) (link : after.link pd s = before.link pd s)
    (table : (after.pool pd).tables s = (before.pool pd).tables s) : Linked after pd s := by
  obtain ⟨present, user, small, points⟩ := linked
  exact ⟨link ▸ present, link ▸ user, link ▸ small, by rw [link, table, points]⟩

/-- Directory entries point to tables in use. -/
def LinksUsed (pd : Nat) (vm : Vm) : Prop :=
  ∀ s, s < pageTableSlots → isPresent (vm.link pd s) = true → isLarge (vm.link pd s) = false →
    vm.pmem.frameBitmap (entryTable (vm.link pd s) / frameSize) = true

/--
A mapping after which validation agrees with the walk. A present user entry needs its table linked at each user
slot that names it, and no second slot for a new table.
-/
def PagingOp.KeepsWalk (pd : Nat) (vm : Vm) : PagingOp → Prop
  | .map vaddr _ flags => isPresent flags = true → isUser flags = true →
    ((vm.pool pd).tables (getTableSlot vaddr) = 0 →
      getTableSlot vaddr = 0 ∨ (vm.pool pd).tables (legacySlot vaddr) ≠ 0) ∧
    ((vm.pool pd).tables (getTableSlot vaddr) ≠ 0 → ∀ s, s < userSlots →
      (vm.pool pd).tables s = (vm.pool pd).tables (getTableSlot vaddr) → Linked vm pd s)
  | .unmap _ => True

/-- What calls keep: the layout, the links in use and every visible page linked. -/
structure WalkInvariant (pd : Nat) (vm : Vm) : Prop where
  layout : TableLayout vm pd
  linksUsed : LinksUsed pd vm
  linked : EntriesLinked pd vm

lemma LinksUsed.step {op : PagingOp} (used : LinksUsed pd before)
    (layout : TableLayout before pd) (step : PagingStep pd before op after) : LinksUsed pd after := by
  obtain ⟨low, hasTable, rfl⟩ := step
  cases op with
  | map vaddr paddr flags =>
    change vaddr < 2 ^ 32 at low
    show LinksUsed pd (pagingMap before pd vaddr paddr flags)
    have inSlot := getTableSlot_lt low
    have inTable := getPageTableIndex_lt vaddr
    obtain ⟨mid, present, written, found⟩ := pagingMap_cases paddr flags low layout.rooted hasTable
    rw [written]
    rcases found with rfl | ⟨_, frame, made⟩
    · intro s below
      rw [layout.link_write inSlot inTable _ present below]
      exact used s below
    · intro s below
      rw [(made.layout layout).link_write inSlot inTable _ present below, made.link_eq layout below,
        writeWord_pmem, made.pmem]
      simp only [frameBitmap_take layout.clean made.free, Bool.or_eq_true, decide_eq_true_eq]
      split
      · intro _ _
        exact .inr (by rw [entryTable_link made.free.small, address_div])
      · exact fun present small => .inl (used s below present small)
  | unmap vaddr =>
    change vaddr < 2 ^ 32 at low
    show LinksUsed pd (pagingUnmap before pd vaddr)
    rcases pagingUnmap_cases before pd low with ⟨_, unchanged⟩ | ⟨present, same, _⟩
    · rwa [unchanged]
    · intro s below
      rw [same.link, layout.link_write (getTableSlot_lt low) (getPageTableIndex_lt vaddr) 0 present
        below, same.pmem]
      exact used s below

variable {paddr flags : Word}

/-- A mapping that keeps the walk leaves every visible page linked. -/
theorem EntriesLinked.map (linked : EntriesLinked pd vm) (layout : TableLayout vm pd)
    (low : vaddr < 2 ^ 32) (hasTable : PagingOp.HasTable pd vm (.map vaddr paddr flags))
    (keeps : PagingOp.KeepsWalk pd vm (.map vaddr paddr flags)) :
    EntriesLinked pd (pagingMap vm pd vaddr paddr flags) := by
  have inSlot := getTableSlot_lt low
  have inTable := getPageTableIndex_lt vaddr
  obtain ⟨mid, present, written, found⟩ := pagingMap_cases paddr flags low layout.rooted hasTable
  -- Before the entry is written, visible pages are linked, and so is every slot that will show it.
  obtain ⟨laid, old, shared⟩ : TableLayout mid pd ∧ EntriesLinked pd mid ∧ (isPresent flags = true →
      isUser flags = true → ∀ s < userSlots,
      (mid.pool pd).tables s = (mid.pool pd).tables (getTableSlot vaddr) → Linked mid pd s) := by
    rcases found with rfl | ⟨absent, frame, made⟩
    · exact ⟨layout, linked, fun isPresents isUsers => (keeps isPresents isUsers).2 present⟩
    refine ⟨made.layout layout, fun s user i small named shown isUsers => ?_,
      fun isPresents isUsers s user same => ?_⟩
    · have below := userSlots_lt user
      rw [made.leaf_eq layout inSlot below small named] at shown isUsers
      split at shown
      · simp at shown
      rename_i other
      have old := made.tables_old other
      rw [if_neg other] at isUsers
      rw [old] at named
      refine (linked s user i small named shown isUsers).congr ?_ old
      rw [made.link_eq layout below, if_neg]
      rintro rfl
      exact named absent
    · -- Only its own slot names the new table.
      have below := userSlots_lt user
      have allowed := (keeps isPresents isUsers).1 absent
      rw [legacySlot_eq low] at allowed
      rw [made.tables_self] at same
      have link := made.link_eq layout below
      rw [if_pos (made.names_self layout allowed below same)] at link
      refine ⟨?_, ?_, ?_, ?_⟩
      · rw [link]; simp
      · rw [link]; simpa using isUsers
      · rw [link]; simp
      · rw [link, entryTable_link made.free.small, same]
  intro s user i small named shown isUsers
  have below := userSlots_lt user
  rw [written] at named ⊢
  rw [written, laid.leaf_write inSlot inTable _ below small] at shown isUsers
  have before : Linked mid pd s := by
    split at shown
    · rename_i same
      rw [if_pos same] at isUsers
      simp only [isPresent_build, isUser_build] at shown isUsers
      exact shared shown isUsers s user same.1
    · rename_i other
      rw [if_neg other] at isUsers
      exact old s user i small named shown isUsers
  exact before.congr (laid.link_write inSlot inTable _ present below) rfl

lemma EntriesLinked.unmap (linked : EntriesLinked pd vm) (layout : TableLayout vm pd) (low : vaddr < 2 ^ 32) :
    EntriesLinked pd (pagingUnmap vm pd vaddr) := by
  have inSlot := getTableSlot_lt low
  have inTable := getPageTableIndex_lt vaddr
  rcases pagingUnmap_cases vm pd low with ⟨_, unchanged⟩ | ⟨present, same, slots⟩
  · rwa [unchanged]
  · intro s user i small named shown isUsers
    have below := userSlots_lt user
    have kept : ((pagingUnmap vm pd vaddr).pool pd).tables s = (vm.pool pd).tables s := by
      have slot := slots s
      split at slot
      · exact absurd slot named
      · exact slot
    rw [kept] at named
    rw [same.leaf kept, layout.leaf_write inSlot inTable 0 below small] at shown isUsers
    split at shown
    · simp at shown
    rename_i other
    rw [if_neg other] at isUsers
    refine (linked s user i small named shown isUsers).congr ?_ kept
    rw [same.link, layout.link_write inSlot inTable 0 present below]

/-- A present user entry that does not keep the walk is seen at an unlinked slot. -/
theorem WalkInvariant.broken (invariant : WalkInvariant pd vm) (low : vaddr < 2 ^ 32)
    (hasTable : PagingOp.HasTable pd vm (.map vaddr paddr flags))
    (unguarded : ¬PagingOp.KeepsWalk pd vm (.map vaddr paddr flags)) :
    ¬EntriesLinked pd (pagingMap vm pd vaddr paddr flags) := by
  obtain ⟨layout, linksUsed, _⟩ := invariant
  have inSlot := getTableSlot_lt low
  have inTable := getPageTableIndex_lt vaddr
  simp only [PagingOp.KeepsWalk, Classical.not_imp] at unguarded
  obtain ⟨isPresents, isUsers, unguarded⟩ := unguarded
  intro after
  obtain ⟨mid, present, written, found⟩ := pagingMap_cases paddr flags low layout.rooted hasTable
  -- The entry is seen at every slot that names its table.
  have shows : TableLayout mid pd → ∀ s < userSlots,
      (mid.pool pd).tables s = (mid.pool pd).tables (getTableSlot vaddr) → Linked mid pd s := by
    intro laid s user shared
    have below := userSlots_lt user
    rw [written] at after
    have entry := laid.leaf_write inSlot inTable ((paddr &&& frameMask) ||| (flags &&& pageFlags)) below inTable
    rw [if_pos ⟨shared, rfl⟩] at entry
    have linked := after s user _ inTable (by rw [writeWord_pool, shared]; exact present)
      (by rw [entry, isPresent_build]; exact isPresents) (by rw [entry, isUser_build]; exact isUsers)
    exact linked.congr (laid.link_write inSlot inTable _ present below).symm rfl
  rcases found with rfl | ⟨absent, frame, made⟩
  · exact unguarded ⟨fun absent => absurd absent present, fun _ => shows layout⟩
  · -- The table is new and was entered at the second slot as well, which links elsewhere.
    refine unguarded ⟨fun _ => ?_, fun present => absurd absent present⟩
    by_contra neither
    rw [legacySlot_eq low] at neither
    push Not at neither
    obtain ⟨positive, empty⟩ := neither
    have user : getTableSlot vaddr / 2 < userSlots := by
      simp only [pageTableSlots, userSlots] at inSlot ⊢
      omega
    have below := userSlots_lt user
    have second : (mid.pool pd).tables (getTableSlot vaddr / 2) = frame * frameSize := by
      rw [made.tables, if_pos (.inr ⟨positive, rfl, empty⟩)]
    have linked := shows (made.layout layout) _ user (second.trans made.tables_self.symm)
    have link := made.link_eq layout below
    rw [if_neg (by omega)] at link
    have used := linksUsed _ below (link ▸ linked.present) (link ▸ linked.small)
    have table := linked.table
    rw [link, second] at table
    rw [table, address_div] at used
    exact made.ne_of_used used rfl

/--
Validation and the processor's walk agree throughout a run exactly when every mapping keeps them.

The run starts from a new user directory over a kernel of 2 MiB pages.
-/
theorem user_walk_agrees_iff {boot vm : Vm} {pd : Nat} (kernel : LargeKernel boot)
    (created : pagingCreateUserDirectory boot = (vm, some pd)) {run : List (PagingOp × Vm)}
    (follows : Along (PagingStep pd) vm run) :
    Visits (WalkAgrees pd) vm run ↔
      Along (fun before op _ => PagingOp.KeepsWalk pd before op) vm run := by
  obtain ⟨top, second, first, made⟩ := pagingCreateUserDirectory_ok kernel.clean kernel.held created
  have start : WalkInvariant pd vm := by
    refine ⟨made.layout kernel, fun s below present small => ?_, fun s user i _ named => ?_⟩
    · rw [made.link below] at present small
      rw [kernel.large s below present] at small
      simp at small
    · exact absurd (made.no_tables kernel (userSlots_lt user)) named
  refine visits_iff_along (WalkInvariant pd) (fun _ holds => walkAgrees_iff.mpr holds.linked) ?_ ?_
    start follows
  · rintro before op after ⟨layout, linksUsed, linked⟩ step keeps
    refine ⟨layout.step step, linksUsed.step layout step, ?_⟩
    obtain ⟨low, hasTable, rfl⟩ := step
    cases op with
    | map vaddr paddr flags => exact linked.map layout low hasTable keeps
    | unmap vaddr => exact linked.unmap layout low
  · intro before op after invariant step unguarded agrees
    obtain ⟨low, hasTable, rfl⟩ := step
    cases op with
    | map vaddr paddr flags =>
      exact invariant.broken low hasTable unguarded (walkAgrees_iff.mp agrees)
    | unmap vaddr => exact unguarded trivial

/-- Mapping a user page below 2 MiB keeps validation and the walk together. -/
theorem user_walk_agrees_low : ∃ vm, pagingCreateUserDirectory bootVm = (vm, some 1) ∧
    Visits (WalkAgrees 1) vm
      [(PagingOp.map 0x1000 0x2000000 0x7, pagingMap vm 1 0x1000 0x2000000 0x7)] := by
  have served : (allocPageTable bootUser).2 ≠ 0 := by decide +kernel
  refine ⟨bootUser, bootVm_creates, (user_walk_agrees_iff bootVm_largeKernel bootVm_creates ?_).mpr ?_⟩
  · exact ⟨⟨by decide, .inr served, rfl⟩, trivial⟩
  · obtain ⟨top, second, first, made⟩ := bootVm_made bootVm_creates
    refine ⟨fun _ _ => ⟨fun _ => .inl (by decide), fun present => ?_⟩, trivial⟩
    exact absurd (made.no_tables bootVm_largeKernel (by decide)) present

/--
After a user page is mapped at 1 GiB, the page at 512 MiB passes validation though no walk reaches it.

The new table of slot 512 is entered under slot 256 too, whose directory entry is the kernel's.
-/
theorem user_walk_disagrees : ∃ vm, pagingCreateUserDirectory bootVm = (vm, some 1) ∧
    PagingStep 1 vm (.map 0x40000000 0x2000000 0x7) (pagingMap vm 1 0x40000000 0x2000000 0x7) ∧
    pagingValidateUserRange (pagingMap vm 1 0x40000000 0x2000000 0x7) 1 0x20000000 1 false = true ∧
    ¬Linked (pagingMap vm 1 0x40000000 0x2000000 0x7) 1 (getTableSlot 0x20000000) := by
  have served : (allocPageTable bootUser).2 ≠ 0 := by decide +kernel
  refine ⟨bootUser, bootVm_creates, ⟨by decide, .inr served, rfl⟩, by decide +kernel, fun linked => ?_⟩
  exact absurd linked.user (by decide +kernel)

end Galio

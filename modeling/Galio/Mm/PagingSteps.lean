import Galio.Mm.PagingLaws

/-! What each paging operation does to the tables, to memory and to the allocator. -/

namespace Galio

open Function List

variable {pmem : Pmem} {frame numFrames vaddr top : Nat} {after : Vm}

/-- The first frame the paging code allocates from. -/
def regionFirst : Nat := pagingAllocStart / frameSize

/-- The end of the frames the paging code allocates from. -/
def regionLimit : Nat := pagingAllocEnd / frameSize

/-- A frame the paging code may be handed: one of its region that is free. -/
structure RegionFree (pmem : Pmem) (frame : Nat) : Prop where
  first : regionFirst ≤ frame
  below : frame < regionLimit
  clear : pmem.frameBitmap frame = false

lemma RegionFree.tracked (free : RegionFree pmem frame) : frame < maxFrames := by
  have below := free.below
  simp only [regionLimit, pagingAllocEnd, frameSize, maxFrames] at below ⊢
  omega

lemma RegionFree.small (free : RegionFree pmem frame) : frame < 2 ^ 20 :=
  Nat.lt_trans free.tracked (by decide)

lemma RegionFree.address_ne_zero (free : RegionFree pmem frame) : frame * frameSize ≠ 0 := by
  have first := free.first
  simp only [regionFirst, pagingAllocStart, frameSize] at first ⊢
  omega

/-- A run of free frames of the paging region. -/
def RegionRun (pmem : Pmem) (first count : Nat) : Prop :=
  ∀ i, i < count → RegionFree pmem (first + i)

variable {f first kernel pd s second : Nat} {frames : List Nat} {third vm : Vm}

lemma allocRegion_ok (returned : (allocRegion vm numFrames).2 ≠ 0) :
    ∃ frame, (allocRegion vm numFrames).2 = frame * frameSize ∧ (allocRegion vm numFrames).1 =
        { vm with pmem := vm.pmem.refFrames (range' frame numFrames) } ∧
      ∀ f ∈ range' frame numFrames, RegionFree vm.pmem f := by
  obtain ⟨frame, address, taken, above, below, free⟩ := pmemAllocRegion_ok returned
  refine ⟨frame, address, ?_, ?_⟩
  · simp only [allocRegion, taken]
  · intro f member
    rw [mem_range'_1] at member
    obtain ⟨tracked, clear⟩ := framesFree_iff.mp free (f - frame) (by omega)
    rw [show frame + (f - frame) = f by omega] at clear
    refine ⟨?_, ?_, clear⟩
    · simp only [regionFirst, pagingAllocStart, frameSize] at above ⊢
      omega
    · simp only [regionLimit] at below ⊢
      omega

lemma allocRegion_some (positive : 0 < numFrames) (free : RegionRun vm.pmem frame numFrames) :
    (allocRegion vm numFrames).2 ≠ 0 := by
  have first := (free 0 positive).first
  have last := (free (numFrames - 1) (by omega)).below
  have accepted : framesFree vm.pmem frame numFrames :=
    framesFree_iff.mpr fun i below => ⟨(free i below).tracked, (free i below).clear⟩
  simp only [regionFirst, regionLimit, pagingAllocStart, pagingAllocEnd, frameSize] at first last
  obtain ⟨found, search⟩ := findFrames_isSome
    (show 5632 ≤ frame by omega) (show frame + numFrames ≤ 16384 by omega) accepted
  obtain ⟨above, _, _⟩ := findFrames_some search
  have searched : pmemAllocRegion vm.pmem numFrames pagingAllocStart pagingAllocEnd =
      (vm.pmem.refFrames (Pmem.frameRange found numFrames), found * frameSize) := by
    simp [pmemAllocRegion, pagingAllocStart, pagingAllocEnd, frameSize, maxFrames, search,
      Nat.pos_iff_ne_zero.mp positive]
  simp only [allocRegion, searched, frameSize]
  omega

lemma allocRegion_first (positive : 0 < numFrames)
    (address : (allocRegion vm numFrames).2 = frame * frameSize) (returned : (allocRegion vm numFrames).2 ≠ 0)
    {earlier : Nat} (before : earlier < frame) : ¬RegionRun vm.pmem earlier numFrames := by
  intro run
  have above := (run 0 positive).first
  have free : framesFree vm.pmem earlier numFrames :=
    framesFree_iff.mpr fun i below => ⟨(run i below).tracked, (run i below).clear⟩
  simp only [allocRegion, pmemAllocRegion] at address returned
  split at returned
  · exact returned rfl
  rename_i accepted
  rw [if_neg accepted] at address
  split at returned
  · rename_i found search
    rw [search] at address
    -- The frame found is the one returned, and the search did not pass over a free run.
    obtain rfl : found = frame := Nat.eq_of_mul_eq_mul_right (by decide) address
    rw [findFrames_passes search (by
      simp only [regionFirst, pagingAllocStart, frameSize] at above ⊢
      omega) before] at free
    simp at free
  · exact returned rfl

lemma allocRegion_fail (failed : (allocRegion vm numFrames).2 = 0) : (allocRegion vm numFrames).1 = vm := by
  have kept := pmemAllocRegion_fail (by decide) failed
  simp only [allocRegion, kept]

lemma allocPageTable_ok (returned : (allocPageTable vm).2 ≠ 0) :
    ∃ frame, (allocPageTable vm).2 = frame * frameSize ∧ (allocPageTable vm).1 =
        { vm with pmem := vm.pmem.refFrames [frame] }.fillFrame frame (fun _ => 0) ∧
      RegionFree vm.pmem frame := by
  unfold allocPageTable at returned ⊢
  dsimp only at returned ⊢
  split at returned
  · exact absurd rfl returned
  rename_i succeeded
  obtain ⟨frame, address, taken, free⟩ := allocRegion_ok succeeded
  rw [if_neg succeeded, taken, address, address_div]
  exact ⟨frame, rfl, rfl, free frame (by simp)⟩

lemma allocPageTable_some (free : RegionFree vm.pmem frame) : (allocPageTable vm).2 ≠ 0 := by
  have succeeded : (allocRegion vm 1).2 ≠ 0 := by
    have single : RegionRun vm.pmem frame 1 := by
      intro i below
      rwa [show i = 0 by omega]
    exact allocRegion_some (by decide) single
  unfold allocPageTable
  dsimp only
  rwa [if_neg succeeded]

lemma allocPageTable_fail (failed : (allocPageTable vm).2 = 0) : (allocPageTable vm).1 = vm := by
  unfold allocPageTable at failed ⊢
  dsimp only at failed ⊢
  split at failed
  · rename_i none
    rw [if_pos none]
    exact allocRegion_fail none
  · rename_i succeeded
    exact absurd failed succeeded

/-- What creating the table of one slot does, with the second entry. -/
structure NewTable (before after : Vm) (pd slot frame : Nat) (link : Word) : Prop where
  free : RegionFree before.pmem frame
  pmem : after.pmem = before.pmem.refFrames [frame]
  tables : ∀ s, (after.pool pd).tables s =
    if s = slot ∨ (slot ≠ 0 ∧ s = slot / 2 ∧ (before.pool pd).tables (slot / 2) = 0) then
      frame * frameSize
    else (before.pool pd).tables s
  directory : (after.pool pd).directory = (before.pool pd).directory
  pdpt : (after.pool pd).pdpt = (before.pool pd).pdpt
  pageDirectory : (after.pool pd).pageDirectory = (before.pool pd).pageDirectory
  others : ∀ q, q ≠ pd → after.pool q = before.pool q
  mem : ∀ f i, after.mem f i =
    if f = (before.pool pd).pageDirectory / frameSize + slot / 512 ∧ i = slot % 512 then link
    else if f = frame then 0 else before.mem f i

lemma mem_writeWord (vm : Vm) (table i f j : Nat) (value : Word) : (vm.writeWord table i value).mem f j =
      if f = table / frameSize + i / 512 ∧ j = i % 512 then value else vm.mem f j := by
  simp only [Vm.writeWord]
  by_cases sameFrame : f = table / frameSize + i / 512
  · by_cases sameIndex : j = i % 512
    · simp [sameFrame, sameIndex]
    · simp [sameFrame, sameIndex]
  · simp [sameFrame]

lemma mem_fillFrame (vm : Vm) (frame f j : Nat) (content : Nat → Word) :
    (vm.fillFrame frame content).mem f j = if f = frame then content j else vm.mem f j := by
  simp only [Vm.fillFrame, update_apply]
  split <;> rfl

/-- Two states that differ in the table slots of one directory only. -/
structure SameBesidesTables (before after : Vm) (pd : Nat) : Prop where
  mem : after.mem = before.mem
  pmem : after.pmem = before.pmem
  pageDirectoryCount : after.pageDirectoryCount = before.pageDirectoryCount
  kernelPd : after.kernelPd = before.kernelPd
  others : ∀ q, q ≠ pd → after.pool q = before.pool q
  directory : (after.pool pd).directory = (before.pool pd).directory
  pdpt : (after.pool pd).pdpt = (before.pool pd).pdpt
  pageDirectory : (after.pool pd).pageDirectory = (before.pool pd).pageDirectory

lemma setTable_sameBesidesTables (vm : Vm) (pd slot table : Nat) :
    SameBesidesTables vm (vm.setTable pd slot table) pd where
  mem := rfl
  pmem := rfl
  pageDirectoryCount := rfl
  kernelPd := rfl
  others := fun q apart => by rw [Vm.setTable, setPd_pool, if_neg apart]
  directory := setTable_directory ..
  pdpt := setTable_pdpt ..
  pageDirectory := setTable_pageDirectory ..

lemma SameBesidesTables.trans {first second : Vm} (one : SameBesidesTables first second pd)
    (two : SameBesidesTables second third pd) : SameBesidesTables first third pd where
  mem := two.mem.trans one.mem
  pmem := two.pmem.trans one.pmem
  pageDirectoryCount := two.pageDirectoryCount.trans one.pageDirectoryCount
  kernelPd := two.kernelPd.trans one.kernelPd
  others := fun q apart => (two.others q apart).trans (one.others q apart)
  directory := two.directory.trans one.directory
  pdpt := two.pdpt.trans one.pdpt
  pageDirectory := two.pageDirectory.trans one.pageDirectory

section EnterTable

variable (vm : Vm) (pd slot table : Nat)

lemma enterTable_sameBesidesTables (legacy : Nat) :
    SameBesidesTables vm (vm.enterTable pd slot legacy table) pd := by
  unfold Vm.enterTable
  dsimp only
  split
  · exact (setTable_sameBesidesTables ..).trans (setTable_sameBesidesTables ..)
  · exact setTable_sameBesidesTables ..

lemma enterTable_tables (s : Nat) : ((vm.enterTable pd slot (slot / 2) table).pool pd).tables s =
      if s = slot ∨ (slot ≠ 0 ∧ s = slot / 2 ∧ (vm.pool pd).tables (slot / 2) = 0) then table
      else (vm.pool pd).tables s := by
  unfold Vm.enterTable
  dsimp only
  split
  · rename_i second
    obtain ⟨moved, empty⟩ := second
    rw [setTable_tables, if_neg (by simp [moved])] at empty
    have positive : slot ≠ 0 := by omega
    simp only [setTable_tables]
    by_cases same : s = slot / 2
    · simp [same, positive, empty]
    · simp [same]
  · rename_i first
    rw [setTable_tables] at first
    have skipped : ¬(slot ≠ 0 ∧ s = slot / 2 ∧ (vm.pool pd).tables (slot / 2) = 0) := by
      rintro ⟨positive, _, empty⟩
      have moved : slot / 2 ≠ slot := by omega
      exact first ⟨moved, by rw [if_neg (by simp [moved]), empty]⟩
    simp only [setTable_tables, true_and, skipped, or_false]

end EnterTable

lemma getPageTable_create (flags : Word) (low : vaddr < 2 ^ 32)
    (absent : (vm.pool pd).tables (getTableSlot vaddr) = 0) (rooted : (vm.pool pd).pageDirectory ≠ 0)
    (room : (allocPageTable vm).2 ≠ 0) : ∃ frame, (getPageTable vm pd vaddr flags true).2 = frame * frameSize ∧
      NewTable vm (getPageTable vm pd vaddr flags true).1 pd (getTableSlot vaddr) frame
        ((BitVec.ofNat 64 (frame * frameSize) &&& tableMask) ||| (flags &&& pageFlags)) := by
  obtain ⟨frame, address, taken, free⟩ := allocPageTable_ok room
  have nonzero := free.address_ne_zero
  have rest : ¬((vm.pool pd).pageDirectory = 0 ∨ getPml4Index vaddr ≠ 0) := by
    simp [rooted, getPml4Index_eq low]
  have slots := legacySlot_eq low
  refine ⟨frame, ?_, ?_⟩
  · simp [getPageTable, absent, rest, address, nonzero]
  · simp only [getPageTable, absent, rest, address, taken, nonzero, ne_eq, not_true, ite_false,
      Bool.not_true, Bool.false_eq_true]
    rw [slots]
    generalize created : ({ vm with pmem := vm.pmem.refFrames [frame] }.fillFrame frame
      fun _ => 0) = mid
    have entered := enterTable_sameBesidesTables mid pd (getTableSlot vaddr) (frame * frameSize)
      (getTableSlot vaddr / 2)
    have slotsAfter := enterTable_tables mid pd (getTableSlot vaddr) (frame * frameSize)
    have midPool : mid.pool = vm.pool := by rw [← created]; rfl
    refine ⟨free, ?_, fun s => ?_, ?_, ?_, ?_, fun q apart => ?_, fun f i => ?_⟩
    · rw [writeWord_pmem, entered.pmem, ← created, fillFrame_pmem]
    · rw [writeWord_pool, slotsAfter, midPool]
    · rw [writeWord_pool, entered.directory, midPool]
    · rw [writeWord_pool, entered.pdpt, midPool]
    · rw [writeWord_pool, entered.pageDirectory, midPool]
    · rw [writeWord_pool, entered.others q apart, midPool]
    · rw [mem_writeWord, entered.pageDirectory, midPool, entered.mem, ← created, mem_fillFrame]
      rfl

lemma NewTable.tables_self {before : Vm} {slot : Nat} {link : Word}
    (made : NewTable before after pd slot frame link) : (after.pool pd).tables slot = frame * frameSize := by
  rw [made.tables, if_pos (.inl rfl)]

/-- A mapping finds the table of its slot or makes it, and then writes the entry there. -/
theorem pagingMap_cases (paddr flags : Word) (low : vaddr < 2 ^ 32) (rooted : (vm.pool pd).pageDirectory ≠ 0)
    (room : (vm.pool pd).tables (getTableSlot vaddr) ≠ 0 ∨ (allocPageTable vm).2 ≠ 0) :
    ∃ mid, (mid.pool pd).tables (getTableSlot vaddr) ≠ 0 ∧ pagingMap vm pd vaddr paddr flags =
        mid.writeWord ((mid.pool pd).tables (getTableSlot vaddr)) (getPageTableIndex vaddr)
          ((paddr &&& frameMask) ||| (flags &&& pageFlags)) ∧
      (mid = vm ∨ (vm.pool pd).tables (getTableSlot vaddr) = 0 ∧ ∃ frame,
        NewTable vm mid pd (getTableSlot vaddr) frame ((BitVec.ofNat 64 (frame * frameSize) &&& tableMask) |||
          ((pagePresent ||| pageRw ||| (flags &&& pageUser)) &&& pageFlags))) := by
  by_cases absent : (vm.pool pd).tables (getTableSlot vaddr) = 0
  · obtain ⟨frame, address, made⟩ := getPageTable_create
      (pagePresent ||| pageRw ||| (flags &&& pageUser)) low absent rooted
      (room.resolve_left (fun present => present absent))
    refine ⟨_, ?_, ?_, .inr ⟨absent, frame, made⟩⟩
    · rw [made.tables_self]
      exact made.free.address_ne_zero
    · simp only [pagingMap, address, made.free.address_ne_zero, ite_false, made.tables_self]
  · refine ⟨vm, absent, ?_, .inl rfl⟩
    simp [pagingMap, getPageTable, absent]

lemma pagingUnmap_cases (vm : Vm) (pd : Nat) (low : vaddr < 2 ^ 32) :
    ((vm.pool pd).tables (getTableSlot vaddr) = 0 ∧ pagingUnmap vm pd vaddr = vm) ∨
    ((vm.pool pd).tables (getTableSlot vaddr) ≠ 0 ∧ SameBesidesTables
        (vm.writeWord ((vm.pool pd).tables (getTableSlot vaddr)) (getPageTableIndex vaddr) 0)
        (pagingUnmap vm pd vaddr) pd ∧
      ∀ s, ((pagingUnmap vm pd vaddr).pool pd).tables s = if getTableSlot vaddr ≠ 0 ∧ s = getTableSlot vaddr / 2 ∧
          (vm.pool pd).tables s = (vm.pool pd).tables (getTableSlot vaddr) then 0 else (vm.pool pd).tables s) := by
  by_cases absent : (vm.pool pd).tables (getTableSlot vaddr) = 0
  · exact .inl ⟨absent, by simp [pagingUnmap, absent]⟩
  refine .inr ⟨absent, ?_⟩
  have self := legacySlot_eq_self low
  rw [legacySlot_eq low] at self
  by_cases second : getTableSlot vaddr / 2 ≠ getTableSlot vaddr ∧
    (vm.pool pd).tables (getTableSlot vaddr / 2) = (vm.pool pd).tables (getTableSlot vaddr)
  · have cleared : pagingUnmap vm pd vaddr =
        (vm.writeWord ((vm.pool pd).tables (getTableSlot vaddr)) (getPageTableIndex vaddr)
          0).setTable pd (getTableSlot vaddr / 2) 0 := by
      simp [pagingUnmap, absent, legacySlot_eq low, second]
    rw [cleared]
    obtain ⟨moved, shared⟩ := second
    have positive : getTableSlot vaddr ≠ 0 := fun zero => moved (self.mpr zero)
    refine ⟨setTable_sameBesidesTables .., fun s => ?_⟩
    rw [setTable_tables]
    by_cases same : s = getTableSlot vaddr / 2
    · simp [same, positive, shared]
    · simp [same]
  · have cleared : pagingUnmap vm pd vaddr =
        vm.writeWord ((vm.pool pd).tables (getTableSlot vaddr)) (getPageTableIndex vaddr) 0 := by
      simp only [pagingUnmap, absent, legacySlot_eq low]
      exact if_neg second
    rw [cleared]
    refine ⟨⟨rfl, rfl, rfl, rfl, fun _ _ => rfl, rfl, rfl, rfl⟩, fun s => ?_⟩
    rw [writeWord_pool, if_neg]
    rintro ⟨positive, same, shared⟩
    exact second ⟨fun unmoved => positive (self.mp unmoved), same ▸ shared⟩

lemma frameBitmap_take (clean : pmem.Clean) (free : RegionFree pmem frame) (other : Nat) :
    (pmem.refFrames [frame]).frameBitmap other = (pmem.frameBitmap other || decide (other = frame)) := by
  rw [clean.frameBitmap_refFrames]
  by_cases same : other = frame
  · simp [same, free.tracked]
  · simp [same]

/-- The frames of a directory: two upper levels and four directories. -/
def directoryFrames (top second first : Nat) : List Nat :=
  top :: second :: List.range' first 4

/-- What creating a directory does, with the entries and tables it starts from. -/
structure Created (before after : Vm) (pd top second first : Nat) (entries : Nat → Word)
    (tables : Nat → Nat) : Prop where
  index : pd = before.pageDirectoryCount
  room : pd < maxPageDirs
  pageDirectoryCount : after.pageDirectoryCount = pd + 1
  kernelPd : after.kernelPd = before.kernelPd
  others : ∀ q, q ≠ pd → after.pool q = before.pool q
  directory : (after.pool pd).directory = top * frameSize
  pdpt : (after.pool pd).pdpt = second * frameSize
  pageDirectory : (after.pool pd).pageDirectory = first * frameSize
  tables : ∀ s, s < pageTableSlots → (after.pool pd).tables s = tables s
  mem : ∀ f i, f ∉ directoryFrames top second first → after.mem f i = before.mem f i
  entries : ∀ s, s < pageTableSlots → after.readWord (first * frameSize) s = entries s
  pmem : after.pmem = before.pmem.refFrames (directoryFrames top second first)
  free : ∀ f ∈ directoryFrames top second first, RegionFree before.pmem f
  distinct : (directoryFrames top second first).Nodup

lemma directoryFrames_apart {j : Nat} (distinct : (directoryFrames top second first).Nodup)
    (below : j < 4) : first + j ≠ top ∧ first + j ≠ second := by
  simp only [directoryFrames, nodup_cons, mem_cons, mem_range'_1] at distinct
  omega

lemma slot_div_lt (inSlot : s < pageTableSlots) : s / 512 < 4 := by
  simp only [pageTableSlots] at inSlot
  omega

lemma RegionFree.of_refFrames (clean : pmem.Clean)
    (free : RegionFree (pmem.refFrames frames) frame) : RegionFree pmem frame ∧ frame ∉ frames := by
  have clear := free.clear
  rw [clean.frameBitmap_refFrames, Bool.or_eq_false_iff] at clear
  refine ⟨⟨free.first, free.below, clear.1⟩, fun listed => ?_⟩
  simp [listed, free.tracked] at clear

lemma regionFree_refFrames (clean : pmem.Clean) :
    RegionFree (pmem.refFrames frames) frame ↔ RegionFree pmem frame ∧ frame ∉ frames := by
  refine ⟨fun free => free.of_refFrames clean, fun ⟨free, apart⟩ => ⟨free.first, free.below, ?_⟩⟩
  rw [clean.frameBitmap_refFrames, free.clear]
  simp [apart]

lemma taken_append (clean : pmem.Clean) {taken more : List Nat}
    (distinct : taken.Nodup) (free : ∀ f ∈ taken, RegionFree pmem f) (moreDistinct : more.Nodup)
    (moreFree : ∀ f ∈ more, RegionFree (pmem.refFrames taken) f) :
    (taken ++ more).Nodup ∧ (∀ f ∈ taken ++ more, RegionFree pmem f) ∧
      (pmem.refFrames taken).refFrames more = pmem.refFrames (taken ++ more) := by
  have apart := fun f member => (moreFree f member).of_refFrames clean
  refine ⟨?_, ?_, ?_⟩
  · rw [nodup_append]
    refine ⟨distinct, moreDistinct, fun f listed g added same => ?_⟩
    exact (apart g added).2 (same ▸ listed)
  · intro f member
    rcases mem_append.mp member with old | new
    · exact free f old
    · exact (apart f new).1
  · exact (refFrames_append pmem taken more).symm

lemma mem_fillFrames (vm : Vm) (first count f i : Nat) (content : Nat → Nat → Word) :
    ((range count).foldl (fun vm j => vm.fillFrame (first + j) (content j)) vm).mem f i =
      if first ≤ f ∧ f < first + count then content (f - first) i else vm.mem f i := by
  -- The last frame filled decides its own content and leaves the earlier ones.
  induction count with
  | zero => simp only [range_zero, foldl_nil]; rw [if_neg (by omega)]
  | succ count ih =>
    rw [range_succ, foldl_append, foldl_cons, foldl_nil, mem_fillFrame, ih]
    by_cases last : f = first + count
    · rw [if_pos last, if_pos (by omega), show f - first = count by omega]
    · by_cases inside : first ≤ f ∧ f < first + count
      · rw [if_neg last, if_pos inside, if_pos (by omega)]
      · rw [if_neg last, if_neg inside, if_neg (by omega)]

/-- Two states that differ in memory only. -/
def SameBesidesMemory (before after : Vm) : Prop :=
  after = { before with mem := after.mem }

lemma SameBesidesMemory.trans {first second : Vm} (one : SameBesidesMemory first second)
    (two : SameBesidesMemory second third) : SameBesidesMemory first third := by
  rw [one] at two
  exact two

lemma foldl_sameBesidesMemory (step : Vm → Nat → Vm) (only : ∀ vm j, SameBesidesMemory vm (step vm j))
    (indices : List Nat) (vm : Vm) : SameBesidesMemory vm (indices.foldl step vm) := by
  induction indices generalizing vm with
  | nil => rfl
  | cons head rest ih => exact (only vm head).trans (ih (step vm head))

lemma mem_writeWords (vm : Vm) (table f i : Nat) (count : Nat) (value : Nat → Word)
    (small : count ≤ 512) (apart : f ≠ table / frameSize) :
    ((range count).foldl (fun vm j => vm.writeWord table j (value j)) vm).mem f i = vm.mem f i := by
  induction count with
  | zero => rfl
  | succ count ih =>
    rw [range_succ, foldl_append, foldl_cons, foldl_nil, mem_writeWord, ih (by omega), if_neg]
    rintro ⟨same, _⟩
    omega

lemma linkLevels_sameBesidesMemory (vm : Vm) (pd pdPhys pdptPhys pageDirectoryPhys : Nat) :
    SameBesidesMemory (vm.setPd pd { vm.pool pd with pdpt := pdptPhys, pageDirectory := pageDirectoryPhys })
      (linkLevels vm pd pdPhys pdptPhys pageDirectoryPhys) := by
  unfold linkLevels
  refine SameBesidesMemory.trans ?_ (foldl_sameBesidesMemory _ (fun _ _ => by rfl) (range 4) _)
  refine SameBesidesMemory.trans ?_ (by rfl)
  exact foldl_sameBesidesMemory _ (fun _ _ => by rfl) (range 4) _

lemma linkLevels_mem (vm : Vm) (i : Nat) (notTop : f ≠ top) (notSecond : f ≠ second) :
    (linkLevels vm pd (top * frameSize) (second * frameSize) (first * frameSize)).mem f i =
      if first ≤ f ∧ f < first + 4 then 0 else vm.mem f i := by
  unfold linkLevels
  rw [mem_writeWords _ _ _ _ _ _ (by decide) (by rwa [address_div]), mem_writeWord, if_neg,
    mem_fillFrames, address_div]
  · rfl
  · rintro ⟨same, _⟩
    rw [address_div] at same
    exact notTop same

lemma buildLevels_ok {pd' : Nat} (clean : vm.pmem.Clean)
    (built : buildLevels vm pd (top * frameSize) = (after, some pd')) : pd' = pd ∧ ∃ second first,
      SameBesidesMemory { vm.setPd pd ⟨top * frameSize, second * frameSize, first * frameSize,
          (vm.pool pd).tables⟩ with pmem := vm.pmem.refFrames (second :: range' first 4) }
        after ∧
      (∀ f i, f ≠ top → f ≠ second → after.mem f i = if first ≤ f ∧ f < first + 4 then 0 else vm.mem f i) ∧
      (∀ f ∈ second :: range' first 4, RegionFree vm.pmem f) ∧
      (second :: range' first 4).Nodup := by
  unfold buildLevels at built
  rw [address_div] at built
  dsimp only at built
  generalize started : (vm.fillFrame top fun _ => 0).setPd pd
    ⟨top * frameSize, ((vm.fillFrame top fun _ => 0).pool pd).pdpt,
      ((vm.fillFrame top fun _ => 0).pool pd).pageDirectory,
      ((vm.fillFrame top fun _ => 0).pool pd).tables⟩ = one at built
  by_cases failed : (allocPageTable one).2 = 0 ∨ (allocRegion (allocPageTable one).1 4).2 = 0
  · rw [if_pos failed] at built
    simp at built
  · rw [if_neg failed] at built
    obtain ⟨someSecond, someFirst⟩ := not_or.mp failed
    obtain ⟨second, secondAddress, secondTaken, secondFree⟩ := allocPageTable_ok someSecond
    obtain ⟨first, firstAddress, firstTaken, firstFree⟩ := allocRegion_ok someFirst
    rw [secondAddress, firstAddress, Prod.mk.injEq, Option.some.injEq] at built
    obtain ⟨rfl, same⟩ := built
    have pmemOne : one.pmem = vm.pmem := by rw [← started]; rfl
    simp only [secondTaken, pmemOne] at firstFree secondFree
    obtain ⟨distinct, free, together⟩ := taken_append clean (nodup_singleton second)
      (by simpa using secondFree) nodup_range' firstFree
    have taken : (allocRegion (allocPageTable one).1 4).1 =
        { one with pmem := vm.pmem.refFrames (second :: range' first 4) }.fillFrame second
          fun _ => 0 := by
      rw [firstTaken, secondTaken]
      simp only [Vm.fillFrame, pmemOne, together, singleton_append]
    rw [taken]
    refine ⟨same.symm, second, first, ?_, ?_, free, distinct⟩
    · have shape := linkLevels_sameBesidesMemory
        ({ one with pmem := vm.pmem.refFrames (second :: range' first 4) }.fillFrame second
          fun _ => 0) pd (top * frameSize) (second * frameSize) (first * frameSize)
      unfold SameBesidesMemory at shape ⊢
      rw [shape, ← started]
      simp only [Vm.setPd, Vm.fillFrame, update_self, update_idem]
    · intro f i notTop notSecond
      rw [linkLevels_mem _ i notTop notSecond, mem_fillFrame, if_neg notSecond, ← started]
      congr 1
      exact (mem_fillFrame vm top f i _).trans (if_neg notTop)

lemma pagingCreateDirectory_ok (clean : vm.pmem.Clean) (created : pagingCreateDirectory vm = (after, some pd)) :
    ∃ top second first, Created vm after pd top second first (fun _ => 0) (fun _ => 0) := by
  unfold pagingCreateDirectory allocPageDirectory at created
  by_cases full : vm.pageDirectoryCount ≥ maxPageDirs
  · simp [full] at created
  simp only [full, ite_false, Vm.setPd] at created
  generalize pooled : (⟨vm.pmem, vm.mem, update vm.pool vm.pageDirectoryCount ⟨0, 0, 0, fun _ => 0⟩,
    vm.pageDirectoryCount + 1, vm.kernelPd⟩ : Vm) = one at created
  by_cases noTop : (allocRegion one 1).2 = 0
  · simp [noTop] at created
  obtain ⟨top, topAddress, topTaken, topFree⟩ := allocRegion_ok noTop
  rw [if_neg noTop, topAddress, topTaken] at created
  have pmemOne : one.pmem = vm.pmem := by rw [← pooled]
  rw [pmemOne] at created topFree
  obtain ⟨rfl, second, first, shape, mem, free, distinct⟩ :=
    buildLevels_ok (clean.refFrames _) created
  obtain ⟨allDistinct, allFree, together⟩ :=
    taken_append clean (nodup_singleton top) topFree distinct free
  refine ⟨top, second, first, rfl, by omega, ?_, ?_, fun q apart => ?_, ?_, ?_, ?_, fun s _ => ?_,
    fun f i outside => ?_, fun s below => ?_, ?_, allFree, allDistinct⟩
  · rw [shape, ← pooled]; rfl
  · rw [shape, ← pooled]; rfl
  · rw [shape, ← pooled]
    simp [Vm.setPd, apart]
  · rw [shape]; simp [Vm.setPd]
  · rw [shape]; simp [Vm.setPd]
  · rw [shape]; simp [Vm.setPd]
  · rw [shape, ← pooled]; simp [Vm.setPd]
  · simp only [directoryFrames, mem_cons, mem_range'_1, not_or] at outside
    rw [mem f i outside.1 outside.2.1, if_neg outside.2.2, ← pooled]
  · have position := slot_div_lt below
    obtain ⟨notTop, notSecond⟩ := directoryFrames_apart allDistinct position
    rw [Vm.readWord, address_div, mem _ _ notTop notSecond, if_pos (by omega)]
  · rw [shape]
    exact together

/-- What an incomplete directory leaves: frames taken and cleared, and a lost slot. -/
structure Abandoned (before after : Vm) (taken : List Nat) : Prop where
  free : ∀ f ∈ taken, RegionFree before.pmem f
  pmem : after.pmem = before.pmem.refFrames taken
  mem : ∀ f, f ∉ taken → ∀ j, after.mem f j = before.mem f j
  others : ∀ q, q ≠ before.pageDirectoryCount → after.pool q = before.pool q
  grows : before.pageDirectoryCount ≤ after.pageDirectoryCount
  bound : after.pageDirectoryCount ≤ max before.pageDirectoryCount maxPageDirs
  kernelPd : after.kernelPd = before.kernelPd

/-- The levels that could be built are left behind when another could not. -/
theorem buildLevels_abandons (failed : buildLevels vm pd (top * frameSize) = (after, none)) :
    ∃ taken, (∀ f ∈ taken, RegionFree vm.pmem f) ∧ after.pmem = vm.pmem.refFrames taken ∧
      (∀ f ≠ top, f ∉ taken → ∀ j, after.mem f j = vm.mem f j) ∧ (∀ q ≠ pd, after.pool q = vm.pool q) ∧
      after.pageDirectoryCount = vm.pageDirectoryCount ∧ after.kernelPd = vm.kernelPd := by
  unfold buildLevels at failed
  rw [address_div] at failed
  dsimp only at failed
  generalize started : (vm.fillFrame top fun _ => 0).setPd pd
    ⟨top * frameSize, ((vm.fillFrame top fun _ => 0).pool pd).pdpt,
      ((vm.fillFrame top fun _ => 0).pool pd).pageDirectory,
      ((vm.fillFrame top fun _ => 0).pool pd).tables⟩ = one at failed
  have pmemOne : one.pmem = vm.pmem := by rw [← started]; rfl
  have memOne : ∀ f ≠ top, ∀ j, one.mem f j = vm.mem f j := fun f other j => by
    rw [← started]
    exact (mem_fillFrame vm top f j _).trans (if_neg other)
  have poolOne : ∀ q ≠ pd, one.pool q = vm.pool q := fun q other => by
    rw [← started, setPd_pool, if_neg other, fillFrame_pool]
  have restOne : one.pageDirectoryCount = vm.pageDirectoryCount ∧ one.kernelPd = vm.kernelPd := by
    rw [← started]
    exact ⟨rfl, rfl⟩
  by_cases short : (allocPageTable one).2 = 0 ∨ (allocRegion (allocPageTable one).1 4).2 = 0
  · rw [if_pos short] at failed
    obtain rfl := congrArg Prod.fst failed
    by_cases noSecond : (allocPageTable one).2 = 0
    -- Without a second level the four directories may still have been taken.
    · rw [allocPageTable_fail noSecond]
      by_cases noFirst : (allocRegion one 4).2 = 0
      · rw [allocRegion_fail noFirst]
        exact ⟨[], by simp, pmemOne, fun f notTop _ => memOne f notTop, poolOne, restOne⟩
      · obtain ⟨first, _, taken, free⟩ := allocRegion_ok noFirst
        rw [taken, pmemOne]
        rw [pmemOne] at free
        exact ⟨_, free, rfl, fun f notTop _ => memOne f notTop, poolOne, restOne⟩
    · have noFirst := short.resolve_left noSecond
      rw [allocRegion_fail noFirst]
      obtain ⟨second, _, taken, free⟩ := allocPageTable_ok noSecond
      rw [taken]
      rw [pmemOne] at free ⊢
      refine ⟨[second], by simpa using free, rfl, fun f notTop other j => ?_, poolOne, restOne⟩
      rw [mem_fillFrame, if_neg (by simpa using other)]
      exact memOne f notTop j
  · rw [if_neg short] at failed
    simp at failed

/-- A directory that is not created leaves only frames taken and a lost slot. -/
theorem pagingCreateDirectory_abandons (clean : vm.pmem.Clean)
    (failed : pagingCreateDirectory vm = (after, none)) : ∃ taken, Abandoned vm after taken := by
  unfold pagingCreateDirectory allocPageDirectory at failed
  by_cases full : vm.pageDirectoryCount ≥ maxPageDirs
  · rw [if_pos full] at failed
    obtain rfl := congrArg Prod.fst failed
    exact ⟨[], by simp, rfl, fun _ _ _ => rfl, fun _ _ => rfl, Nat.le_refl _, Nat.le_max_left .., rfl⟩
  · rw [if_neg full] at failed
    dsimp only at failed
    generalize pooled : (⟨_, _, _, vm.pageDirectoryCount + 1, _⟩ : Vm) = one at failed
    have pmemOne : one.pmem = vm.pmem := by rw [← pooled]; rfl
    have memOne : one.mem = vm.mem := by rw [← pooled]; rfl
    have countOne : one.pageDirectoryCount = vm.pageDirectoryCount + 1 := by rw [← pooled]
    have kernelOne : one.kernelPd = vm.kernelPd := by rw [← pooled]; rfl
    have poolOne : ∀ q ≠ vm.pageDirectoryCount, one.pool q = vm.pool q := fun q other => by
      rw [← pooled]
      exact (setPd_pool vm _ q _).trans (if_neg other)
    by_cases noTop : (allocRegion one 1).2 = 0
    · rw [if_pos noTop, allocRegion_fail noTop] at failed
      obtain rfl := congrArg Prod.fst failed
      refine ⟨[], by simp, pmemOne, fun f _ j => by rw [memOne], poolOne, ?_, ?_, kernelOne⟩
      · show _ ≤ one.pageDirectoryCount; omega
      · show one.pageDirectoryCount ≤ _; omega
    · obtain ⟨top, address, taken, free⟩ := allocRegion_ok noTop
      rw [if_neg noTop, address, taken, pmemOne] at failed
      rw [pmemOne] at free
      obtain ⟨more, moreFree, pmem, mem, pool, count, kernelPd⟩ :=
        buildLevels_abandons failed
      refine ⟨top :: more, fun f listed => ?_, ?_, fun f other j => ?_, fun q other => ?_, ?_, ?_, ?_⟩
      · rcases mem_cons.mp listed with rfl | later
        · exact free f (by simp)
        · exact ((moreFree f later).of_refFrames clean).1
      · rw [pmem]
        rfl
      · obtain ⟨notTop, notMore⟩ := not_or.mp (mt mem_cons.mpr other)
        rw [mem f notTop notMore j, memOne]
      · rw [pool q other, poolOne q other]
      · rw [count]; show _ ≤ one.pageDirectoryCount; omega
      · rw [count]; show one.pageDirectoryCount ≤ _; omega
      · rw [kernelPd]; exact kernelOne

/-- The kernel's entry of a slot, as a user directory receives it. -/
def kernelEntry (vm : Vm) (i : Nat) : Word :=
  match vm.kernelPd with
  | none => 0
  | some kernel =>
    if (vm.pool kernel).directory = 0 then 0
    else vm.readWord (vm.pool kernel).pageDirectory i &&& ~~~pageUser

lemma isUser_kernelEntry (vm : Vm) (i : Nat) : isUser (kernelEntry vm i) = false := by
  unfold kernelEntry
  split
  · rfl
  · split
    · rfl
    · exact isUser_kernel _

/-- The kernel's table of a slot, as a user directory receives it. -/
def kernelTable (vm : Vm) (i : Nat) : Nat :=
  match vm.kernelPd with
  | none => 0
  | some kernel =>
    if isPresent (kernelEntry vm i) && !isLarge (kernelEntry vm i) then (vm.pool kernel).tables i
    else 0

/-- The kernel's directory is one of the pool's, and its frames are in use. -/
def KernelHeld (vm : Vm) : Prop :=
  ∀ kernel, vm.kernelPd = some kernel → kernel < vm.pageDirectoryCount ∧
    ∀ j, j < 4 → ¬RegionFree vm.pmem ((vm.pool kernel).pageDirectory / frameSize + j)

lemma copyKernel_shape (vm : Vm) (pd kernel : Nat) : SameBesidesMemory
      (vm.setPd pd { vm.pool pd with tables := ((copyKernel vm pd kernel).pool pd).tables })
      (copyKernel vm pd kernel) := by
  have looped := foldl_sameBesidesMemory (fun vm' j =>
    vm'.fillFrame ((vm.pool pd).pageDirectory / frameSize + j) fun i =>
      vm.readWord (vm.pool kernel).pageDirectory (j * 512 + i) &&& ~~~pageUser) (fun _ _ => rfl)
    (range 4) (vm.fillFrame ((vm.pool pd).directory / frameSize) fun i =>
      if i = 0 then vm.readWord (vm.pool pd).directory 0
      else vm.readWord (vm.pool kernel).directory i &&& ~~~pageUser)
  unfold SameBesidesMemory copyKernel
  dsimp only
  rw [looped]
  simp [Vm.setPd]

lemma copyKernel_mem (vm : Vm) (i : Nat)
    (ownTop : (vm.pool pd).directory = top * frameSize) (ownFirst : (vm.pool pd).pageDirectory = first * frameSize)
    (notTop : f ≠ top) : (copyKernel vm pd kernel).mem f i = if first ≤ f ∧ f < first + 4 then
        vm.readWord (vm.pool kernel).pageDirectory ((f - first) * 512 + i) &&& ~~~pageUser else vm.mem f i := by
  unfold copyKernel
  simp only [ownTop, ownFirst, address_div]
  refine (mem_fillFrames _ first 4 f i fun j i =>
    vm.readWord (vm.pool kernel).pageDirectory (j * 512 + i) &&& ~~~pageUser).trans ?_
  rw [mem_fillFrame, if_neg notTop]

lemma copyKernel_tables (vm : Vm) (pd kernel s : Nat) : ((copyKernel vm pd kernel).pool pd).tables s =
      let entry := vm.readWord (vm.pool kernel).pageDirectory s &&& ~~~pageUser
      if isPresent entry && !isLarge entry then (vm.pool kernel).tables s
      else (vm.pool pd).tables s := by
  unfold copyKernel
  simp [setPd_pool]

section

variable (none : ∀ kernel, vm.kernelPd = some kernel → (vm.pool kernel).directory = 0)
include none

lemma kernelEntry_none : kernelEntry vm = fun _ => 0 := by
  funext i
  unfold kernelEntry
  split
  · rfl
  · rename_i kernel found
    rw [if_pos (none kernel found)]

lemma kernelTable_none : kernelTable vm = fun _ => 0 := by
  funext i
  unfold kernelTable
  rw [kernelEntry_none none]
  split <;> simp [isPresent]

end

lemma KernelHeld.readWord {entries : Nat → Word} {tables : Nat → Nat}
    (held : KernelHeld vm) (made : Created vm after pd top second first entries tables)
    (isKernel : vm.kernelPd = some kernel) (below : s < pageTableSlots) :
    after.readWord (vm.pool kernel).pageDirectory s = vm.readWord (vm.pool kernel).pageDirectory s := by
  refine made.mem _ _ fun listed => ?_
  exact (held kernel isKernel).2 (s / 512) (slot_div_lt below) (made.free _ listed)

lemma pagingCreateUserDirectory_ok (clean : vm.pmem.Clean) (held : KernelHeld vm)
    (created : pagingCreateUserDirectory vm = (after, some pd)) : ∃ top second first,
      Created vm after pd top second first (kernelEntry vm) (kernelTable vm) := by
  unfold pagingCreateUserDirectory at created
  split at created
  · simp at created
  rename_i one own bare
  obtain ⟨top, second, first, made⟩ := pagingCreateDirectory_ok clean bare
  refine ⟨top, second, first, ?_⟩
  rw [made.kernelPd] at created
  split at created
  · rename_i noKernel
    obtain ⟨rfl, rfl⟩ := by simpa using created
    have none : ∀ kernel, vm.kernelPd = some kernel → (vm.pool kernel).directory = 0 := by
      simp [noKernel]
    rwa [kernelEntry_none none, kernelTable_none none]
  · rename_i kernel isKernel
    have older : kernel ≠ own := by
      have bound := (held kernel isKernel).1
      have index := made.index
      omega
    split at created
    · rename_i unset
      obtain ⟨rfl, rfl⟩ := by simpa using created
      rw [made.others kernel older] at unset
      have none : ∀ k, vm.kernelPd = some k → (vm.pool k).directory = 0 := by
        intro k found
        obtain rfl : kernel = k := Option.some.inj (isKernel.symm.trans found)
        exact unset
      rwa [kernelEntry_none none, kernelTable_none none]
    · rename_i rooted
      obtain ⟨rfl, rfl⟩ := by simpa using created
      rw [made.others kernel older] at rooted
      have copied : ∀ s < pageTableSlots,
          one.readWord (one.pool kernel).pageDirectory s &&& ~~~pageUser = kernelEntry vm s := by
        intro s below
        simp [kernelEntry, isKernel, rooted, made.others kernel older, held.readWord made isKernel below]
      have shape := copyKernel_shape one own kernel
      refine ⟨made.index, made.room, ?_, ?_, fun q apart => ?_, ?_, ?_, ?_, fun s below => ?_,
        fun f i outside => ?_, fun s below => ?_, ?_, made.free, made.distinct⟩
      · rw [shape]; exact made.pageDirectoryCount
      · rw [shape]; exact made.kernelPd
      · rw [shape]
        simp only [setPd_pool, if_neg apart]
        exact made.others q apart
      · rw [shape]; simp [setPd_pool, made.directory]
      · rw [shape]; simp [setPd_pool, made.pdpt]
      · rw [shape]; simp [setPd_pool, made.pageDirectory]
      · rw [copyKernel_tables, copied s below, made.others kernel older, made.tables s below]
        simp [kernelTable, isKernel]
      · have apart := outside
        simp only [directoryFrames, mem_cons, mem_range'_1, not_or] at apart
        rw [copyKernel_mem one i made.directory made.pageDirectory apart.1, if_neg apart.2.2,
          made.mem f i outside]
      · have position := slot_div_lt below
        obtain ⟨notTop, _⟩ := directoryFrames_apart made.distinct position
        rw [Vm.readWord, address_div,
          copyKernel_mem one _ made.directory made.pageDirectory notTop, if_pos (by omega),
          show first + s / 512 - first = s / 512 by omega, Nat.div_add_mod', copied s below]
      · rw [shape]; exact made.pmem

end Galio

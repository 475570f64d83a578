import Mathlib.Data.Finset.Card
import Mathlib.Order.Interval.Finset.Nat
import Galio.Mm.CloneLaws

/-! When `paging_clone_directory` copies every user page, and when it leaves a part of a copy. -/

namespace Galio

open List

variable {i f s free : Nat}

/-- The lowest free frame of the region the paging code allocates from. -/
def FirstFree (pmem : Pmem) (frame : Nat) : Prop :=
  RegionFree pmem frame ∧ ∀ earlier, earlier < frame → ¬RegionFree pmem earlier

variable {after vm : Vm} {high low : Nat} {pmem : Pmem}

lemma FirstFree.unique {frame other : Nat} (one : FirstFree pmem frame)
    (two : FirstFree pmem other) : frame = other := by
  rcases Nat.lt_trichotomy frame other with below | same | above
  · exact absurd one.1 (two.2 frame below)
  · exact same
  · exact absurd two.1 (one.2 other above)

lemma allocRegion_firstFree (returned : (allocRegion vm 1).2 ≠ 0) :
    ∃ frame, (allocRegion vm 1).2 = frame * frameSize ∧
      (allocRegion vm 1).1 = { vm with pmem := vm.pmem.refFrames [frame] } ∧
      FirstFree vm.pmem frame := by
  obtain ⟨frame, address, taken, free⟩ := allocRegion_ok returned
  refine ⟨frame, address, taken, free frame (by simp), fun earlier before other => ?_⟩
  refine allocRegion_first (by decide) address returned before fun i below => ?_
  rwa [show i = 0 by omega]

lemma allocPageTable_firstFree (returned : (allocPageTable vm).2 ≠ 0) :
    ∃ frame, (allocPageTable vm).1.pmem = vm.pmem.refFrames [frame] ∧ FirstFree vm.pmem frame := by
  have succeeded : (allocRegion vm 1).2 ≠ 0 := by
    intro failed
    exact returned (by simp [allocPageTable, failed])
  obtain ⟨frame, _, taken, first⟩ := allocRegion_firstFree succeeded
  refine ⟨frame, ?_, first⟩
  unfold allocPageTable
  dsimp only
  rw [if_neg succeeded, fillFrame_pmem, taken]

/-- Room for a directory: besides the two lowest free frames, four frames in a row are free. -/
structure RoomFor (pmem : Pmem) (top second first : Nat) : Prop where
  lowest : FirstFree pmem top
  free : RegionFree pmem second
  other : second ≠ top
  next : ∀ earlier, earlier < second → earlier ≠ top → ¬RegionFree pmem earlier
  run : ∀ j, j < 4 → RegionFree pmem (first + j) ∧ first + j ≠ top ∧ first + j ≠ second

/-- A directory fits the region. -/
def DirectoryFits (pmem : Pmem) : Prop := ∃ top second first, RoomFor pmem top second first

lemma directoryFits_iff (clean : pmem.Clean) {top : Nat} (lowest : FirstFree pmem top) :
    DirectoryFits pmem ↔ ∃ second first, FirstFree (pmem.refFrames [top]) second ∧
      RegionRun ((pmem.refFrames [top]).refFrames [second]) first 4 := by
  have later := clean.refFrames [top]
  constructor
  · rintro ⟨top', second, first, room⟩
    obtain rfl := lowest.unique room.lowest
    refine ⟨second, first, ⟨?_, fun earlier before free => ?_⟩, fun j below => ?_⟩
    · exact (regionFree_refFrames clean).mpr ⟨room.free, by simpa using room.other⟩
    · obtain ⟨old, apart⟩ := (regionFree_refFrames clean).mp free
      exact room.next earlier before (by simpa using apart) old
    · obtain ⟨free, notTop, notSecond⟩ := room.run j below
      exact (regionFree_refFrames later).mpr
        ⟨(regionFree_refFrames clean).mpr ⟨free, by simpa using notTop⟩, by simpa using notSecond⟩
  · rintro ⟨second, first, ⟨free, least⟩, run⟩
    obtain ⟨old, apart⟩ := (regionFree_refFrames clean).mp free
    refine ⟨top, second, first, lowest, old, by simpa using apart, fun earlier before other free' => ?_,
      fun j below => ?_⟩
    · exact least earlier before ((regionFree_refFrames clean).mpr ⟨free', by simpa using other⟩)
    · obtain ⟨once, notSecond⟩ := (regionFree_refFrames later).mp (run j below)
      obtain ⟨twice, notTop⟩ := (regionFree_refFrames clean).mp once
      exact ⟨twice, by simpa using notTop, by simpa using notSecond⟩

/-- The lower levels are built, or some of their frames are taken and not given back. -/
theorem buildLevels_cases (vm : Vm) (pd top : Nat) : ((∃ second first, FirstFree vm.pmem second ∧
        RegionRun (vm.pmem.refFrames [second]) first 4) ∧
      ∃ after, buildLevels vm pd (top * frameSize) = (after, some pd)) ∨
    ((¬∃ second first, FirstFree vm.pmem second ∧ RegionRun (vm.pmem.refFrames [second]) first 4) ∧
      ∃ after taken, buildLevels vm pd (top * frameSize) = (after, none) ∧
        after.pmem = vm.pmem.refFrames taken ∧ ∀ f ∈ taken, RegionFree vm.pmem f) := by
  unfold buildLevels
  dsimp only
  generalize started : (vm.fillFrame (top * frameSize / frameSize) fun _ => 0).setPd pd _ = one
  have pmemOne : one.pmem = vm.pmem := by rw [← started]; rfl
  by_cases noSecond : (allocPageTable one).2 = 0
  · -- Where one frame is not to be had, four are not either.
    have empty : ∀ f, ¬RegionFree vm.pmem f := by
      intro f free
      rw [← pmemOne] at free
      exact allocPageTable_some free noSecond
    refine .inr ⟨fun ⟨second, _, first, _⟩ => empty second first.1, ?_⟩
    have same := allocPageTable_fail noSecond
    have noFirst : (allocRegion one 4).2 = 0 := by
      by_contra returned
      obtain ⟨frame, _, _, free⟩ := allocRegion_ok returned
      rw [pmemOne] at free
      exact empty frame (free frame (by simp))
    rw [same, if_pos (.inl noSecond), allocRegion_fail noFirst]
    exact ⟨one, [], rfl, by rw [pmemOne]; rfl, by simp⟩
  · obtain ⟨second, taken, lowest⟩ := allocPageTable_firstFree noSecond
    rw [pmemOne] at taken lowest
    by_cases noFirst : (allocRegion (allocPageTable one).1 4).2 = 0
    · refine .inr ⟨?_, ?_⟩
      · rintro ⟨second', first, lowest', run⟩
        obtain rfl := lowest.unique lowest'
        rw [← taken] at run
        exact allocRegion_some (by decide) run noFirst
      · rw [if_pos (.inr noFirst), allocRegion_fail noFirst]
        exact ⟨_, [second], rfl, taken, by simpa using lowest.1⟩
    · refine .inl ⟨?_, ?_⟩
      · obtain ⟨first, _, _, free⟩ := allocRegion_ok noFirst
        rw [taken] at free
        refine ⟨second, first, lowest, fun i below => free _ ?_⟩
        rw [mem_range'_1]
        omega
      · rw [if_neg (by simp [noSecond, noFirst])]
        exact ⟨_, rfl⟩

/-- The ways `paging_create_directory` ends. -/
inductive CreateEnds (vm : Vm) : Vm × Option Nat → Prop
  /-- The pool is full. -/
  | full (full : vm.pageDirectoryCount ≥ maxPageDirs) : CreateEnds vm (vm, none)
  /-- The region has no free frame, and the pool's slot is lost. -/
  | empty {after : Vm} (room : vm.pageDirectoryCount < maxPageDirs)
    (empty : ∀ f, ¬RegionFree vm.pmem f) (pmem : after.pmem = vm.pmem) (mem : after.mem = vm.mem)
    (others : ∀ q, q ≠ vm.pageDirectoryCount → after.pool q = vm.pool q) :
    CreateEnds vm (after, none)
  /-- Some level is missing, and the frames of the others stay taken. -/
  | short {after : Vm} {top : Nat} (room : vm.pageDirectoryCount < maxPageDirs)
    (lowest : FirstFree vm.pmem top) (short : ¬DirectoryFits vm.pmem)
    (leaked : after.pmem.frameRefcount top ≠ vm.pmem.frameRefcount top) :
    CreateEnds vm (after, none)
  /-- All levels are there. -/
  | made {after : Vm} {top : Nat} (room : vm.pageDirectoryCount < maxPageDirs)
    (lowest : FirstFree vm.pmem top) (fits : DirectoryFits vm.pmem) :
    CreateEnds vm (after, some vm.pageDirectoryCount)

lemma pagingCreateDirectory_ends (clean : vm.pmem.Clean) : CreateEnds vm (pagingCreateDirectory vm) := by
  unfold pagingCreateDirectory allocPageDirectory
  by_cases full : vm.pageDirectoryCount ≥ maxPageDirs
  · rw [if_pos full]
    exact .full full
  · rw [if_neg full]
    dsimp only
    have room : vm.pageDirectoryCount < maxPageDirs := Nat.lt_of_not_le full
    generalize pooled : (⟨_, _, _, vm.pageDirectoryCount + 1, _⟩ : Vm) = one
    have pmemOne : one.pmem = vm.pmem := by rw [← pooled]; rfl
    by_cases noTop : (allocRegion one 1).2 = 0
    · rw [if_pos noTop, allocRegion_fail noTop]
      refine .empty room (fun f free => ?_) pmemOne (by rw [← pooled]; rfl) fun q other => ?_
      · have single : RegionRun one.pmem f 1 := fun i below => by
          rwa [pmemOne, show i = 0 by omega]
        exact allocRegion_some (by decide) single noTop
      · rw [← pooled]
        exact (setPd_pool vm _ q _).trans (if_neg other)
    · obtain ⟨top, address, taken, lowest⟩ := allocRegion_firstFree noTop
      rw [if_neg noTop, address, taken]
      rw [pmemOne] at lowest ⊢
      have fits := directoryFits_iff clean lowest
      rcases buildLevels_cases { one with pmem := vm.pmem.refFrames [top] } vm.pageDirectoryCount top
        with ⟨built, after, ran⟩ | ⟨unbuilt, after, more, ran, rest, free⟩
      · rw [ran]
        exact .made room lowest (fits.mpr built)
      · rw [ran]
        refine .short room lowest (fun held => unbuilt (fits.mp held)) ?_
        -- The later allocations take other frames, so the top level's count is one.
        have apart : top ∉ more := fun listed => by
          have twice := (regionFree_refFrames clean).mp (free top listed)
          exact twice.2 (by simp)
        rw [rest, frameRefcount_refFrames lowest.1.tracked, count_eq_zero_of_not_mem apart]
        rw [frameRefcount_refFrames lowest.1.tracked]
        simp

lemma pagingCreateUserDirectory_none :
    pagingCreateUserDirectory vm = (after, none) ↔ pagingCreateDirectory vm = (after, none) := by
  unfold pagingCreateUserDirectory
  split
  · rename_i created
    rw [created]
  · rename_i created
    rw [created]
    split
    · simp
    · split <;> simp

/-- A user page whose directory entry and own entry are present and for users. -/
structure UserPage (vm : Vm) (pd slot index : Nat) : Prop where
  inSlots : slot < pageTableSlots
  inTable : index < 512
  linked : copiesSlot vm pd slot = true
  present : isPresent (vm.leaf pd slot index) = true
  user : isUser (vm.leaf pd slot index) = true

/-- The clone shares a page: both sides read-only, with one more reference. -/
structure SharedPage (before after : Vm) (src clone slot index : Nat) : Prop where
  page : UserPage after clone slot index
  frame : entryFrame (after.leaf clone slot index) = entryFrame (before.leaf src slot index)
  cloneReadOnly : isWritable (after.leaf clone slot index) = false
  sourceReadOnly : isWritable (after.leaf src slot index) = false
  counted : pmemGetRefcount after.pmem (entryFrame (before.leaf src slot index) * frameSize) =
    pmemGetRefcount before.pmem (entryFrame (before.leaf src slot index) * frameSize) + 1

/-- A directory's tables and the entries they hold are as they were. -/
structure SameTables (before after : Vm) (pd : Nat) : Prop where
  tables : ∀ s, s < pageTableSlots → (after.pool pd).tables s = (before.pool pd).tables s
  links : ∀ s, s < pageTableSlots → after.link pd s = before.link pd s
  leaves : ∀ s, s < pageTableSlots → ∀ i, i < 512 → after.leaf pd s i = before.leaf pd s i

/-- A clone shares every user page of the source, and a failed one changes nothing. -/
def AllOrNothing (vm : Vm) (src : Nat) : Prop :=
  match pagingCloneDirectory vm src with
  | (after, some clone) => ∀ slot index, UserPage vm src slot index →
      SharedPage vm after src clone slot index
  | (after, none) => SameTables vm after src ∧
      ∀ frame, after.pmem.frameRefcount frame = vm.pmem.frameRefcount frame

/-- A source whose user pages lie in frames that are in use. -/
structure ForkSource (vm : Vm) (src : Nat) : Prop extends CloneSource vm src where
  held : ∀ s i, UserPage vm src s i → ¬RegionFree vm.pmem (entryFrame (vm.leaf src s i))

/-- The number of free frames in the region of the paging code. -/
def freeFrames (pmem : Pmem) : Nat :=
  ((Finset.Ico regionFirst regionLimit).filter fun f => pmem.frameBitmap f = false).card

/-- The slots below a bound whose tables are to be copied. -/
def copiedSlots (vm : Vm) (src limit : Nat) : List Nat :=
  (List.range limit).filter fun s => copiesSlot vm src s

/-- The frames of the user pages of the slots below a bound, once for each page. -/
def userFrames (vm : Vm) (pd limit : Nat) : List Nat :=
  (List.range limit).flatMap fun s =>
    if copiesSlot vm pd s then sharedFrames vm (vm.tableFrame pd s) 512 else []

/--
What a fork needs to copy everything or nothing. The pool is full or no frame is free; or a directory fits, the
frames left reach to the last slot with a user page, no page's count wraps and no page's frame is mapped twice.
-/
def ForkFits (vm : Vm) (src : Nat) : Prop :=
  vm.pageDirectoryCount ≥ maxPageDirs ∨ (∀ f, ¬RegionFree vm.pmem f) ∨
  (DirectoryFits vm.pmem ∧ ∀ s i, UserPage vm src s i →
    (copiedSlots vm src s).length + 6 < freeFrames vm.pmem ∧
    entryFrame (vm.leaf src s i) < maxFrames ∧
    ((vm.pmem.frameRefcount (entryFrame (vm.leaf src s i))).toNat +
      (userFrames vm src pageTableSlots).count (entryFrame (vm.leaf src s i))) % 256 =
        (vm.pmem.frameRefcount (entryFrame (vm.leaf src s i))).toNat + 1)

lemma freeFrames_taken {before after : Pmem} {taken : List Nat} (distinct : taken.Nodup)
    (free : ∀ f ∈ taken, RegionFree before f) (left : ∀ f, RegionFree after f ↔ RegionFree before f ∧ f ∉ taken) :
    freeFrames after + taken.length = freeFrames before := by
  have member : ∀ (pmem : Pmem) f,
      f ∈ (Finset.Ico regionFirst regionLimit).filter (fun f => pmem.frameBitmap f = false) ↔
        RegionFree pmem f := by
    intro pmem f
    rw [Finset.mem_filter, Finset.mem_Ico]
    exact ⟨fun ⟨⟨first, below⟩, clear⟩ => ⟨first, below, clear⟩,
      fun free => ⟨⟨free.first, free.below⟩, free.clear⟩⟩
  -- The free frames before are those after together with the frames taken.
  rw [freeFrames, ← toFinset_card_of_nodup distinct, ← Finset.card_union_of_disjoint]
  · congr 1
    ext f
    rw [Finset.mem_union, member, member, mem_toFinset, left]
    constructor
    · rintro (⟨free', _⟩ | listed)
      · exact free'
      · exact free f listed
    · intro free'
      by_cases listed : f ∈ taken
      · exact .inr listed
      · exact .inl ⟨free', listed⟩
  · rw [Finset.disjoint_left]
    intro f after' listed
    exact ((left f).mp ((member _ f).mp after')).2 (mem_toFinset.mp listed)

lemma leaf_eq_mem (vm : Vm) (pd slot : Nat) (inTable : i < 512) :
    vm.leaf pd slot i = vm.mem (vm.tableFrame pd slot) i :=
  readWord_small vm _ inTable

lemma mem_sharedFrames {pd slot : Nat} (inSlots : slot < pageTableSlots)
    (linked : copiesSlot vm pd slot) : f ∈ sharedFrames vm (vm.tableFrame pd slot) 512 ↔
      ∃ i, UserPage vm pd slot i ∧ entryFrame (vm.leaf pd slot i) = f := by
  simp only [sharedFrames, mem_flatMap, mem_range]
  constructor
  · rintro ⟨i, inTable, listed⟩
    rw [← leaf_eq_mem vm pd slot inTable, sharedFrame] at listed
    split at listed
    · rename_i tests
      obtain ⟨present, user⟩ := by simpa using tests
      exact ⟨i, ⟨inSlots, inTable, linked, present, user⟩, (mem_singleton.mp listed).symm⟩
    · exact absurd listed not_mem_nil
  · rintro ⟨i, page, rfl⟩
    refine ⟨i, page.inTable, ?_⟩
    rw [← leaf_eq_mem vm pd slot page.inTable, sharedFrame, page.present, page.user]
    simp

lemma copiedSlots_mono (vm : Vm) (src : Nat) (below : low ≤ high) :
    (copiedSlots vm src low).length ≤ (copiedSlots vm src high).length :=
  ((range_sublist.mpr below).filter _).length_le

lemma flatMap_range_cut {contribution : Nat → List Nat} (below : low ≤ high)
    (nothing : ∀ s, low ≤ s → s < high → contribution s = []) :
    (range high).flatMap contribution = (range low).flatMap contribution := by
  induction high with
  | zero => rw [Nat.le_zero.mp below]
  | succ high ih =>
    rcases Nat.lt_or_eq_of_le below with earlier | rfl
    · rw [range_succ, flatMap_append, flatMap_singleton,
        nothing high (by omega) (by omega), append_nil]
      exact ih (by omega) fun s above inside => nothing s above (by omega)
    · rfl

section Cloned

variable {vm mid after : Vm} {src clone top second first last : Nat} {entries : Nat → Word}
  {tables table : Nat → Nat} (source : ForkSource vm src)
  (made : Created vm mid clone top second first entries tables)

include source made

lemma ForkSource.mem_table (inSlots : s < pageTableSlots) (linked : copiesSlot vm src s) (i : Nat) :
    mid.mem (vm.tableFrame src s) i = vm.mem (vm.tableFrame src s) i :=
  made.mem_used (source.tableUsed s inSlots linked) i

lemma ForkSource.sharedFrames_eq (inSlots : s < pageTableSlots) (linked : copiesSlot vm src s) :
    sharedFrames mid (mid.tableFrame src s) 512 = sharedFrames vm (vm.tableFrame src s) 512 := by
  rw [source.tableFrame made]
  exact flatMap_congr fun i _ => by rw [source.mem_table made inSlots linked]

lemma ForkSource.copiedSlots_eq {limit : Nat} (fits : limit ≤ pageTableSlots) :
    copiedSlots mid src limit = copiedSlots vm src limit := by
  refine filter_congr fun s member => ?_
  exact source.copiesSlot_eq made (Nat.lt_of_lt_of_le (mem_range.mp member) fits)

lemma ForkSource.freeFrames_created : freeFrames mid.pmem + 6 = freeFrames vm.pmem := by
  refine freeFrames_taken made.distinct made.free fun f => ?_
  rw [made.pmem]
  exact regionFree_refFrames source.clean

variable (copied : CopiedSlots mid after src clone last table) (fits : last ≤ pageTableSlots)

section Pages

include copied

lemma ForkSource.copied_page (page : UserPage vm src s i) (below : s < last) : UserPage after clone s i ∧
      entryFrame (after.leaf clone s i) = entryFrame (vm.leaf src s i) ∧
      isWritable (after.leaf clone s i) = false ∧ isWritable (after.leaf src s i) = false := by
  have linked := page.linked
  rw [← source.copiesSlot_eq made page.inSlots] at linked
  have here : CopiedBelow mid src last s := ⟨below, linked⟩
  have free := copied.free s here
  have read : mid.mem (mid.tableFrame src s) i = vm.leaf src s i := by
    rw [source.tableFrame made, source.mem_table made page.inSlots page.linked, leaf_eq_mem vm src s page.inTable]
  have cloneLeaf : after.leaf clone s i = vm.leaf src s i &&& ~~~pageRw := by
    rw [leaf_eq_mem _ _ _ page.inTable, Vm.tableFrame, copied.newTable s here, address_div,
      copied.newEntry s here i page.inTable, read, clonedEntry_user page.present page.user]
  have sourceLeaf : after.leaf src s i = sharedEntry (vm.leaf src s i) := by
    rw [leaf_eq_mem _ _ _ page.inTable, copied.tableFrame_source (source.ready made),
      copied.oldEntry s here i page.inTable, read]
  refine ⟨⟨page.inSlots, page.inTable, ?_, ?_, ?_⟩, ?_, ?_, ?_⟩
  · rw [copiesSlot, copied.newTable s here, copied.newLink s page.inSlots here]
    simp [free.address_ne_zero]
  · rw [cloneLeaf, isPresent_readOnly]
    exact page.present
  · rw [cloneLeaf, isUser_readOnly]
    exact page.user
  · rw [cloneLeaf, entryFrame_readOnly]
  · rw [cloneLeaf, isWritable_readOnly]
  · rw [sourceLeaf]
    exact isWritable_sharedEntry page.present page.user

omit source

lemma CopiedSlots.missing_page (kernel : ∀ s, isUser (entries s) = false)
    (beyond : last ≤ s) : ¬UserPage after clone s i := by
  intro page
  have linked := page.linked
  have absent : ¬CopiedBelow mid src last s := fun here => by have := here.1; omega
  have entry : mid.link clone s = entries s := by
    rw [Vm.link, made.pageDirectory, made.entries s page.inSlots]
  rw [copiesSlot, copied.oldLink s page.inSlots absent, entry, kernel s] at linked
  simp at linked

end Pages

include fits

lemma ForkSource.mem_refs (listed : f ∈ cloneRefs mid src last table) :
    f ∈ (copiedSlots mid src last).map table ∨ ¬RegionFree vm.pmem f := by
  obtain ⟨s, member, here⟩ := mem_flatMap.mp listed
  have below := mem_range.mp member
  have inSlots := below.trans_le fits
  split at here
  · rename_i linked
    rcases mem_cons.mp here with rfl | shared
    · exact .inl (mem_map.mpr ⟨s, mem_filter.mpr ⟨member, linked⟩, rfl⟩)
    · right
      rw [source.copiesSlot_eq made inSlots] at linked
      rw [source.sharedFrames_eq made inSlots linked, mem_sharedFrames inSlots linked] at shared
      obtain ⟨i, page, rfl⟩ := shared
      exact source.held s i page
  · exact absurd here not_mem_nil

include copied

lemma ForkSource.freeFrames_copied :
    freeFrames after.pmem + (copiedSlots vm src last).length + 6 = freeFrames vm.pmem := by
  have ready := source.ready made
  have taken : freeFrames after.pmem + ((copiedSlots mid src last).map table).length = freeFrames mid.pmem := by
    have member : ∀ s ∈ copiedSlots mid src last, CopiedBelow mid src last s := by
      intro s listed
      obtain ⟨inRange, linked⟩ := mem_filter.mp listed
      exact ⟨mem_range.mp inRange, linked⟩
    refine freeFrames_taken ?_ (fun f listed => ?_) fun f => ?_
    · exact List.Nodup.map_on (fun s one t two => copied.distinct s (member s one) t (member t two))
        (nodup_range.filter _)
    · obtain ⟨s, one, rfl⟩ := mem_map.mp listed
      exact copied.free s (member s one)
    · rw [copied.pmem, regionFree_refFrames ready.clean]
      refine and_congr_right fun free => not_congr ⟨fun listed => ?_, fun listed => ?_⟩
      · refine (source.mem_refs made fits listed).resolve_right fun used => ?_
        exact source.used made used free
      · obtain ⟨s, one, rfl⟩ := mem_map.mp listed
        exact mem_cloneRefs (member s one)
  have created := source.freeFrames_created made
  rw [length_map, source.copiedSlots_eq made fits] at taken
  omega

lemma ForkSource.reached_iff (ends : CloneEnds mid after src last) (inSlots : s < pageTableSlots)
    (linked : copiesSlot vm src s) : s < last ↔ (copiedSlots vm src s).length + 6 < freeFrames vm.pmem := by
  have balance := source.freeFrames_copied made copied fits
  constructor
  · intro below
    have passed : (copiedSlots vm src (s + 1)).length = (copiedSlots vm src s).length + 1 := by
      simp [copiedSlots, range_succ, linked]
    have more := copiedSlots_mono vm src (show s + 1 ≤ last from below)
    omega
  · intro enough
    by_contra beyond
    have fewer := copiedSlots_mono vm src (Nat.le_of_not_lt beyond)
    -- The loop stopped early, so no frame is left and every frame went to an earlier slot.
    rcases ends with whole | ⟨_, _, empty⟩
    · omega
    · have none : freeFrames after.pmem = 0 := by
        rw [freeFrames, Finset.card_eq_zero, Finset.filter_eq_empty_iff]
        intro f inside clear
        rw [Finset.mem_Ico] at inside
        exact empty f ⟨inside.1, inside.2, clear⟩
      omega

lemma ForkSource.counted (used : ¬RegionFree vm.pmem f) (tracked : f < maxFrames) :
    after.pmem.frameRefcount f = vm.pmem.frameRefcount f + UInt8.ofNat ((userFrames vm src last).count f) := by
  have notDirectory : f ∉ directoryFrames top second first := fun listed => used (made.free f listed)
  -- Apart from its own pages a frame in use is named by neither the directory nor a new table.
  have same : (cloneRefs mid src last table).count f = (userFrames vm src last).count f := by
    rw [cloneRefs, userFrames, count_flatMap, count_flatMap]
    congr 1
    refine map_congr_left fun s member => ?_
    have below := mem_range.mp member
    have inSlots := below.trans_le fits
    simp only [Function.comp_apply, source.copiesSlot_eq made inSlots]
    split
    · rename_i linked
      have apart : table s ≠ f := fun equal => source.used made used (equal ▸
        copied.free s ⟨below, by rw [source.copiesSlot_eq made inSlots]; exact linked⟩)
      rw [count_cons_of_ne apart, source.sharedFrames_eq made inSlots linked]
    · rfl
  rw [copied.pmem, frameRefcount_refFrames tracked, made.pmem, frameRefcount_refFrames tracked,
    count_eq_zero_of_not_mem notDirectory, same]
  simp

end Cloned

/-- Whether a clone shares every page shows in the state before. -/
theorem pagingCloneDirectory_shares_iff {src clone : Nat}
    (source : ForkSource vm src) (cloned : pagingCloneDirectory vm src = (after, some clone)) :
    (∀ s i, UserPage vm src s i → SharedPage vm after src clone s i) ↔ ∀ s i, UserPage vm src s i →
        (copiedSlots vm src s).length + 6 < freeFrames vm.pmem ∧ entryFrame (vm.leaf src s i) < maxFrames ∧
        ((vm.pmem.frameRefcount (entryFrame (vm.leaf src s i))).toNat +
          (userFrames vm src pageTableSlots).count (entryFrame (vm.leaf src s i))) % 256 =
            (vm.pmem.frameRefcount (entryFrame (vm.leaf src s i))).toNat + 1 := by
  obtain ⟨mid, top, second, first, last, table, made, fits, copied, ends⟩ :=
    pagingCloneDirectory_ok source.toCloneSource cloned
  -- Once every user page is reached, the slots beyond have none and count for nothing.
  have counts : (∀ s i, UserPage vm src s i → s < last) → ∀ s i, UserPage vm src s i →
      entryFrame (vm.leaf src s i) < maxFrames →
      (after.pmem.frameRefcount (entryFrame (vm.leaf src s i))).toNat =
        ((vm.pmem.frameRefcount (entryFrame (vm.leaf src s i))).toNat +
          (userFrames vm src pageTableSlots).count (entryFrame (vm.leaf src s i))) % 256 := by
    intro reached s i page tracked
    have whole : userFrames vm src pageTableSlots = userFrames vm src last := by
      refine flatMap_range_cut fits fun t beyond inSlots => ?_
      split
      · rename_i linked
        refine eq_nil_iff_forall_not_mem.mpr fun f listed => ?_
        obtain ⟨j, other, _⟩ := (mem_sharedFrames inSlots linked).mp listed
        exact absurd (reached t j other) (Nat.not_lt.mpr beyond)
      · rfl
    rw [source.counted made copied fits (source.held s i page) tracked, whole]
    simp
  have reach := fun s i (page : UserPage vm src s i) =>
    source.reached_iff made copied fits ends page.inSlots page.linked
  constructor
  · intro shares
    have reached : ∀ s i, UserPage vm src s i → s < last := by
      intro s i page
      by_contra beyond
      exact copied.missing_page made (isUser_kernelEntry vm) (Nat.le_of_not_lt beyond) (shares s i page).page
    intro s i page
    have counted := (shares s i page).counted
    simp only [pmemGetRefcount, address_div] at counted
    have tracked : entryFrame (vm.leaf src s i) < maxFrames := by
      by_contra untracked
      simp [untracked] at counted
    rw [if_pos tracked, if_pos tracked, counts reached s i page tracked] at counted
    exact ⟨(reach s i page).mp (reached s i page), tracked, counted⟩
  · intro enough s i page
    have reached : ∀ t j, UserPage vm src t j → t < last := fun t j other =>
      (reach t j other).mpr (enough t j other).1
    obtain ⟨_, tracked, grown⟩ := enough s i page
    obtain ⟨there, frame, cloneReadOnly, sourceReadOnly⟩ :=
      source.copied_page made copied page (reached s i page)
    refine ⟨there, frame, cloneReadOnly, sourceReadOnly, ?_⟩
    simp only [pmemGetRefcount, address_div, if_pos tracked]
    rw [counts reached s i page tracked, grown]

/-- What `paging_clone_directory` answers, and leaves when it fails. -/
theorem pagingCloneDirectory_ends (clean : vm.pmem.Clean) (src : Nat) :
    (∃ after, CreateEnds vm (after, none) ∧ pagingCloneDirectory vm src = (after, none)) ∨
    (∃ mid after, CreateEnds vm (mid, some vm.pageDirectoryCount) ∧
      pagingCloneDirectory vm src = (after, some vm.pageDirectoryCount)) := by
  have ends := pagingCreateDirectory_ends clean
  cases created : pagingCreateDirectory vm with
  | mk mid answer =>
    rw [created] at ends
    cases answer with
    | none =>
      exact .inl ⟨mid, ends, pagingCloneDirectory_none.mpr (pagingCreateUserDirectory_none.mpr created)⟩
    | some pd =>
      obtain rfl : pd = vm.pageDirectoryCount := by
        cases ends with
        | made => rfl
      refine .inr ⟨mid, ?_⟩
      have user : ∃ after, pagingCreateUserDirectory vm = (after, some vm.pageDirectoryCount) := by
        unfold pagingCreateUserDirectory
        rw [created]
        dsimp only
        split
        · exact ⟨_, rfl⟩
        · split
          · exact ⟨_, rfl⟩
          · exact ⟨_, rfl⟩
      obtain ⟨one, user⟩ := user
      refine ⟨cloneSlots one src vm.pageDirectoryCount (range pageTableSlots), ends, ?_⟩
      rw [pagingCloneDirectory, user]

/--
A fork copies everything or nothing exactly when the frames and the counts allow it.

The loop returns the clone where a table cannot be allocated, and a directory whose lower levels cannot
be allocated keeps the frames it was given.
-/
theorem fork_all_or_nothing_iff {vm : Vm} {src : Nat} (source : ForkSource vm src) :
    AllOrNothing vm src ↔ ForkFits vm src := by
  rcases pagingCloneDirectory_ends source.clean src with
    ⟨after, ends, cloned⟩ | ⟨mid, after, ends, cloned⟩
  · rw [AllOrNothing, cloned]
    cases ends with
    | full full =>
      exact iff_of_true ⟨⟨fun _ _ => rfl, fun _ _ => rfl, fun _ _ _ _ => rfl⟩, fun _ => rfl⟩ (.inl full)
    | empty room empty pmem mem others =>
      -- Only the slot of the pool is lost, and it is not the source's.
      have pool := others src (Nat.ne_of_lt source.known)
      refine iff_of_true ⟨⟨fun s _ => by rw [pool], fun s _ => ?_, fun s _ i _ => ?_⟩,
        fun frame => by rw [pmem]⟩ (.inr (.inl empty))
      · rw [Vm.link, Vm.link, Vm.readWord, Vm.readWord, pool, mem]
      · rw [Vm.leaf, Vm.leaf, Vm.readWord, Vm.readWord, pool, mem]
    | short room lowest short leaked =>
      apply iff_of_false (fun same => leaked (same.2 _))
      rintro (full | empty | ⟨fits, _⟩)
      · omega
      · exact empty _ lowest.1
      · exact short fits
  · rw [AllOrNothing, cloned]
    dsimp only
    rw [pagingCloneDirectory_shares_iff source cloned]
    cases ends with
    | made room lowest fits =>
      constructor
      · exact fun enough => .inr (.inr ⟨fits, enough⟩)
      · rintro (full | empty | ⟨_, enough⟩)
        · omega
        · exact absurd lowest.1 (empty _)
        · exact enough

/-- A directory with one user page, at 0x400000, and a region with a few free frames. -/
def onePageVm (free : Nat) : Vm where
  pmem :=
    { frameBitmap := fun f => !decide (5632 ≤ f ∧ f < 5632 + free)
      frameRefcount := fun f => if 5632 ≤ f ∧ f < 5632 + free then 0 else 1
      totalFrames := 32768
      usedFrames := 32768
      allocationCursor := 0
      taken := fun _ => 0
      released := fun _ => 0 }
  mem := fun f i => if f = 258 ∧ i = 2 then 0x106007 else if f = 262 ∧ i = 0 then 0x107007 else 0
  pool := fun _ => ⟨0x100000, 0x101000, 0x102000, fun s => if s = 2 then 0x106000 else 0⟩
  pageDirectoryCount := 2
  kernelPd := none

lemma onePageVm_regionFree (fits : free ≤ 16) :
    RegionFree (onePageVm free).pmem f ↔ 5632 ≤ f ∧ f < 5632 + free := by
  constructor
  · intro isFree
    simpa [onePageVm] using isFree.clear
  · intro inside
    refine ⟨?_, ?_, by simpa [onePageVm] using inside⟩
    · simp only [regionFirst, pagingAllocStart, frameSize]
      omega
    · simp only [regionLimit, pagingAllocEnd, frameSize]
      omega

lemma onePageVm_tableFrame : (onePageVm free).tableFrame 1 2 = 262 := by
  simp [Vm.tableFrame, onePageVm, frameSize]

lemma onePageVm_leaf (inTable : i < 512) : (onePageVm free).leaf 1 2 i = if i = 0 then 0x107007 else 0 := by
  rw [leaf_eq_mem _ _ _ inTable, onePageVm_tableFrame]
  simp [onePageVm]

lemma onePageVm_copiesSlot : copiesSlot (onePageVm free) 1 s ↔ s = 2 := by
  by_cases two : s = 2
  · simp [copiesSlot, Vm.link, Vm.readWord, onePageVm, frameSize, isPresent, isUser, two]
  · simp [copiesSlot, onePageVm, two]

lemma onePageVm_page : UserPage (onePageVm free) 1 s i ↔ s = 2 ∧ i = 0 := by
  constructor
  · intro page
    obtain rfl := onePageVm_copiesSlot.mp page.linked
    refine ⟨rfl, ?_⟩
    have present := page.present
    by_contra other
    rw [onePageVm_leaf page.inTable, if_neg other] at present
    simp at present
  · rintro ⟨rfl, rfl⟩
    have read : (onePageVm free).leaf 1 2 0 = 0x107007 := onePageVm_leaf (by decide)
    exact ⟨by decide, by decide, onePageVm_copiesSlot.mpr rfl, by rw [read]; decide, by rw [read]; decide⟩

lemma onePageVm_forkSource (fits : free ≤ 16) : ForkSource (onePageVm free) 1 := by
  have low : ∀ f < 5632, ¬RegionFree (onePageVm free).pmem f := fun f below isFree => by
    have above := ((onePageVm_regionFree fits).mp isFree).1
    omega
  refine ⟨⟨fun f clear => ?_, fun kernel none => by simp [onePageVm] at none, Nat.lt_succ_self 1,
    fun j inFour => ?_, fun s _ linked => ?_, fun s _ linked => ?_, fun s _ linked j inFour => ?_⟩,
    fun s i page => ?_⟩
  · have inside : 5632 ≤ f ∧ f < 5632 + free := by simpa [onePageVm, Pmem.cell] using clear
    simp [onePageVm, inside]
  · apply low _
    simp only [onePageVm, frameSize]
    omega
  · rw [onePageVm_copiesSlot.mp linked, onePageVm_tableFrame]
    simp [onePageVm, frameSize]
  · rw [onePageVm_copiesSlot.mp linked, onePageVm_tableFrame]
    exact low 262 (by decide)
  · rw [onePageVm_copiesSlot.mp linked, onePageVm_tableFrame]
    simp only [onePageVm, frameSize]
    omega
  · obtain ⟨rfl, rfl⟩ := onePageVm_page.mp page
    rw [onePageVm_leaf (by decide)]
    exact low 263 (by decide)

lemma onePageVm_directoryFits (enough : 6 ≤ free) (fits : free ≤ 16) : DirectoryFits (onePageVm free).pmem := by
  have region : ∀ f, RegionFree (onePageVm free).pmem f ↔ 5632 ≤ f ∧ f < 5632 + free :=
    fun f => onePageVm_regionFree fits
  refine ⟨5632, 5633, 5634, ⟨(region _).mpr (by omega), fun earlier below => ?_⟩,
    (region _).mpr (by omega), by decide, fun earlier below other => ?_, fun j inFour => ?_⟩
  all_goals
    rw [region]
    omega

/-- With one frame more than a directory takes, the page's table is copied too. -/
theorem fork_all_or_nothing_seven : AllOrNothing (onePageVm 7) 1 := by
  refine (fork_all_or_nothing_iff (onePageVm_forkSource (by decide))).mpr (.inr (.inr
    ⟨onePageVm_directoryFits (by decide) (by decide), fun s i page => ?_⟩))
  obtain ⟨rfl, rfl⟩ := onePageVm_page.mp page
  decide +kernel

/-- With no more frames than a directory takes, the clone comes back without the page. -/
theorem fork_returns_part : ForkSource (onePageVm 6) 1 ∧
    (pagingCloneDirectory (onePageVm 6) 1).2 = some 2 ∧ ¬AllOrNothing (onePageVm 6) 1 := by
  obtain ⟨returned, unlinked⟩ : (pagingCloneDirectory (onePageVm 6) 1).2 = some 2 ∧
      ¬isPresent ((pagingCloneDirectory (onePageVm 6) 1).1.leaf 2 2 0) := by decide +kernel
  refine ⟨onePageVm_forkSource (by decide), returned, fun shares => ?_⟩
  rw [AllOrNothing] at shares
  generalize pagingCloneDirectory (onePageVm 6) 1 = result at returned unlinked shares
  obtain ⟨after, _⟩ := result
  cases returned
  exact unlinked (shares 2 0 (onePageVm_page.mpr ⟨rfl, rfl⟩)).page.present

end Galio

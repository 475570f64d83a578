import Galio.Mm.SharedMemory
import Galio.Syscall.MemoryLaws

/-! When `mmap` delivers the memory it answers with, and the slots that mappings take. -/

namespace Galio

open Pmem List

variable {before after : Vm} {page frame addr : Nat} {pagedir : Option Nat} {entry : Word} {length : UInt32}
  {more : List Nat}

/-- What a stretch of the loop keeps of the directory. -/
structure Advanced (before after : Vm) (pd : Nat) (pages : List Nat) : Prop where
  space : UserSpace after pd
  kept : ∀ s, (before.pool pd).tables s ≠ 0 → (after.pool pd).tables s = (before.pool pd).tables s
  taken : ∀ f, before.pmem.taken f ≤ after.pmem.taken f
  others : ∀ page, HeapPage page → page ∉ pages →
    after.shown pd (getTableSlot page) (getPageTableIndex page) =
      before.shown pd (getTableSlot page) (getPageTableIndex page)

variable {pages rest : List Nat} {pd : Nat} {vm : Vm} {oomKill : Vm → Vm}

lemma Advanced.trans {mid : Vm} (first : Advanced before mid pd pages) (second : Advanced mid after pd more) :
    Advanced before after pd (pages ++ more) where
  space := second.space
  kept := fun s present => by
    have named := first.kept s present
    rw [second.kept s (by rwa [named]), named]
  taken := fun f => Nat.le_trans (first.taken f) (second.taken f)
  others := fun page heap absent => by
    rw [mem_append, not_or] at absent
    rw [second.others page heap absent.2, first.others page heap absent.1]

lemma Spared.advanced (space : UserSpace before pd)
    (spared : Spared before after pd) : Advanced before after pd [] where
  space := space.spared spared
  kept := fun s _ => by rw [spared.pool]
  taken := fun f => Nat.le_of_eq (spared.taken f).symm
  others := fun page heap _ => spared.shown (getTableSlot_lt heap.low) (getPageTableIndex_lt page)

lemma PageGiven.advanced (heap : HeapPage page)
    (given : PageGiven before after pd page frame) : Advanced before after pd [page] where
  space := given.space
  kept := given.kept
  taken := given.taken
  others := fun other heap' absent => by
    rw [given.shown _ (getTableSlot_lt heap'.low) _ (getPageTableIndex_lt other), if_neg]
    rintro ⟨tables, index⟩
    have slots := given.space.heap_slots heap heap' given.present tables.symm
    rw [mem_singleton] at absent
    exact absent (heap'.ext heap slots.symm index)

lemma PageLost.advanced (page : Nat) (lost : PageLost before after pd) : Advanced before after pd [page] where
  space := lost.space
  kept := fun s _ => by rw [lost.pool]
  taken := lost.taken
  others := fun page heap _ => lost.shown (getTableSlot_lt heap.low) (getPageTableIndex_lt page)

lemma mapTaken_snd (vm : Vm) (pagedir : Option Nat) (page : Nat) :
    (mapTaken vm pagedir page).2 ↔ (takeFrame vm).2 ≠ 0 := by
  unfold mapTaken
  dsimp only
  split
  · rename_i failed
    simp [failed]
  · rename_i found
    simp [found]

section Loop

variable (sparing : Sparing oomKill pd)

/-- Each page of a list finds its table at its turn, or a frame to make it of. -/
def TablesServed (oomKill : Vm → Vm) (pd : Nat) (vm : Vm) : List Nat → Prop
  | [] => True
  | page :: rest =>
    TableServed (reclaim oomKill vm) pd page ∧
      TablesServed oomKill pd (mapTaken (reclaim oomKill vm) (some pd) page).1 rest

lemma mapPages_cons (found : (takeFrame (reclaim oomKill vm)).2 ≠ 0) : mapPages oomKill vm pagedir (page :: rest) =
      ((mapPages oomKill (mapTaken (reclaim oomKill vm) pagedir page).1 pagedir rest).1,
        (mapPages oomKill (mapTaken (reclaim oomKill vm) pagedir page).1 pagedir rest).2 + 1) := by
  have going := (mapTaken_snd (reclaim oomKill vm) pagedir page).mpr found
  rw [mapPages]
  cases body : mapTaken (reclaim oomKill vm) pagedir page with
  | mk after more =>
    rw [body] at going
    cases going
    rfl

lemma mapPages_found (done : (mapPages oomKill vm pagedir (page :: rest)).2 = (page :: rest).length) :
    (takeFrame (reclaim oomKill vm)).2 ≠ 0 := by
  rw [← mapTaken_snd (reclaim oomKill vm) pagedir page]
  rw [mapPages] at done
  cases body : mapTaken (reclaim oomKill vm) pagedir page with
  | mk after more =>
    cases more with
    | true => rfl
    | false => simp [body] at done

/-- A loop over pages of the heap range, each once, that finds a frame for every one. -/
structure MapsAll (oomKill : Vm → Vm) (vm : Vm) (pd : Nat) (pages : List Nat) : Prop where
  heap : ∀ page ∈ pages, HeapPage page
  distinct : pages.Nodup
  done : (mapPages oomKill vm (some pd) pages).2 = pages.length

lemma MapsAll.head (maps : MapsAll oomKill vm pd (page :: rest)) : HeapPage page ∧ page ∉ rest ∧
    (takeFrame (reclaim oomKill vm)).2 ≠ 0 ∧
    MapsAll oomKill (mapTaken (reclaim oomKill vm) (some pd) page).1 pd rest ∧
    (mapPages oomKill vm (some pd) (page :: rest)).1 =
      (mapPages oomKill (mapTaken (reclaim oomKill vm) (some pd) page).1 (some pd) rest).1 := by
  have done := maps.done
  have found := mapPages_found done
  obtain ⟨apart, distinct⟩ := nodup_cons.mp maps.distinct
  rw [mapPages_cons found] at done ⊢
  exact ⟨maps.heap page (by simp), apart, found,
    ⟨fun p inRest => maps.heap p (by simp [inRest]), distinct, Nat.succ.inj done⟩, rfl⟩

include sparing

section

variable (space : UserSpace vm pd)
include space

lemma UserSpace.round (heap : HeapPage page) :
    Advanced vm (mapTaken (reclaim oomKill vm) (some pd) page).1 pd [page] := by
  have killed := (sparing.reclaim space).advanced space
  apply killed.trans
  by_cases found : (takeFrame (reclaim oomKill vm)).2 = 0
  · simp only [mapTaken, found]
    exact killed.space.takeFrame_lost.advanced page
  · by_cases served : TableServed (reclaim oomKill vm) pd page
    · obtain ⟨frame, given⟩ := killed.space.mapTaken_given heap.high served found
      exact given.advanced heap
    · exact (killed.space.mapTaken_lost heap.high served found).advanced page

lemma UserSpace.mapPages_advanced (maps : MapsAll oomKill vm pd pages) :
    Advanced vm (mapPages oomKill vm (some pd) pages).1 pd pages := by
  induction pages generalizing vm with
  | nil => exact ⟨space, fun _ _ => rfl, fun _ => Nat.le_refl _, fun _ _ _ => rfl⟩
  | cons page rest ih =>
    obtain ⟨heap, _, _, maps, same⟩ := maps.head
    have round := space.round sparing heap
    rw [same]
    exact round.trans (ih round.space maps)

/-- A heap page that was mapped is mapped to another frame when its turn has come. -/
theorem UserSpace.mapPages_replaces (maps : MapsAll oomKill vm pd pages) (mem : page ∈ pages)
    (shows : vm.shown pd (getTableSlot page) (getPageTableIndex page) = some entry) :
    ∃ frame < maxFrames, frame ≠ entryFrame entry ∧
      (mapPages oomKill vm (some pd) pages).1.shown pd (getTableSlot page) (getPageTableIndex page) =
        some (userEntry frame) := by
  induction pages generalizing vm with
  | nil => simp at mem
  | cons head rest ih =>
    have pageHeap := maps.heap page mem
    obtain ⟨headHeap, headApart, found, maps, same⟩ := maps.head
    have round := space.round sparing headHeap
    rw [same]
    rcases mem_cons.mp mem with rfl | inRest
    · -- Its table is there, so the fresh frame takes the place of the old one.
      have spared := sparing.reclaim space
      have kept := spared.shown (getTableSlot_lt pageHeap.low) (getPageTableIndex_lt page)
      rw [shows] at kept
      obtain ⟨frame, given⟩ := (space.spared spared).mapTaken_given pageHeap.high
        (.inl (shown_eq_some.mp kept).1) found
      refine ⟨frame, given.tracked, ?_, ?_⟩
      · rintro rfl
        have used := ((space.spared spared).held (entryFrame entry)
          ⟨_, getTableSlot_lt pageHeap.low, _, getPageTableIndex_lt page, entry, kept, rfl⟩).2
        rw [given.clear] at used
        simp at used
      · rw [(round.space.mapPages_advanced sparing maps).others page pageHeap headApart,
          given.shown_page pageHeap.low]
    · have other : page ≠ head := fun same => headApart (same ▸ inRest)
      have kept := round.others page pageHeap (by simpa using other)
      exact ih round.space maps inRest (kept.trans shows)

/-- The pages at the front of the loop are delivered where their tables are served. -/
theorem UserSpace.mapPages_delivers (maps : MapsAll oomKill vm pd (pages ++ more))
    (served : TablesServed oomKill pd vm pages) (mem : page ∈ pages) : ∃ frame < maxFrames,
      vm.pmem.taken frame < (mapPages oomKill vm (some pd) (pages ++ more)).1.pmem.taken frame ∧
      (mapPages oomKill vm (some pd) (pages ++ more)).1.shown pd (getTableSlot page)
        (getPageTableIndex page) = some (userEntry frame) := by
  induction pages generalizing vm with
  | nil => simp at mem
  | cons head rest ih =>
    rw [cons_append] at maps ⊢
    obtain ⟨headHeap, headApart, found, maps, same⟩ := maps.head
    have round := space.round sparing headHeap
    rw [same]
    rcases mem_cons.mp mem with rfl | inRest
    · have spared := sparing.reclaim space
      obtain ⟨frame, given⟩ := (space.spared spared).mapTaken_given headHeap.high served.1 found
      have rest := round.space.mapPages_advanced sparing maps
      refine ⟨frame, given.tracked, ?_, ?_⟩
      · refine Nat.lt_of_lt_of_le ?_ (rest.taken frame)
        have more := congrArg FrameCell.taken given.cell
        rw [cell_taken] at more
        rw [more, ← spared.taken frame]
        exact Nat.lt_succ_self _
      · rw [rest.others page headHeap headApart, given.shown_page headHeap.low]
    · obtain ⟨frame, tracked, taken, shows⟩ := ih round.space maps served.2 inRest
      exact ⟨frame, tracked, Nat.lt_of_le_of_lt (round.taken frame) taken, shows⟩

/-- A page whose table is not served is not mapped when the loop is done. -/
theorem UserSpace.mapPages_misses (maps : MapsAll oomKill vm pd (pages ++ more))
    (unserved : ¬TablesServed oomKill pd vm pages) :
    ∃ page ∈ pages, (mapPages oomKill vm (some pd) (pages ++ more)).1.shown pd (getTableSlot page)
      (getPageTableIndex page) = none := by
  induction pages generalizing vm with
  | nil => exact absurd trivial unserved
  | cons head rest ih =>
    rw [cons_append] at maps ⊢
    obtain ⟨headHeap, headApart, found, maps, same⟩ := maps.head
    have round := space.round sparing headHeap
    rw [same]
    by_cases served : TableServed (reclaim oomKill vm) pd head
    · obtain ⟨page, inRest, absent⟩ := ih round.space maps
        fun all => unserved ⟨served, all⟩
      exact ⟨page, mem_cons_of_mem head inRest, absent⟩
    · have space' := space.spared (sparing.reclaim space)
      have lost := space'.mapTaken_lost headHeap.high served found
      refine ⟨head, by simp, ?_⟩
      rw [(round.space.mapPages_advanced sparing maps).others head headHeap headApart,
        lost.shown (getTableSlot_lt headHeap.low) (getPageTableIndex_lt head)]
      -- Without a table the directory shows nothing there.
      have absent : ((reclaim oomKill vm).pool pd).tables (getTableSlot head) = 0 := by
        by_contra present
        exact served (.inl present)
      simp [Vm.shown, absent]

/-- A loop over pages that are not mapped keeps every page that is. -/
theorem UserSpace.mapPages_preserves (maps : MapsAll oomKill vm pd pages)
    (unmapped : ∀ page ∈ pages, vm.shown pd (getTableSlot page) (getPageTableIndex page) = none) {s i : Nat}
    (below : s < pageTableSlots) (small : i < 512) (shows : vm.shown pd s i = some entry) :
    (mapPages oomKill vm (some pd) pages).1.shown pd s i = some entry := by
  induction pages generalizing vm with
  | nil => exact shows
  | cons head rest ih =>
    obtain ⟨headHeap, headApart, found, maps, same⟩ := maps.head
    have round := space.round sparing headHeap
    rw [same]
    have spared := sparing.reclaim space
    have space' := space.spared spared
    have kept := (spared.shown below small).trans shows
    have unmappedHead := (spared.shown (getTableSlot_lt headHeap.low) (getPageTableIndex_lt head)).trans
      (unmapped head (by simp))
    refine ih round.space maps (fun p inRest => ?_) ?_
    · have other : p ∉ [head] := by
        rw [mem_singleton]
        rintro rfl
        exact headApart inRest
      rw [round.others p (maps.heap p inRest) other]
      exact unmapped p (by simp [inRest])
    · by_cases served : TableServed (reclaim oomKill vm) pd head
      · obtain ⟨frame, given⟩ := space'.mapTaken_given headHeap.high served found
        exact given.shown_kept space' unmappedHead below small kept
      · rw [(space'.mapTaken_lost headHeap.high served found).shown below small, kept]

end

end Loop

lemma mapPages_le (oomKill : Vm → Vm) (vm : Vm) (pagedir : Option Nat) (pages : List Nat) :
    (mapPages oomKill vm pagedir pages).2 ≤ pages.length := by
  induction pages generalizing vm with
  | nil => exact Nat.le_refl _
  | cons page rest ih =>
    rw [mapPages]
    cases mapTaken (reclaim oomKill vm) pagedir page with
    | mk after more =>
      cases more with
      | true => exact Nat.succ_le_succ (ih after)
      | false => exact Nat.zero_le _

/-- The pages `mmap` goes through. -/
def mmapPages (proc : UserProcess) (addr : Nat) (length : UInt32) : List Nat :=
  pagesUpTo (pageAlignDown (mmapBase proc addr)) (mmapBase proc addr + mmapLength length)

variable {base : Nat}

section

variable {state : UserState} {proc : UserProcess} (current : state.current = some proc)
  {prot flags fd offset : UInt32}
include current

lemma syscallMmap_some (returned : (syscallMmap oomKill state addr length prot flags fd offset).2 = some base) :
    base = mmapBase proc addr ∧ length ≠ 0 ∧ userHeapStart ≤ base ∧ base + mmapLength length ≤ userHeapEnd ∧
      (mapPages oomKill state.vm proc.pagedir (mmapPages proc addr length)).2 =
        (mmapPages proc addr length).length ∧ (syscallMmap oomKill state addr length prot flags fd offset).1.vm =
        (mapPages oomKill state.vm proc.pagedir (mmapPages proc addr length)).1 ∧
      ∃ mapped, (syscallMmap oomKill state addr length prot flags fd offset).1.current = some mapped ∧
        mapped.mmapCount = proc.mmapCount + 1 := by
  have most := mapPages_le oomKill state.vm proc.pagedir (mmapPages proc addr length)
  unfold syscallMmap at returned ⊢
  rw [current] at returned ⊢
  dsimp only at returned ⊢
  rw [← mmapPages] at returned ⊢
  -- Each check that fails answers with nothing.
  split at returned
  · simp at returned
  rename_i positive
  rw [if_neg positive]
  split at returned
  · simp at returned
  rename_i inside
  rw [if_neg inside]
  split at returned
  · simp at returned
  rename_i fits
  rw [if_neg fits]
  split at returned
  · simp at returned
  rename_i free
  rw [if_neg free]
  split at returned
  · simp at returned
  rename_i complete
  rw [if_neg complete]
  cases returned
  exact ⟨rfl, positive, by omega, by omega, by omega, rfl, _, rfl, rfl⟩

end

/-- Every page of an answer is mapped to this call's memory, and no mapped page has moved. -/
structure MmapDelivers (before after : Vm) (pagedir : Option Nat) (base length : Nat) : Prop where
  fresh : ∃ pd, pagedir = some pd ∧ ∀ addr, base ≤ addr → addr < base + length →
    (userHeapStart ≤ pageAlignDown addr ∧ pageAlignDown addr < userHeapEnd) ∧
    ∃ entry, getPageEntry after pd addr = some entry ∧ isPresent entry = true ∧
      isWritable entry = true ∧ isUser entry = true ∧
      before.pmem.taken (entryFrame entry) < after.pmem.taken (entryFrame entry)
  kept : ∀ pd, pagedir = some pd → ∀ addr, addr < 2 ^ 32 → ∀ entry,
    getPageEntry before pd addr = some entry → isPresent entry = true →
      pagingGetPhysical after pd addr = pagingGetPhysical before pd addr

/--
The condition under which `mmap` delivers: the length does not round up to zero, there is a directory, no visited
page is mapped, and the pages of the answer find their tables.
-/
def MmapServed (oomKill : Vm → Vm) (vm : Vm) (proc : UserProcess) (addr : Nat) (length : UInt32) : Prop :=
  length.toNat ≤ 2 ^ 32 - pageSize ∧ ∃ pd, proc.pagedir = some pd ∧
    (∀ page ∈ mmapPages proc addr length, (getPageEntry vm pd page).filter isPresent = none) ∧
    TablesServed oomKill pd vm
      (pagesUpTo (pageAlignDown (mmapBase proc addr)) (mmapBase proc addr + length.toNat))

lemma mmapPages_front (proc : UserProcess) (addr : Nat)
    (short : length.toNat ≤ 2 ^ 32 - pageSize) : ∃ more, mmapPages proc addr length =
      pagesUpTo (pageAlignDown (mmapBase proc addr)) (mmapBase proc addr + length.toNat) ++ more := by
  refine pagesUpTo_append (Nat.add_le_add_left ?_ (mmapBase proc addr))
  simp only [mmapLength, pageAlignUp, pageSize] at short ⊢
  omega

lemma pageAlignDown_bounds (addr : Nat) : pageAlignDown addr ≤ addr ∧ addr < pageAlignDown addr + pageSize ∧
      pageAlignDown addr % pageSize = 0 := by
  simp only [pageAlignDown, pageSize]
  omega

lemma userHeapStart_le_page (above : userHeapStart ≤ addr) : userHeapStart ≤ pageAlignDown addr := by
  simp only [userHeapStart, pageAlignDown, pageSize] at above ⊢
  omega

lemma page_mem_pagesUpTo {limit : Nat} (above : base ≤ addr) (below : addr < limit) :
    pageAlignDown addr ∈ pagesUpTo (pageAlignDown base) limit := by
  rw [mem_pagesUpTo]
  simp only [pageAlignDown, pageSize]
  omega

lemma shown_page (low : addr < 2 ^ 32) :
    vm.shown pd (getTableSlot (pageAlignDown addr)) (getPageTableIndex (pageAlignDown addr)) =
      vm.shown pd (getTableSlot addr) (getPageTableIndex addr) := by
  rw [pageAlignDown, getTableSlot_page low, getPageTableIndex_page]

lemma pagingGetPhysical_moved (tracked : frame < maxFrames) (other : frame ≠ entryFrame entry)
    (aligned : page % pageSize = 0) (old : before.shown pd (getTableSlot page) (getPageTableIndex page) = some entry)
    (new : after.shown pd (getTableSlot page) (getPageTableIndex page) = some (userEntry frame)) :
    pagingGetPhysical after pd page ≠ pagingGetPhysical before pd page := by
  have start : page % 4096 = 0 := aligned
  rw [pagingGetPhysical_shown, pagingGetPhysical_shown, old, new, start]
  simp only [BitVec.or_zero]
  intro same
  apply other
  rw [← entryFrame_userEntry tracked, entryFrame, entryFrame, same]

section Delivers

variable (space : UserSpace vm pd) (sparing : Sparing oomKill pd) (maps : MapsAll oomKill vm pd pages)

include space sparing maps

lemma UserSpace.unmapped_of_kept (kept : ∀ addr < 2 ^ 32, ∀ entry, getPageEntry vm pd addr = some entry →
      isPresent entry → pagingGetPhysical (mapPages oomKill vm (some pd) pages).1 pd addr =
        pagingGetPhysical vm pd addr) : ∀ page ∈ pages, (getPageEntry vm pd page).filter isPresent = none := by
  intro page mem
  by_contra mapped
  obtain ⟨entry, shows⟩ := Option.ne_none_iff_exists'.mp mapped
  have found := Option.filter_eq_some_iff.mp shows
  rw [getPageEntry_shown] at shows
  obtain ⟨frame, tracked, other, moved⟩ :=
    space.mapPages_replaces sparing maps mem shows
  exact pagingGetPhysical_moved tracked other (maps.heap page mem).aligned shows moved
    (kept page (maps.heap page mem).low entry found.1 found.2)

lemma UserSpace.kept_of_unmapped (unmapped : ∀ page ∈ pages, (getPageEntry vm pd page).filter isPresent = none)
    (low : addr < 2 ^ 32) (found : getPageEntry vm pd addr = some entry) (present : isPresent entry) :
    pagingGetPhysical (mapPages oomKill vm (some pd) pages).1 pd addr = pagingGetPhysical vm pd addr := by
  have shows : vm.shown pd (getTableSlot addr) (getPageTableIndex addr) = some entry := by
    rw [← getPageEntry_shown, found]
    simp [present]
  have still := space.mapPages_preserves sparing maps
    fun page mem => by rw [← getPageEntry_shown]; exact unmapped page mem
    (getTableSlot_lt low) (getPageTableIndex_lt addr) shows
  rw [pagingGetPhysical_shown, pagingGetPhysical_shown, still, shows]

end Delivers

/--
`mmap` delivers the memory it answers with exactly when it is served.

The process has a directory at work, if it has one, and is not the one killed for memory.
-/
theorem mmap_delivers_iff {oomKill : Vm → Vm} {state : UserState} {proc : UserProcess}
    (current : state.current = some proc)
    (space : ∀ pd, proc.pagedir = some pd → UserSpace state.vm pd)
    (sparing : ∀ pd, proc.pagedir = some pd → Sparing oomKill pd) {addr base : Nat}
    {length prot flags fd offset : UInt32}
    (returned : (syscallMmap oomKill state addr length prot flags fd offset).2 = some base) :
    MmapDelivers state.vm (syscallMmap oomKill state addr length prot flags fd offset).1.vm
        proc.pagedir base length.toNat ↔
      MmapServed oomKill state.vm proc addr length := by
  obtain ⟨rfl, positive, above, below, done, after, _⟩ := syscallMmap_some current returned
  rw [after]
  have heap : ∀ page ∈ mmapPages proc addr length, HeapPage page := fun page mem =>
    heapPage_of_mem (userHeapStart_le_page above) (pageAlignDown_bounds _).2.2 below mem
  have distinct : (mmapPages proc addr length).Nodup := pagesUpTo_nodup _ _
  have some_byte : 0 < length.toNat := by
    rcases Nat.eq_zero_or_pos length.toNat with zero | some_byte
    · exact absurd (UInt32.toNat_inj.mp zero) positive
    · exact some_byte
  constructor
  · rintro ⟨⟨pd, directory, fresh⟩, kept⟩
    have short : length.toNat ≤ 2 ^ 32 - pageSize := by
      -- The last byte of a longer answer would lie past the heap range.
      by_contra long
      have last := (fresh (mmapBase proc addr + length.toNat - 1) (by omega) (by omega)).1.2
      simp only [userHeapEnd, pageAlignDown, pageSize] at above last long
      omega
    obtain ⟨more, pages⟩ := mmapPages_front proc addr short
    rw [directory] at done fresh kept
    refine ⟨short, pd, directory, (space pd directory).unmapped_of_kept (sparing pd directory)
      ⟨heap, distinct, done⟩ (kept pd rfl), ?_⟩
    by_contra unserved
    rw [pages] at heap distinct done fresh
    obtain ⟨page, mem, absent⟩ :=
      (space pd directory).mapPages_misses (sparing pd directory) ⟨heap, distinct, done⟩ unserved
    have pageHeap := heap page (mem_append_left _ mem)
    obtain ⟨first, last, whole⟩ := mem_pagesUpTo.mp mem
    -- Some byte of the page belongs to the answer.
    have sameWhole : pageAlignDown (max page (mmapBase proc addr)) = page := by
      have aligned := pageHeap.aligned
      simp only [pageAlignDown, pageSize] at first whole aligned ⊢
      omega
    have low : max page (mmapBase proc addr) < 2 ^ 32 := by
      have low := pageHeap.low
      simp only [pageAlignDown, pageSize] at sameWhole
      omega
    obtain ⟨_, entry, found, present, _⟩ := fresh (max page (mmapBase proc addr)) (by omega) (by omega)
    rw [← sameWhole, shown_page low, ← getPageEntry_shown, found] at absent
    simp [present] at absent
  · rintro ⟨short, pd, directory, unmapped, served⟩
    obtain ⟨more, pages⟩ := mmapPages_front proc addr short
    rw [directory] at done ⊢
    refine ⟨⟨pd, rfl, fun byte first last => ?_⟩, fun pd' same byte low entry found present => ?_⟩
    · have mem := page_mem_pagesUpTo first last
      have pageHeap := heap (pageAlignDown byte) (by rw [pages]; exact mem_append_left _ mem)
      have low : byte < 2 ^ 32 := by
        have inside := pageHeap.below
        have bounds := pageAlignDown_bounds byte
        simp only [userHeapEnd, pageSize] at inside bounds
        omega
      rw [pages] at heap distinct done ⊢
      obtain ⟨frame, tracked, taken, shows⟩ := (space pd directory).mapPages_delivers
        (sparing pd directory) ⟨heap, distinct, done⟩ served mem
      rw [shown_page low, ← getPageEntry_shown, Option.filter_eq_some_iff] at shows
      refine ⟨⟨pageHeap.above, pageHeap.below⟩, userEntry frame, shows.1, by simp, by simp, by simp, ?_⟩
      rw [entryFrame_userEntry tracked]
      exact taken
    · cases same
      exact (space pd directory).kept_of_unmapped (sparing pd directory) ⟨heap, distinct, done⟩ unmapped low
        found present

/-- A process with an empty heap. -/
def freshProcess (pd : Nat) : UserProcess :=
  ⟨some pd, 0x40000000, 0, fun _ => ⟨0, 0, 0, 0, 0, 0, 0⟩⟩

lemma freshProcess_mmap :
    (syscallMmap id ⟨bootUser, some (freshProcess 1)⟩ 0 4096 3 0 0xFFFFFFFF 0).2 = some 0x40000000 := by
  decide +kernel

/-- The first page of a new process's heap is delivered. -/
theorem mmap_delivers_first : ∃ vm, pagingCreateUserDirectory bootVm = (vm, some 1) ∧
    MmapDelivers vm (syscallMmap id ⟨vm, some (freshProcess 1)⟩ 0 4096 3 0 0xFFFFFFFF 0).1.vm (some 1)
      0x40000000 4096 := by
  obtain ⟨top, second, first, made⟩ := bootVm_made bootVm_creates
  have space := made.userSpace bootVm_largeKernel
  have served : (allocPageTable (takeFrame (reclaim id bootUser)).1).2 ≠ 0 := by decide +kernel
  refine ⟨bootUser, bootVm_creates, (mmap_delivers_iff rfl ?_ ?_ freshProcess_mmap).mpr ⟨by decide, 1, rfl, ?_, ?_⟩⟩
  · rintro pd ⟨⟩
    exact space
  · exact fun pd _ _ space => space.spared_self
  · decide +kernel
  · exact ⟨.inr served, trivial⟩

/--
A length just below 4 GiB is rounded up to zero.

The call answers with the break, and maps nothing.
-/
theorem mmap_delivers_nothing : ∃ vm, pagingCreateUserDirectory bootVm = (vm, some 1) ∧
    (syscallMmap id ⟨vm, some (freshProcess 1)⟩ 0 0xFFFFFFFF 3 0 0xFFFFFFFF 0).2 = some 0x40000000 ∧
    ¬MmapDelivers vm (syscallMmap id ⟨vm, some (freshProcess 1)⟩ 0 0xFFFFFFFF 3 0 0xFFFFFFFF 0).1.vm
      (some 1) 0x40000000 0xFFFFFFFF := by
  have returned : (syscallMmap id ⟨bootUser, some (freshProcess 1)⟩ 0 0xFFFFFFFF 3 0 0xFFFFFFFF 0).2 =
      some 0x40000000 := by decide +kernel
  refine ⟨bootUser, bootVm_creates, returned, fun delivers => ?_⟩
  obtain ⟨pd, _, fresh⟩ := delivers.fresh
  -- The last byte of the answer lies past the heap range.
  have last := (fresh (0x40000000 + 0xFFFFFFFF - 1) (by decide) (by decide)).1.2
  exact absurd last (by decide)

/-- The count of a table of mappings, and its regions that are not blank. -/
def mappingSlots (count : Nat) (regions : Nat → MmapRegion) : Nat × Set MmapRegion :=
  (count, {region | region.start ≠ 0 ∧ ∃ i < count, regions i = region})

/-- What `mmap` returns can be unmapped again, which leaves the table as it was. -/
def MmapReclaims (oomKill : Vm → Vm) (state : UserState) (addr : Nat) (length prot flags fd offset : UInt32) :
    Prop :=
  let mapped := syscallMmap oomKill state addr length prot flags fd offset
  ∀ base proc, mapped.2 = some base → state.current = some proc → ∃ after,
    (syscallMunmap mapped.1 base length).1.current = some after ∧
      mappingSlots after.mmapCount after.mmapRegions = mappingSlots proc.mmapCount proc.mmapRegions

/-- What `shmem_attach` returns can be detached again, which leaves the table as it was. -/
def AttachReclaims (state : ShmState) (pd : Nat) (shmid : Int) (requested : Nat) : Prop :=
  let attached := shmemAttach state pd shmid requested
  ∀ address, attached.2 = some address →
    let proc := state.procs pd
    let after := (shmemDetach attached.1 pd address).1.procs pd
    mappingSlots after.mmapCount after.mmapRegions = mappingSlots proc.mmapCount proc.mmapRegions

lemma syscallMunmap_count {state : UserState} {proc after : UserProcess} (current : state.current = some proc)
    (left : (syscallMunmap state addr length).1.current = some after) : after.mmapCount = proc.mmapCount := by
  simp only [syscallMunmap, current] at left
  split_ifs at left
  · cases current.symm.trans left
    rfl
  · cases current.symm.trans left
    rfl
  · cases left
    unfold forgetRegion
    split <;> rfl

lemma MmapReclaims.failed {state : UserState} {prot flags fd offset : UInt32}
    (reclaims : MmapReclaims oomKill state addr length prot flags fd offset) :
    (syscallMmap oomKill state addr length prot flags fd offset).2 = none := by
  rw [Option.eq_none_iff_forall_ne_some]
  intro base returned
  cases current : state.current with
  | none => simp [syscallMmap, current] at returned
  | some proc =>
    obtain ⟨-, -, -, -, -, -, mapped, running, more⟩ := syscallMmap_some current returned
    obtain ⟨after, left, same⟩ := reclaims base proc returned current
    have kept := syscallMunmap_count running left
    have count := congrArg Prod.fst same
    simp only [mappingSlots] at count
    omega

lemma shmemAttach_count {state : ShmState} {requested : Nat} {shmid : Int}
    (returned : (shmemAttach state pd shmid requested).2 = some addr) :
    ((shmemAttach state pd shmid requested).1.procs pd).mmapCount = (state.procs pd).mmapCount + 1 := by
  unfold shmemAttach at returned ⊢
  split at returned
  · simp at returned
  dsimp only at returned ⊢
  split at returned
  · simp at returned
  split at returned
  · simp [*, ShmProcess.record]
  · simp at returned

lemma shmemDetach_procs (state : ShmState) (pd address : Nat) :
    (shmemDetach state pd address).1.procs = state.procs := by
  unfold shmemDetach
  split
  · rfl
  split
  · rfl
  dsimp only
  split
  · rfl
  dsimp only
  split <;> rfl

/-- A slot stays taken when its mapping is released: only a call that fails leaves the table as it was. -/
theorem mapping_slots_reclaimed_iff (oomKill : Vm → Vm) (state : UserState) (addr : Nat)
    (length prot flags fd offset : UInt32) (system : ShmState) (pd : Nat) (shmid : Int) (requested : Nat) :
    (MmapReclaims oomKill state addr length prot flags fd offset ↔
      (syscallMmap oomKill state addr length prot flags fd offset).2 = none) ∧
    (AttachReclaims system pd shmid requested ↔ (shmemAttach system pd shmid requested).2 = none) := by
  refine ⟨⟨MmapReclaims.failed, fun failed base _ returned => ?_⟩, fun reclaims => ?_,
    fun failed address returned => ?_⟩
  · simp [failed] at returned
  · rw [Option.eq_none_iff_forall_ne_some]
    intro address returned
    have same := congrArg Prod.fst (reclaims address returned)
    have more := shmemAttach_count returned
    simp only [mappingSlots, shmemDetach_procs] at same
    omega
  · simp [failed] at returned

/-- A page that is mapped and unmapped takes a slot of a new process for good. -/
theorem mmap_slot_lost : ∃ vm, pagingCreateUserDirectory bootVm = (vm, some 1) ∧
    ¬MmapReclaims id ⟨vm, some (freshProcess 1)⟩ 0 4096 3 0 0xFFFFFFFF 0 := by
  refine ⟨bootUser, bootVm_creates, fun reclaims => ?_⟩
  have failed := reclaims.failed
  rw [freshProcess_mmap] at failed
  simp at failed

end Galio

import Galio.Syscall.Heap

/-! Runs of `brk`, `mmap` and `munmap`: no frame is lost where pages are mapped over nothing. -/

namespace Galio

open Pmem Transition List

variable {pages rest : List Nat} {oomKill : Vm → Vm} {proc : UserProcess} {addr : Nat} {mid : Vm}

/-- What mapping a list of unmapped pages does to the entries of a directory. -/
structure PagesGiven (before after : Vm) (pd : Nat) (pages : List Nat) : Prop where
  kept : ∀ s, (before.pool pd).tables s ≠ 0 → (after.pool pd).tables s = (before.pool pd).tables s
  named : ∀ page ∈ pages, (after.pool pd).tables (getTableSlot page) ≠ 0
  held : ∀ page ∈ pages, ∃ frame, frame ≠ 0 ∧ frame < maxFrames ∧
    after.pte pd (after.cellOf pd page) = some (userEntry frame)
  blank : ∀ page ∈ pages, before.pte pd (after.cellOf pd page) = none
  others : ∀ cell, (∀ page ∈ pages, cell ≠ after.cellOf pd page) →
    after.pte pd cell = before.pte pd cell

variable {after before start vm : Vm} {entry : Word} {pd frame : Nat}

lemma Untouched.pagesGiven (same : Untouched before after pd) : PagesGiven before after pd [] where
  kept := fun s _ => by rw [same.pool]
  named := fun _ mem => absurd mem (by simp)
  held := fun _ mem => absurd mem (by simp)
  blank := fun _ mem => absurd mem (by simp)
  others := fun cell _ => same.pte cell

lemma PagesGiven.of_untouched (same : Untouched before mid pd) (given : PagesGiven mid after pd pages) :
    PagesGiven before after pd pages where
  kept := fun s present => by rw [given.kept s (by rwa [same.pool]), same.pool]
  named := given.named
  held := given.held
  blank := fun page mem => by rw [← same.pte, given.blank page mem]
  others := fun cell apart => by rw [given.others cell apart, same.pte]

lemma UserSpace.cellOf_ne {page other : Nat} (space : UserSpace vm pd) (heap : HeapPage page)
    (heap' : HeapPage other) (named : (vm.pool pd).tables (getTableSlot page) ≠ 0) (apart : page ≠ other) :
    vm.cellOf pd page ≠ vm.cellOf pd other := by
  intro same
  have tables := congrArg Prod.fst same
  have indices := congrArg Prod.snd same
  exact apart (heap.ext heap' (space.heap_slots heap heap' named tables) indices)

lemma PageGiven.cons {page : Nat} (given : PageGiven before mid pd page frame)
    (nonzero : frame ≠ 0) (space : UserSpace before pd)
    (unmapped : before.shown pd (getTableSlot page) (getPageTableIndex page) = none)
    (later : PagesGiven mid after pd rest) (space' : UserSpace after pd) (heap : ∀ p ∈ page :: rest, HeapPage p)
    (distinct : (page :: rest).Nodup) : PagesGiven before after pd (page :: rest) := by
  have pageHeap := heap page (by simp)
  have stays : after.cellOf pd page = mid.cellOf pd page := by
    rw [Vm.cellOf, Vm.cellOf, later.kept _ given.present]
  have named : (after.pool pd).tables (getTableSlot page) ≠ 0 := by
    rw [later.kept _ given.present]
    exact given.present
  have apart : ∀ p ∈ rest, after.cellOf pd page ≠ after.cellOf pd p := fun p mem =>
    space'.cellOf_ne pageHeap (heap p (by simp [mem])) named
      fun same => (nodup_cons.mp distinct).1 (same ▸ mem)
  refine ⟨fun s present => ?_, ?_, ?_, ?_, ?_⟩
  · have kept := given.kept s present
    rw [later.kept s (by rwa [kept]), kept]
  · rw [forall_mem_cons]
    exact ⟨named, later.named⟩
  · rw [forall_mem_cons]
    refine ⟨⟨frame, nonzero, given.tracked, ?_⟩, later.held⟩
    rw [later.others _ apart, given.pte pageHeap, if_pos stays]
  · rw [forall_mem_cons]
    refine ⟨by rw [stays]; exact given.pte_before pageHeap space unmapped, fun p mem => ?_⟩
    -- The later pages' entries were empty even after the first page was mapped.
    have empty := later.blank p mem
    rw [given.pte pageHeap] at empty
    split at empty
    · simp at empty
    · exact empty
  · intro cell absent
    rw [forall_mem_cons] at absent
    rw [later.others cell absent.2, given.pte pageHeap, if_neg (by rw [← stays]; exact absent.1)]

lemma takeFrame_failed (reserved : vm.pmem.frameBitmap 0)
    (failed : (takeFrame vm).2 = 0) : (takeFrame vm).1 = vm := by
  rcases takeFrame_cases vm with none | ⟨frame, cursor, _, clear, taken⟩
  · rw [none]
  · rw [taken] at failed
    have zero : frame = 0 := by
      simp only [frameSize] at failed
      omega
    rw [zero, reserved] at clear
    simp at clear

/-- Each page the loop comes to is not mapped and finds its table, up to one without a frame. -/
def PagesFit (oomKill : Vm → Vm) (pd : Nat) (vm : Vm) : List Nat → Prop
  | [] => True
  | page :: rest => (takeFrame (reclaim oomKill vm)).2 ≠ 0 →
    (getPageEntry (reclaim oomKill vm) pd page).filter isPresent = none ∧
      TableServed (reclaim oomKill vm) pd page ∧
      PagesFit oomKill pd (mapTaken (reclaim oomKill vm) (some pd) page).1 rest

/-- The loop over pages that fit keeps the invariant and maps the pages it counts. -/
theorem HeapInvariant.mapPages (alone : SparingAlone oomKill pd) (invariant : HeapInvariant start vm pd)
    (heap : ∀ page ∈ pages, HeapPage page) (distinct : pages.Nodup)
    (fits : PagesFit oomKill pd vm pages) : HeapInvariant start (mapPages oomKill vm (some pd) pages).1 pd ∧
      PagesGiven vm (mapPages oomKill vm (some pd) pages).1 pd
        (pages.take (mapPages oomKill vm (some pd) pages).2) := by
  induction pages generalizing vm with
  | nil => exact ⟨invariant, Untouched.pagesGiven ⟨rfl, fun _ _ => rfl⟩⟩
  | cons page rest ih =>
    have spared := alone.reclaim invariant.space
    have killed := invariant.kill spared
    by_cases failed : (takeFrame (reclaim oomKill vm)).2 = 0
    · -- Nothing is mapped when there is no frame.
      have stopped : Galio.mapPages oomKill vm (some pd) (page :: rest) = (reclaim oomKill vm, 0) := by
        have unchanged := takeFrame_failed killed.reserved failed
        simp only [Galio.mapPages, mapTaken, failed, unchanged, ite_true]
      rw [stopped]
      exact ⟨killed, spared.toUntouched.pagesGiven⟩
    · obtain ⟨unmapped, served, later⟩ := fits failed
      rw [getPageEntry_shown] at unmapped
      have pageHeap := heap page (by simp)
      obtain ⟨frame, given⟩ := killed.space.mapTaken_given pageHeap.high served failed
      have nonzero : frame ≠ 0 := by
        rintro rfl
        have clear := given.clear
        rw [killed.reserved] at clear
        simp at clear
      obtain ⟨kept, more⟩ := ih (killed.given given pageHeap unmapped)
        (fun p mem => heap p (by simp [mem])) (nodup_cons.mp distinct).2 later
      rw [mapPages_cons failed]
      refine ⟨kept, ?_⟩
      refine (given.cons nonzero killed.space unmapped more kept.space (fun p mem => ?_) ?_).of_untouched
        spared.toUntouched
      · rcases mem_cons.mp mem with rfl | inRest
        · exact pageHeap
        · exact heap p (mem_cons_of_mem page (mem_of_mem_take inRest))
      · refine distinct.sublist ?_
        exact (take_sublist _ rest).cons_cons page

/-- What freeing a list of pages does to the entries of a directory. -/
structure PagesFreed (before after : Vm) (pd : Nat) (pages : List Nat) : Prop where
  tables : ∀ page, HeapPage page →
    (after.pool pd).tables (getTableSlot page) = (before.pool pd).tables (getTableSlot page)
  others : ∀ cell, (∀ page ∈ pages, cell ≠ before.cellOf pd page) →
    after.pte pd cell = before.pte pd cell
  fewer : ∀ cell, before.pte pd cell = none → after.pte pd cell = none
  gone : ∀ page ∈ pages, (∀ entry, before.pte pd (before.cellOf pd page) = some entry →
    entryFrame entry ≠ 0) → after.pte pd (before.cellOf pd page) = none
  released : ∀ f, before.pmem.released f ≤ after.pmem.released f
  dropped : ∀ f, (before.holders pd f).Nonempty →
    (after.holders pd f).Nonempty ∨ before.pmem.released f < after.pmem.released f

lemma PagesFreed.refl (vm : Vm) (pd : Nat) : PagesFreed vm vm pd [] where
  tables := fun _ _ => rfl
  others := fun _ _ => rfl
  fewer := fun _ none => none
  gone := fun _ mem => absurd mem (by simp)
  released := fun _ => Nat.le_refl _
  dropped := fun _ held => .inl held

lemma PagesFreed.cons_unmapped {page : Nat} (later : PagesFreed before after pd rest)
    (unmapped : ∀ entry, before.pte pd (before.cellOf pd page) = some entry → entryFrame entry = 0) :
    PagesFreed before after pd (page :: rest) where
  tables := later.tables
  others := fun cell apart => later.others cell fun p mem => apart p (mem_cons_of_mem page mem)
  fewer := later.fewer
  gone := by
    rw [forall_mem_cons]
    refine ⟨fun mapped => later.fewer _ ?_, later.gone⟩
    by_contra present
    obtain ⟨entry, found⟩ := Option.ne_none_iff_exists'.mp present
    exact mapped entry found (unmapped entry found)
  released := later.released
  dropped := later.dropped

lemma PageFreed.released {page : Nat} (freed : PageFreed before after pd page entry)
    (f : Nat) : before.pmem.released f ≤ after.pmem.released f := by
  rw [← cell_released, ← cell_released, freed.cells]
  split
  · rw [FrameCell.released_deref]
    split
    · exact Nat.le_refl _
    · exact Nat.le_succ _
  · exact Nat.le_refl _

lemma PagesFreed.cons_freed {page : Nat} (begins : HeapStart before pd)
    (freed : PageFreed before mid pd page entry) (later : PagesFreed mid after pd rest)
    (heap : ∀ p ∈ page :: rest, HeapPage p) : PagesFreed before after pd (page :: rest) := by
  have pageHeap := heap page (by simp)
  have changed := freed.pte pageHeap
  have stays : ∀ p, HeapPage p → mid.cellOf pd p = before.cellOf pd p := fun p heap => by
    rw [Vm.cellOf, Vm.cellOf, freed.tables pageHeap heap]
  have fewer : ∀ cell, before.pte pd cell = none → mid.pte pd cell = none := fun cell none => by
    rw [changed]
    split
    · rfl
    · exact none
  refine ⟨fun p heap => ?_, fun cell apart => ?_, fun cell none => later.fewer cell (fewer cell none),
    ?_, fun f => Nat.le_trans (freed.released f) (later.released f), fun f held => ?_⟩
  · rw [later.tables p heap, freed.tables pageHeap heap]
  · rw [forall_mem_cons] at apart
    rw [later.others cell fun p mem => ?_, changed, if_neg apart.1]
    rw [stays p (heap p (by simp [mem]))]
    exact apart.2 p mem
  · rw [forall_mem_cons]
    refine ⟨fun _ => later.fewer _ (by rw [changed, if_pos rfl]), fun p mem mapped => ?_⟩
    have same := stays p (heap p (by simp [mem]))
    have gone := later.gone p mem
    rw [same] at gone
    refine gone fun entry found => mapped entry ?_
    rw [changed] at found
    split at found
    · simp at found
    · exact found
  · by_cases own : f = entryFrame entry
    · -- The page's own frame had a reference to lose.
      have some := Finset.card_pos.mpr held
      have counted := begins.counted f
      have positive : before.pmem.frameRefcount f ≠ 0 := by
        intro zero
        rw [zero] at counted
        exact absurd (Nat.le_trans some counted) (by decide)
      refine .inr (Nat.lt_of_lt_of_le ?_ (later.released f))
      rw [← cell_released mid.pmem, freed.cells, if_pos own, FrameCell.released_deref, cell_count, if_neg positive]
      exact Nat.lt_succ_self _
    · have kept : (mid.holders pd f).Nonempty := by
        rw [freed.holders pageHeap, if_neg own]
        exact held
      refine (later.dropped f kept).imp_right fun more => ?_
      exact Nat.lt_of_le_of_lt (freed.released f) more

lemma HeapInvariant.unmapPages (invariant : HeapInvariant start vm pd)
    (heap : ∀ page ∈ pages, HeapPage page) : HeapInvariant start (unmapPages vm (some pd) pages) pd ∧
      PagesFreed vm (unmapPages vm (some pd) pages) pd pages := by
  induction pages generalizing vm with
  | nil => exact ⟨invariant, PagesFreed.refl vm pd⟩
  | cons page rest ih =>
    have pageHeap := heap page (by simp)
    have restHeap : ∀ p ∈ rest, HeapPage p := fun p mem => heap p (by simp [mem])
    show HeapInvariant start (Galio.unmapPages (unmapFree vm pd page) (some pd) rest) pd ∧
      PagesFreed vm (Galio.unmapPages (unmapFree vm pd page) (some pd) rest) pd (page :: rest)
    rcases invariant.space.unmapFree_cases pageHeap with ⟨same, unmapped⟩ | ⟨entry, freed⟩
    · rw [same]
      obtain ⟨kept, later⟩ := ih invariant restHeap
      rw [← pte_cellOf pageHeap.low] at unmapped
      exact ⟨kept, later.cons_unmapped unmapped⟩
    · obtain ⟨kept, later⟩ := ih (invariant.freed freed pageHeap) restHeap
      exact ⟨kept, later.cons_freed invariant.toHeapStart freed heap⟩

lemma PagesGiven.withdrawn (given : PagesGiven before mid pd pages)
    (freed : PagesFreed mid after pd pages) (cell : Nat × Nat) : after.pte pd cell = before.pte pd cell := by
  by_cases own : ∃ page ∈ pages, cell = mid.cellOf pd page
  · obtain ⟨page, mem, rfl⟩ := own
    obtain ⟨frame, nonzero, tracked, found⟩ := given.held page mem
    rw [given.blank page mem]
    refine freed.gone page mem fun entry entered => ?_
    rw [found] at entered
    cases entered
    rwa [entryFrame_userEntry tracked]
  · push Not at own
    rw [freed.others cell own, given.others cell own]

/-- A call about the heap, with what the out-of-memory killer does meanwhile. -/
inductive HeapOp where
  | brk (oomKill : Vm → Vm) (addr : Nat)
  | mmap (oomKill : Vm → Vm) (addr : Nat) (length prot flags fd offset : UInt32)
  | munmap (addr : Nat) (length : UInt32)

/-- Carrying out a call, and whether it succeeds. -/
def HeapOp.exec (state : UserState) : HeapOp → UserState × Bool
  | .brk oomKill addr =>
    let (after, answer) := syscallBrk oomKill state addr
    (after, answer.isSome)
  | .mmap oomKill addr length prot flags fd offset =>
    let (after, answer) := syscallMmap oomKill state addr length prot flags fd offset
    (after, answer.isSome)
  | .munmap addr length => syscallMunmap state addr length

/-- The processes killed for memory share nothing with the caller. -/
def HeapOp.Alone (pd : Nat) : HeapOp → Prop
  | .brk oomKill _ => SparingAlone oomKill pd
  | .mmap oomKill .. => SparingAlone oomKill pd
  | .munmap .. => True

/-- The pages `brk` goes through. -/
def brkPages (proc : UserProcess) (addr : Nat) : List Nat :=
  pagesUpTo (pageAlignUp proc.brk.toNat) (pageAlignUp addr)

/-- A frame is found for every page of a list. -/
def FramesFound (oomKill : Vm → Vm) (pd : Nat) (vm : Vm) : List Nat → Prop
  | [] => True
  | page :: rest => (takeFrame (reclaim oomKill vm)).2 ≠ 0 ∧
    FramesFound oomKill pd (mapTaken (reclaim oomKill vm) (some pd) page).1 rest

/--
The condition on a call: its pages are not mapped and find their tables, and `brk` gets frames after its first
page.
-/
def HeapOp.Fits (pd : Nat) (state : UserState) : HeapOp → Prop
  | .brk oomKill addr => ∀ proc, state.current = some proc →
    userHeapStart ≤ addr → addr ≤ userHeapEnd → PagesFit oomKill pd state.vm (brkPages proc addr) ∧
      ((takeFrame (reclaim oomKill state.vm)).2 ≠ 0 →
        FramesFound oomKill pd state.vm (brkPages proc addr))
  | .mmap oomKill addr length _ _ _ _ => ∀ proc, state.current = some proc →
    userHeapStart ≤ mmapBase proc addr → mmapBase proc addr + mmapLength length ≤ userHeapEnd →
      PagesFit oomKill pd state.vm (mmapPages proc addr length)
  | .munmap _ _ => True

/-- A call takes the last entry of a frame away only by releasing the frame. -/
def NothingDropped (before after : Vm) (pd : Nat) : Prop :=
  ∀ frame, (before.holders pd frame).Nonempty →
    (after.holders pd frame).Nonempty ∨ before.pmem.released frame < after.pmem.released frame

/-- The process at work on its heap since the start. -/
def HeapWorking (start : Vm) (pd : Nat) (state : UserState) : Prop :=
  HeapInvariant start state.vm pd ∧ ∃ proc, state.current = some proc ∧ proc.pagedir = some pd ∧
    userHeapStart ≤ proc.brk.toNat ∧ proc.brk.toNat ≤ userHeapEnd

/-- What a call is to leave behind: no frame lost, and nothing changed where it fails. -/
structure HeapCall (pd : Nat) (before : UserState) (result : UserState × Bool) : Prop where
  dropped : NothingDropped before.vm result.1.vm pd
  failed : result.2 = false →
    (∀ cell, result.1.vm.pte pd cell = before.vm.pte pd cell) ∧ result.1.current = before.current

lemma PagesGiven.nothingDropped (given : PagesGiven before after pd pages) : NothingDropped before after pd := by
  rintro frame ⟨cell, held⟩
  refine .inl ⟨cell, ?_⟩
  rw [mem_holders] at held ⊢
  rw [given.others cell, held]
  rintro page mem rfl
  rw [given.blank page mem] at held
  simp at held

lemma nothingDropped_of_same
    (same : ∀ cell, after.pte pd cell = before.pte pd cell) : NothingDropped before after pd := by
  intro frame held
  rw [← holders_congr same] at held
  exact .inl held

lemma FramesFound.count (found : FramesFound oomKill pd vm pages) :
    (mapPages oomKill vm (some pd) pages).2 = pages.length := by
  induction pages generalizing vm with
  | nil => rfl
  | cons page rest ih => rw [mapPages_cons found.1, ih found.2, length_cons]

lemma mapPages_stopped {pagedir : Option Nat} (failed : (takeFrame (reclaim oomKill vm)).2 = 0) :
    (mapPages oomKill vm pagedir pages).2 = 0 := by
  cases pages with
  | nil => rfl
  | cons page rest => simp only [mapPages, mapTaken, failed, ite_true]

lemma heapPage_of_brk {page : Nat} (above : userHeapStart ≤ proc.brk.toNat) (below : addr ≤ userHeapEnd)
    (mem : page ∈ brkPages proc addr) : HeapPage page := by
  have size := proc.brk.toNat_lt
  refine heapPage_of_mem ?_ ?_ ?_ mem
  · simp only [userHeapStart, pageAlignUp, pageSize] at above ⊢
    omega
  · simp only [pageAlignUp, pageSize]
    omega
  · simp only [userHeapEnd, pageAlignUp, pageSize] at below ⊢
    omega

section Calls

variable {state : UserState} (working : HeapWorking start pd state)

lemma HeapCall.of_same {before after : UserState} (same : ∀ cell, after.vm.pte pd cell = before.vm.pte pd cell)
    (current : after.current = before.current) (ok : Bool) : HeapCall pd before (after, ok) :=
  ⟨nothingDropped_of_same same, fun _ => ⟨same, current⟩⟩

include working

lemma HeapWorking.refused (ok : Bool) : HeapWorking start pd state ∧ HeapCall pd state (state, ok) :=
  ⟨working, HeapCall.of_same (fun _ => rfl) rfl ok⟩

lemma HeapWorking.munmap (addr : Nat) (length : UInt32) : HeapWorking start pd (syscallMunmap state addr length).1 ∧
      HeapCall pd state (syscallMunmap state addr length) := by
  have ⟨invariant, proc, current, directory, brk⟩ := working
  simp only [syscallMunmap, current]
  split
  · exact working.refused false
  split
  · exact working.refused false
  have heap : ∀ page ∈ pagesUpTo (pageAlignDown addr)
      (pageAlignUp ((addr + length.toNat) % 2 ^ 64)), HeapPage page := fun page mem =>
    heapPage_of_mem (by omega) (pageAlignDown_bounds addr).2.2 (by omega) mem
  obtain ⟨kept, freed⟩ := invariant.unmapPages heap
  rw [directory]
  refine ⟨⟨kept, forgetRegion proc (pageAlignDown addr), rfl, ?_⟩, freed.dropped,
    fun failed => absurd failed (by simp)⟩
  rw [forgetRegion]
  split <;> exact ⟨directory, brk⟩

lemma HeapWorking.mmap (alone : SparingAlone oomKill pd) {length : UInt32} (prot flags fd offset : UInt32)
    (fits : HeapOp.Fits pd state (.mmap oomKill addr length prot flags fd offset)) :
    HeapWorking start pd (HeapOp.exec state (.mmap oomKill addr length prot flags fd offset)).1 ∧
      HeapCall pd state (HeapOp.exec state (.mmap oomKill addr length prot flags fd offset)) := by
  have ⟨invariant, proc, current, directory, above, below⟩ := working
  have pages := fits proc current
  simp only [HeapOp.exec, syscallMmap, current]
  rw [← mmapPages]
  split
  · exact working.refused false
  split
  · exact working.refused false
  split
  · exact working.refused false
  split
  · exact working.refused false
  have low : userHeapStart ≤ mmapBase proc addr := by omega
  have high : mmapBase proc addr + mmapLength length ≤ userHeapEnd := by omega
  have heap : ∀ page ∈ mmapPages proc addr length, HeapPage page :=
    fun page mem =>
      heapPage_of_mem (userHeapStart_le_page low) (pageAlignDown_bounds _).2.2 high mem
  obtain ⟨kept, given⟩ := invariant.mapPages alone heap (pagesUpTo_nodup _ _) (pages low high)
  rw [directory]
  split
  · -- The pages mapped so far are withdrawn, so every entry is what it was.
    obtain ⟨back, freed⟩ := kept.unmapPages
      fun page mem => heap page (mem_of_mem_take mem)
    have same := given.withdrawn freed
    exact ⟨⟨back, proc, rfl, directory, above, below⟩, .of_same same current.symm false⟩
  · refine ⟨⟨kept, _, rfl, rfl, ?_⟩, given.nothingDropped, fun failed => absurd failed (by simp)⟩
    dsimp only
    split
    · rw [UInt32.toNat_ofNat', Nat.mod_eq_of_lt (by simp only [userHeapEnd] at high; omega)]
      omega
    · exact ⟨above, below⟩

lemma HeapWorking.brk (alone : SparingAlone oomKill pd) (fits : HeapOp.Fits pd state (.brk oomKill addr)) :
    HeapWorking start pd (HeapOp.exec state (.brk oomKill addr)).1 ∧
      HeapCall pd state (HeapOp.exec state (.brk oomKill addr)) := by
  have ⟨invariant, proc, current, directory, above, below⟩ := working
  have pages := fits proc current
  simp only [HeapOp.exec, syscallBrk, current]
  rw [← brkPages]
  split
  · exact working.refused true
  split
  · exact working.refused false
  have low : userHeapStart ≤ addr := by omega
  have high : addr ≤ userHeapEnd := by omega
  have heap : ∀ page ∈ brkPages proc addr, HeapPage page :=
    fun page mem => heapPage_of_brk above high mem
  obtain ⟨fit, whole⟩ := pages low high
  obtain ⟨kept, given⟩ := invariant.mapPages alone heap (pagesUpTo_nodup _ _) fit
  rw [directory]
  split
  · -- A call that stops has stopped at its first page.
    rename_i short
    have failed : (takeFrame (reclaim oomKill state.vm)).2 = 0 := by
      by_contra found
      rw [(whole found).count] at short
      exact absurd short (Nat.lt_irrefl _)
    rw [mapPages_stopped failed, take_zero] at given
    have same : ∀ cell, (mapPages oomKill state.vm (some pd) (brkPages proc addr)).1.pte pd cell =
        state.vm.pte pd cell := fun cell => given.others cell (by simp)
    exact ⟨⟨kept, proc, rfl, directory, above, below⟩, .of_same same current.symm false⟩
  · refine ⟨⟨kept, _, rfl, rfl, ?_⟩, given.nothingDropped, fun failed => absurd failed (by simp)⟩
    dsimp only
    rw [UInt32.toNat_ofNat', Nat.mod_eq_of_lt (by simp only [userHeapEnd] at high; omega)]
    exact ⟨low, high⟩

end Calls

/-- One call of the process. -/
structure HeapStep (pd : Nat) (before : UserState) (op : HeapOp) (after : UserState) : Prop where
  exec : after = (op.exec before).1
  alone : op.Alone pd

lemma HeapWorking.step {before after : UserState} {op : HeapOp}
    (working : HeapWorking start pd before) (step : HeapStep pd before op after) (fits : op.Fits pd before) :
    HeapWorking start pd after ∧ HeapCall pd before (op.exec before) := by
  obtain ⟨rfl, alone⟩ := step
  cases op with
  | brk oomKill addr => exact working.brk alone fits
  | mmap oomKill addr length prot flags fd offset => exact working.mmap alone prot flags fd offset fits
  | munmap addr length => exact working.munmap addr length

/--
No frame of the heap range is lost in a run whose calls fit.

In every state reached each frame the calls obtained is held by one user entry and referenced once,
or released; no call takes the last entry of a frame away without releasing the frame, and a call
that fails changes no entry, not the break and no region.
-/
theorem heap_frames_accounted {pd : Nat} {start : UserState} {proc : UserProcess}
    (current : start.current = some proc) (directory : proc.pagedir = some pd)
    (above : userHeapStart ≤ proc.brk.toNat) (below : proc.brk.toNat ≤ userHeapEnd)
    (begins : HeapStart start.vm pd) {run : List (HeapOp × UserState)}
    (follows : Along (HeapStep pd) start run)
    (fits : Along (fun before op _ => op.Fits pd before) start run) :
    Visits (fun state => Accounted start.vm state.vm pd) start run ∧
      Along (fun before op _ => HeapCall pd before (op.exec before)) start run := by
  -- Nothing is obtained yet at the start.
  have working : HeapWorking start.vm pd start :=
    ⟨⟨begins, fun _ taken => absurd taken (Nat.lt_irrefl _)⟩, proc, current, directory, above, below⟩
  have steps := along_and follows fits
  constructor
  · refine visits_mono (fun state at_work => at_work.1.accounted)
      (visits_of_invariant (HeapWorking start.vm pd) ?_ working steps)
    exact fun before op after at_work step => (at_work.step step.1 step.2).1
  · refine along_of_invariant (HeapWorking start.vm pd) ?_ working steps
    exact fun before op after at_work step => at_work.step step.1 step.2

lemma sparingAlone_id (pd : Nat) : SparingAlone id pd := fun _ space =>
  ⟨space.spared_self, id, fun _ _ => rfl, fun _ => UInt8.le_refl _⟩

lemma Created.heapStart {top second first : Nat} (kernel : LargeKernel vm)
    (made : Created vm after pd top second first (kernelEntry vm) (kernelTable vm))
    (reserved : after.pmem.frameBitmap 0) : HeapStart after pd := by
  have nothing : ∀ frame, ¬after.Maps pd frame := by
    rintro frame ⟨s, below, i, _, entry, shows, _⟩
    exact (shown_eq_some.mp shows).1 (made.no_tables kernel below)
  refine ⟨made.userSpace kernel, reserved, fun frame maps => absurd maps (nothing frame), fun frame => ?_⟩
  have empty := nothing frame
  rw [maps_iff_holders, Finset.not_nonempty_iff_eq_empty] at empty
  rw [empty]
  exact Nat.zero_le _

/-- A first page of heap for a new process. -/
structure FirstPage (vm after : Vm) (frame : Nat) : Prop where
  begins : HeapStart vm 1
  unmapped : (getPageEntry vm 1 0x40000000).filter isPresent = none
  found : (takeFrame vm).2 ≠ 0
  served : TableServed vm 1 0x40000000
  state : (mapTaken vm (some 1) 0x40000000).1 = after
  given : PageGiven vm after 1 0x40000000 frame

lemma heapPage_first : HeapPage 0x40000000 := ⟨by decide, by decide, by decide⟩

lemma bootUser_firstPage : ∃ after frame, FirstPage bootUser after frame := by
  obtain ⟨reserved, found, served⟩ : bootUser.pmem.frameBitmap 0 ∧ (takeFrame bootUser).2 ≠ 0 ∧
      (allocPageTable (takeFrame bootUser).1).2 ≠ 0 := by decide +kernel
  obtain ⟨top, second, first, made⟩ := bootVm_made bootVm_creates
  have begins := made.heapStart bootVm_largeKernel reserved
  obtain ⟨frame, given⟩ := begins.space.mapTaken_given heapPage_first.high (.inr served) found
  exact ⟨_, frame, begins, by decide +kernel, found, .inr served, rfl, given⟩

lemma FirstPage.grow (page : FirstPage vm after frame) :
    HeapOp.exec ⟨vm, some (freshProcess 1)⟩ (.brk id 0x40001000) =
      (⟨after, some { freshProcess 1 with brk := 0x40001000 }⟩, true) := by
  have killed : reclaim id vm = vm := by simp [reclaim]
  have loop : mapPages id vm (freshProcess 1).pagedir [0x40000000] = (after, 1) := by
    show mapPages id vm (some 1) [0x40000000] = _
    rw [mapPages_cons (by rw [killed]; exact page.found), killed, page.state]
    rfl
  simp only [HeapOp.exec, syscallBrk]
  rw [← brkPages, show brkPages (freshProcess 1) 0x40001000 = [0x40000000] by decide, loop]
  rfl

/-- A break that is raised over unmapped memory and lowered again loses nothing. -/
theorem heap_frames_accounted_grow : ∃ vm after frame,
    pagingCreateUserDirectory bootVm = (vm, some 1) ∧ FirstPage vm after frame ∧
      Visits (fun state : UserState => Accounted vm state.vm 1) ⟨vm, some (freshProcess 1)⟩
        [(HeapOp.brk id 0x40001000, ⟨after, some { freshProcess 1 with brk := 0x40001000 }⟩),
          (.brk id 0x40000000, ⟨after, some (freshProcess 1)⟩)] := by
  obtain ⟨after, frame, page⟩ := bootUser_firstPage
  have killed : reclaim id bootUser = bootUser := by simp [reclaim]
  have current : (⟨bootUser, some (freshProcess 1)⟩ : UserState).current = some (freshProcess 1) := rfl
  refine ⟨bootUser, after, frame, bootVm_creates, page,
    (heap_frames_accounted current rfl (by decide) (by decide) page.begins ?_ ?_).1⟩
  · exact ⟨⟨by rw [page.grow], sparingAlone_id 1⟩, ⟨rfl, sparingAlone_id 1⟩, trivial⟩
  · refine ⟨?_, ?_, trivial⟩
    all_goals rintro proc ⟨⟩ _ _
    · rw [show brkPages (freshProcess 1) 0x40001000 = [0x40000000] by decide]
      simp only [PagesFit, FramesFound, killed, and_true]
      exact ⟨fun _ => ⟨page.unmapped, page.served⟩, id⟩
    · exact ⟨trivial, fun _ => trivial⟩

/--
A break that is raised, lowered and raised again loses the frame of its first page.

The frame has a reference and no entry holds it.
-/
theorem heap_frames_lost : ∃ vm, pagingCreateUserDirectory bootVm = (vm, some 1) ∧ HeapStart vm 1 ∧
    ¬Visits (fun state : UserState => Accounted vm state.vm 1) ⟨vm, some (freshProcess 1)⟩
      (record (fun state op => (HeapOp.exec state op).1) ⟨vm, some (freshProcess 1)⟩
        [.brk id 0x40001000, .brk id 0x40000000, .brk id 0x40001000]) := by
  obtain ⟨_, _, page⟩ := bootUser_firstPage
  refine ⟨bootUser, bootVm_creates, page.begins, ?_⟩
  rintro ⟨_, _, _, accounted⟩
  -- The page was still mapped when the break was raised again, and got another frame.
  obtain ⟨last, ⟨taken, count, directories, tables⟩, accounted⟩ : ∃ last : Vm,
      (bootUser.pmem.taken 5638 < last.pmem.taken 5638 ∧ last.pmem.frameRefcount 5638 = 1 ∧
        (∀ j, j < 4 → 5638 ≠ (last.pool 1).pageDirectory / frameSize + j) ∧
        ∀ s, s < pageTableSlots → (last.pool 1).tables s ≠ 0 → 5638 ≠ (last.pool 1).tables s / frameSize ∧
          ∀ i, i < 512 → (last.shown 1 s i).map entryFrame ≠ some 5638) ∧ Accounted bootUser last 1 :=
    ⟨_, by decide +kernel, accounted⟩
  have outside : ¬last.Structural 1 5638 := by
    rintro (⟨j, small, own⟩ | ⟨s, below, named, own⟩)
    · exact directories j small own
    · exact (tables s below named).1 own
  have nobody : last.holders 1 5638 = ∅ := by
    refine Finset.eq_empty_of_forall_notMem fun cell held => ?_
    obtain ⟨entry, found, frame⟩ := Option.map_eq_some_iff.mp (mem_holders.mp held)
    obtain ⟨small, s, below, _, shown⟩ := pte_eq_some.mp found
    refine (tables s below (shown_eq_some.mp shown).1).2 _ small ?_
    rw [shown, Option.map_some, frame]
  rcases accounted 5638 taken outside with ⟨_, cell, _, held, _⟩ | ⟨zero, _⟩
  · rw [nobody] at held
    exact absurd held.symm (Finset.singleton_ne_empty cell)
  · rw [count] at zero
    simp at zero

end Galio

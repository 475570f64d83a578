import Mathlib.Data.List.Find
import Galio.Process.ElfMemory
import Galio.Syscall.Mmap

/-! The loop of `elf_load`: what a run over the program headers leaves for the process to read. -/

namespace Galio

open List

/-- The pages of a segment, none where its range does not fit 32 bits. -/
def ProgramHeader.pages (ph : ProgramHeader) : List Nat := (segmentPages ph).getD []

/-- The pages the loop maps, in its order. -/
def loadPages (image : ElfImage) (indices : List Nat) : List Nat :=
  indices.flatMap fun i => if (image.header i).pType = ptLoad then (image.header i).pages else []

/-- Whether mapping a page gives a slot its table: one of the slot, or of its double while that has none. -/
def tableMadeAt (vm : Vm) (pd slot page : Nat) : Bool :=
  getTableSlot page = slot ∨
    (getTableSlot page / 2 = slot ∧ (vm.pool pd).tables (getTableSlot page) = 0)

/-- The processor reaches a slot, or the first page to give it a table is one of its own. -/
def SlotLinked (vm : Vm) (pd : Nat) (pages : List Nat) (slot : Nat) : Prop :=
  vm.Reaches pd slot ∨ ((vm.pool pd).tables slot = 0 ∧
    ∀ page, pages.find? (tableMadeAt vm pd slot) = some page → getTableSlot page = slot)

/-- Every page of a list has its slot linked. -/
def PagesLinked (vm : Vm) (pd : Nat) (pages : List Nat) : Prop :=
  ∀ page ∈ pages, SlotLinked vm pd pages (getTableSlot page)

/-- A page whose table the kernel has and the processor does not reach. -/
def Stuck (vm : Vm) (pd page : Nat) : Prop :=
  (vm.pool pd).tables (getTableSlot page) ≠ 0 ∧ ¬vm.Reaches pd (getTableSlot page)

/-- A page of the range `elf_load` accepts. -/
structure ImagePage (page : Nat) : Prop where
  above : userHeapStart - pageSize ≤ page
  below : page ≤ userSpaceEnd

variable {after before mid vm : Vm} {page pd frame : Nat} {rest : List Nat}

lemma ImagePage.slot (inside : ImagePage page) : 511 ≤ getTableSlot page ∧ getTableSlot page < 1536 := by
  have above := inside.above
  have below := inside.below
  simp only [userHeapStart, userSpaceEnd, pageSize] at above below
  rw [getTableSlot_eq (by omega)]
  omega

lemma ImagePage.high (inside : ImagePage page) : HighPage page := by
  have above := inside.above
  have below := inside.below
  simp only [userHeapStart, userSpaceEnd, pageSize] at above below
  refine ⟨by omega, ?_⟩
  simp only [maxFrames, frameSize]
  omega

lemma Grows.stuck (grows : Grows before after pd)
    (low : page < 2 ^ 32) (stuck : Stuck before pd page) : Stuck after pd page := by
  obtain ⟨named, unreached⟩ := stuck
  refine ⟨by rwa [grows.kept _ named], ?_⟩
  rwa [Vm.Reaches, grows.links _ (getTableSlot_lt low) named]

lemma Grows.reaches {slot : Nat} (grows : Grows before after pd)
    (space : UserSpace before pd) (below : slot < pageTableSlots) (reaches : before.Reaches pd slot) :
    after.Reaches pd slot := by
  have named := (space.linked slot below reaches.1 reaches.2.1).1
  rwa [Vm.Reaches, grows.links slot below named]

lemma Stuck.unread {addr : Nat} (stuck : Stuck vm pd page) (space : UserSpace vm pd)
    (low : page < 2 ^ 32) (small : addr < 2 ^ 32) (here : pageAlignDown addr = pageAlignDown page) :
    vm.userByte pd addr = none := by
  rw [Vm.userByte, Option.map_eq_none_iff, Option.eq_none_iff_forall_ne_some]
  intro entry walked
  have reaches := ((space.walkEntry_iff small).mp walked).1
  rw [((page_coordinates small low).mp here).1] at reaches
  exact stuck.2 reaches

lemma Untouched.pagesLinked (same : Untouched before after pd) {pages : List Nat}
    (low : ∀ page ∈ pages, page < 2 ^ 32) : PagesLinked after pd pages ↔ PagesLinked before pd pages := by
  refine forall₂_congr fun page member => ?_
  unfold SlotLinked tableMadeAt
  rw [same.pool, Vm.Reaches, Vm.Reaches, same.link (getTableSlot_lt (low page member))]

section Step

variable (given : PageGiven before after pd page frame) (inside : ∀ p ∈ page :: rest, ImagePage p)

include given inside

lemma PageGiven.find_rest {slot : Nat} (large : 511 ≤ slot) (passed : tableMadeAt before pd slot page = false) :
    rest.find? (tableMadeAt after pd slot) = rest.find? (tableMadeAt before pd slot) := by
  refine find?_congr fun q member => ?_
  have slots' := (inside page (by simp)).slot
  unfold tableMadeAt at passed ⊢
  rw [decide_eq_false_iff_not, not_or] at passed
  refine decide_eq_decide.mpr (or_congr_right (and_congr_right fun half => ?_))
  have names := given.names (getTableSlot q)
  refine not_iff_not.mp (names.trans ?_)
  constructor
  · rintro (named | ⟨absent, own | double⟩)
    · exact named
    · rw [← own] at passed absent
      exact absurd ⟨half, absent⟩ passed.2
    · -- The double of the page's slot would lie above the range.
      omega
  · exact .inl

lemma PageGiven.pagesLinked (load : LoadSpace before pd) : PagesLinked before pd (page :: rest) ↔
    ((before.pool pd).tables (getTableSlot page) = 0 ∨ before.Reaches pd (getTableSlot page)) ∧
      PagesLinked after pd rest := by
  have low := (inside page (by simp)).high.low
  constructor
  · intro linked
    have first : (before.pool pd).tables (getTableSlot page) = 0 ∨ before.Reaches pd (getTableSlot page) :=
      (linked page (by simp)).elim .inr fun made => .inl made.1
    refine ⟨first, fun q member => ?_⟩
    have slots := (inside q (by simp [member])).slot
    have small := getTableSlot_lt (inside q (by simp [member])).high.low
    rcases linked q (by simp [member]) with reaches | ⟨absent, own⟩
    · exact .inl (given.grows.reaches load.space small reaches)
    · cases passed : tableMadeAt before pd (getTableSlot q) page with
      | true =>
        -- The page gives the slot its table, so it is one of the slot.
        have same := own page (by rw [find?_cons_of_pos passed])
        rw [← same]
        exact .inl (given.reaches low first)
      | false =>
        refine .inr ⟨?_, ?_⟩
        · by_contra named
          unfold tableMadeAt at passed
          rw [decide_eq_false_iff_not, not_or] at passed
          rcases (given.names _).mp named with old | ⟨missing, own | half⟩
          · exact old absent
          · exact passed.1 own.symm
          · exact passed.2 ⟨half.symm, missing⟩
        · rw [given.find_rest inside slots.1 passed]
          rw [find?_cons_of_neg (by rw [passed]; decide)] at own
          exact own
  · rintro ⟨first, linked⟩ q member
    by_cases same : getTableSlot q = getTableSlot page
    · rw [same]
      refine first.elim (fun absent => .inr ⟨absent, fun found here => ?_⟩) .inl
      rw [find?_cons_of_pos (by simp [tableMadeAt])] at here
      cases here
      rfl
    · have inRest : q ∈ rest := by
        rcases mem_cons.mp member with rfl | inRest
        · exact absurd rfl same
        · exact inRest
      have slots := (inside q member).slot
      rcases linked q inRest with reaches | ⟨absent, own⟩
      · rw [Vm.Reaches, given.links _ (getTableSlot_lt (inside q member).high.low) (.inl same)] at reaches
        exact .inl reaches
      · have passed : tableMadeAt before pd (getTableSlot q) page = false := by
          unfold tableMadeAt
          rw [decide_eq_false_iff_not]
          rintro (equal | ⟨half, missing⟩)
          · exact same equal.symm
          · exact (given.names (getTableSlot q)).mpr (.inr ⟨missing, .inr half.symm⟩) absent
        refine .inr ⟨?_, ?_⟩
        · by_contra named
          exact (given.names _).mpr (.inl named) absent
        · rw [find?_cons_of_neg (by rw [passed]; decide)]
          rwa [given.find_rest inside slots.1 passed] at own

end Step

/-- Every page of a list finds memory at its turn: nothing is reclaimed, and its table is served. -/
def PagesServed (oomKill : Vm → Vm) (pd : Nat) (vm : Vm) : List Nat → Prop
  | [] => True
  | page :: rest =>
    reclaim oomKill vm = vm ∧ TableServed vm pd page ∧
      PagesServed oomKill pd (mapTaken vm (some pd) page).1 rest

/-- What mapping linked pages leaves to read. -/
structure PagesBlank (before after : Vm) (pd : Nat) (pages : List Nat) : Prop where
  bytes : ∀ addr, addr < 2 ^ 32 → after.userByte pd addr =
    if ∃ page ∈ pages, pageAlignDown addr = pageAlignDown page then some 0 else before.userByte pd addr
  exclusive : ∀ page ∈ pages, Exclusive after pd page
  kept : ∀ addr, addr < 2 ^ 32 → Exclusive before pd addr → Exclusive after pd addr

/-- What mapping pages does to a directory, with the pages still to come. -/
structure PagesLoaded (before after : Vm) (pd : Nat) (pages later : List Nat) : Prop where
  load : LoadSpace after pd
  grows : Grows before after pd
  linked : PagesLinked before pd (pages ++ later) → PagesBlank before after pd pages ∧
    PagesLinked after pd later
  stuck : ¬PagesLinked before pd (pages ++ later) → (∃ page ∈ pages, Stuck after pd page) ∨
    ¬PagesLinked after pd later

lemma PageGiven.blank
    (given : PageGiven before mid pd page frame) (load : LoadSpace before pd) (low : page < 2 ^ 32)
    (ready : (before.pool pd).tables (getTableSlot page) = 0 ∨ before.Reaches pd (getTableSlot page))
    (blank : PagesBlank mid after pd rest) : PagesBlank before after pd (page :: rest) where
  bytes := fun addr small => by
    rw [blank.bytes addr small, given.userByte load low ready small]
    by_cases later : ∃ p ∈ rest, pageAlignDown addr = pageAlignDown p
    · have any : ∃ p ∈ page :: rest, pageAlignDown addr = pageAlignDown p :=
        later.imp fun _ here => ⟨mem_cons_of_mem _ here.1, here.2⟩
      rw [if_pos later, if_pos any]
    · by_cases here : pageAlignDown addr = pageAlignDown page
      · rw [if_neg later, if_pos here, if_pos ⟨page, by simp, here⟩]
      · rw [if_neg later, if_neg here, if_neg]
        rintro ⟨p, member, same⟩
        rcases mem_cons.mp member with rfl | inRest
        · exact here same
        · exact later ⟨p, inRest, same⟩
  exclusive := fun p member => by
    rcases mem_cons.mp member with rfl | inRest
    · exact blank.kept p low (given.exclusive load low ready)
    · exact blank.exclusive p inRest
  kept := fun addr small alone =>
    blank.kept addr small (given.exclusive_kept load low ready small alone)

lemma LoadSpace.mapPages {oomKill : Vm → Vm} {pages later : List Nat}
    (load : LoadSpace vm pd) (inside : ∀ page ∈ pages ++ later, ImagePage page)
    (served : PagesServed oomKill pd vm pages) (done : (mapPages oomKill vm (some pd) pages).2 = pages.length) :
    PagesLoaded vm (mapPages oomKill vm (some pd) pages).1 pd pages later := by
  induction pages generalizing vm with
  | nil =>
    refine ⟨load, ⟨fun _ _ => rfl, fun _ _ _ => rfl⟩, fun linked => ⟨⟨fun addr _ => ?_, ?_, ?_⟩, linked⟩, .inr⟩
    · simp [Galio.mapPages]
    · simp
    · exact fun _ _ alone => alone
  | cons page rest ih =>
    obtain ⟨settled, table, restServed⟩ := served
    have found := mapPages_found done
    rw [mapPages_cons found] at done ⊢
    rw [settled] at found done ⊢
    have within : ImagePage page := inside page (by simp)
    obtain ⟨frame, given⟩ := load.space.mapTaken_given within.high table found
    have next := ih (given.loadSpace load) (fun p member => inside p (by simp [member])) restServed
      (Nat.succ.inj done)
    have split := given.pagesLinked (inside) load
    refine ⟨next.load, given.grows.trans next.grows, fun linked => ?_, fun unlinked => ?_⟩
    · obtain ⟨ready, restLinked⟩ := split.mp linked
      obtain ⟨blank, laterLinked⟩ := next.linked restLinked
      exact ⟨given.blank load within.high.low ready blank, laterLinked⟩
    · by_cases restLinked : PagesLinked (mapTaken vm (some pd) page).1 pd (rest ++ later)
      · -- The page itself is the one that is not reached.
        have unready : ¬((vm.pool pd).tables (getTableSlot page) = 0 ∨
            vm.Reaches pd (getTableSlot page)) := fun ready => unlinked (split.mpr ⟨ready, restLinked⟩)
        have stuck : Stuck vm pd page := not_or.mp unready
        exact .inl ⟨page, by simp, (given.grows.trans next.grows).stuck within.high.low stuck⟩
      · refine (next.stuck restLinked).imp_left fun reached => ?_
        obtain ⟨p, member, stuck⟩ := reached
        exact ⟨p, mem_cons_of_mem _ member, stuck⟩

/-- What copying a segment leaves, when its first bytes are copied. -/
structure Copied (before after : Vm) (pd : Nat) (image : ElfImage) (ph : ProgramHeader) (count : Nat) :
    Prop where
  load : LoadSpace after pd
  same : Untouched before after pd
  used : after.pmem = before.pmem
  bytes : (∀ j, j < count → Exclusive before pd (ph.pVaddr + j)) →
    ∀ addr, addr < 2 ^ 32 → after.userByte pd addr =
      if ph.pVaddr ≤ addr ∧ addr < ph.pVaddr + count then
        some (image.data (ph.pOffset + (addr - ph.pVaddr)))
      else before.userByte pd addr

lemma Untouched.trans (first : Untouched before mid pd)
    (second : Untouched mid after pd) : Untouched before after pd where
  pool := second.pool.trans first.pool
  mem := fun frame own => by
    have own' : mid.Structural pd frame := by simpa only [Vm.Structural, first.pool] using own
    rw [second.mem frame own', first.mem frame own]

lemma LoadSpace.copied {image : ElfImage} {ph : ProgramHeader}
    (load : LoadSpace vm pd) {count : Nat} (inside : ∀ j < count, ImagePage (ph.pVaddr + j)) :
    Copied vm ((range count).foldl (fun vm j =>
      storeByte vm pd (ph.pVaddr + j) (image.data (ph.pOffset + j))) vm) pd image ph count := by
  induction count with
  | zero =>
    refine ⟨load, ⟨rfl, fun _ _ => rfl⟩, rfl, fun _ addr _ => ?_⟩
    rw [if_neg (by omega)]
    rfl
  | succ count ih =>
    have before := ih fun j below => inside j (Nat.lt_succ_of_lt below)
    rw [range_succ, foldl_append]
    generalize (range count).foldl (fun vm j =>
      storeByte vm pd (ph.pVaddr + j) (image.data (ph.pOffset + j))) vm = mid at before ⊢
    have within := (inside count (Nat.lt_succ_self count)).high
    refine ⟨before.load.store _ within, before.same.trans (before.load.store_untouched _ within),
      before.used, fun alone addr small => ?_⟩
    have here := (alone count (Nat.lt_succ_self count)).untouched before.same load.space within.low
      (by rw [before.used])
    rw [foldl_cons, foldl_nil, before.load.store_userByte _ within here small,
      before.bytes (fun j below => alone j (Nat.lt_succ_of_lt below)) addr small]
    by_cases last : addr = ph.pVaddr + count
    · rw [if_pos last, if_pos (by omega), last, Nat.add_sub_cancel_left]
    · rw [if_neg last]
      exact if_congr (by omega) rfl rfl

end Galio

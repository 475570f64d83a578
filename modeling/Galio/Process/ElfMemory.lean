import Galio.Process.Elf
import Galio.Syscall.MemoryLaws

/-! What a process reads while pages are mapped and bytes are stored for it. -/

namespace Galio

open Function Option

/-- The byte a user access reads. -/
def Vm.userByte (vm : Vm) (pd addr : Nat) : Option (BitVec 8) :=
  (walkEntry vm pd addr).map fun entry => vm.byte (entryFrame entry) (addr % pageSize)

/-- The processor finds a table for users at a slot. -/
def Vm.Reaches (vm : Vm) (pd slot : Nat) : Prop :=
  isPresent (vm.link pd slot) = true ∧ isUser (vm.link pd slot) = true ∧
    isLarge (vm.link pd slot) = false

/-- A directory at work whose pages lie apart from its tables. -/
structure LoadSpace (vm : Vm) (pd : Nat) : Prop where
  space : UserSpace vm pd
  apart : ∀ frame, vm.Maps pd frame → ¬vm.Structural pd frame

variable {addr frame other pd : Nat} {after before vm : Vm} {entry : Word}

lemma UserSpace.walkEntry_iff (space : UserSpace vm pd)
    (low : addr < 2 ^ 32) : walkEntry vm pd addr = some entry ↔ vm.Reaches pd (getTableSlot addr) ∧
        vm.shown pd (getTableSlot addr) (getPageTableIndex addr) = some entry ∧ isUser entry = true := by
  rw [Galio.walkEntry_iff, shown_eq_some]
  constructor
  · rintro ⟨reaches, read, present, user⟩
    obtain ⟨named, table⟩ := space.linked _ (getTableSlot_lt low) reaches.1 reaches.2.1
    exact ⟨reaches, ⟨named, present, by rw [Vm.leaf, ← table, read]⟩, user⟩
  · rintro ⟨reaches, ⟨_, present, leaf⟩, user⟩
    obtain ⟨_, table⟩ := space.linked _ (getTableSlot_lt low) reaches.1 reaches.2.1
    exact ⟨reaches, by rw [table]; exact leaf, present, user⟩

lemma UserSpace.maps_of_walk (space : UserSpace vm pd) (low : addr < 2 ^ 32)
    (walked : walkEntry vm pd addr = some entry) : vm.Maps pd (entryFrame entry) :=
  ⟨_, getTableSlot_lt low, _, getPageTableIndex_lt addr, entry, ((space.walkEntry_iff low).mp walked).2.1, rfl⟩

lemma page_coordinates (low : addr < 2 ^ 32) (low' : other < 2 ^ 32) : pageAlignDown addr = pageAlignDown other ↔
      getTableSlot addr = getTableSlot other ∧ getPageTableIndex addr = getPageTableIndex other := by
  rw [getTableSlot_eq low, getTableSlot_eq low']
  simp only [pageAlignDown, pageSize, getPageTableIndex]
  omega

/-- The slots of a directory that are named keep their tables and links. -/
structure Grows (before after : Vm) (pd : Nat) : Prop where
  kept : ∀ s, (before.pool pd).tables s ≠ 0 → (after.pool pd).tables s = (before.pool pd).tables s
  links : ∀ s, s < pageTableSlots → (before.pool pd).tables s ≠ 0 → after.link pd s = before.link pd s

lemma Grows.trans {mid : Vm} (first : Grows before mid pd)
    (second : Grows mid after pd) : Grows before after pd where
  kept := fun s present => by
    have kept := first.kept s present
    rw [second.kept s (by rwa [kept]), kept]
  links := fun s below present => by
    have kept := first.kept s present
    rw [second.links s below (by rwa [kept]), first.links s below present]

lemma Untouched.grows (same : Untouched before after pd) : Grows before after pd :=
  ⟨fun _ _ => by rw [same.pool], fun _ below _ => same.link below⟩

lemma PageGiven.grows {page : Nat} (given : PageGiven before after pd page frame) : Grows before after pd := by
  refine ⟨given.kept, fun s below present => given.links s below ?_⟩
  by_cases same : s = getTableSlot page
  · exact .inr (same ▸ present)
  · exact .inl same

lemma PageGiven.loadSpace {page : Nat}
    (given : PageGiven before after pd page frame) (load : LoadSpace before pd) : LoadSpace after pd := by
  refine ⟨given.space, fun f maps own => ?_⟩
  obtain ⟨s, below, i, small, entry, shows, rfl⟩ := maps
  rw [given.shown s below i small] at shows
  split at shows
  · cases shows
    rw [entryFrame_userEntry given.tracked] at own
    exact given.apart own
  · have old : before.Maps pd (entryFrame entry) := ⟨s, below, i, small, entry, shows, rfl⟩
    rcases given.fresh _ own with structural | free
    · exact load.apart _ old structural
    · rw [(load.space.held _ old).2] at free
      simp at free

section Given

variable {page : Nat} (given : PageGiven before after pd page frame) (load : LoadSpace before pd)
  (low : page < 2 ^ 32)
  (linked : (before.pool pd).tables (getTableSlot page) = 0 ∨ before.Reaches pd (getTableSlot page))

include given linked low

lemma PageGiven.reaches : after.Reaches pd (getTableSlot page) := by
  by_cases absent : (before.pool pd).tables (getTableSlot page) = 0
  · exact given.linked absent
  · have link := given.links _ (getTableSlot_lt low) (.inr absent)
    rw [Vm.Reaches, link]
    exact linked.resolve_left absent

lemma PageGiven.walk_page (small : addr < 2 ^ 32)
    (here : pageAlignDown addr = pageAlignDown page) : walkEntry after pd addr = some (userEntry frame) := by
  obtain ⟨slot, index⟩ := (page_coordinates small low).mp here
  rw [given.space.walkEntry_iff small, slot, index, given.shown_page low]
  exact ⟨given.reaches low linked, rfl, isUser_userEntry frame⟩

include load

lemma PageGiven.walk_other (small : addr < 2 ^ 32)
    (apart : pageAlignDown addr ≠ pageAlignDown page) : walkEntry after pd addr = walkEntry before pd addr := by
  have inSlot := getTableSlot_lt small
  have inSlot' := getTableSlot_lt low
  refine ext fun entry => ?_
  rw [given.space.walkEntry_iff small, load.space.walkEntry_iff small,
    given.shown _ inSlot _ (getPageTableIndex_lt addr)]
  by_cases slot : getTableSlot addr = getTableSlot page
  · -- In the page's own table another index is meant.
    have index : getPageTableIndex addr ≠ getPageTableIndex page := fun index =>
      apart ((page_coordinates small low).mpr ⟨slot, index⟩)
    rw [if_neg fun both => index both.2]
    by_cases absent : (before.pool pd).tables (getTableSlot page) = 0
    · have nothing : before.shown pd (getTableSlot addr) (getPageTableIndex addr) = none := by
        rw [slot, Vm.shown, absent]
        simp
      simp [nothing]
    · rw [Vm.Reaches, Vm.Reaches, given.links _ inSlot (.inr absent)]
  · have link := given.links _ inSlot (.inl slot)
    rw [Vm.Reaches, link]
    refine and_congr_right fun reaches => ?_
    -- Two slots that are reached never share a table.
    rw [if_neg]
    rintro ⟨shared, _⟩
    have reaches' := given.reaches low linked
    rw [← link] at reaches
    rcases Nat.lt_or_gt_of_ne slot with less | more
    · exact given.space.owner _ inSlot reaches.1 reaches.2.1 _ less inSlot' shared
    · exact given.space.owner _ inSlot' reaches'.1 reaches'.2.1 _ more inSlot shared.symm

/-- The bytes of the page read as zero and all others as before. -/
theorem PageGiven.userByte (small : addr < 2 ^ 32) : after.userByte pd addr =
      if pageAlignDown addr = pageAlignDown page then some 0 else before.userByte pd addr := by
  by_cases here : pageAlignDown addr = pageAlignDown page
  · rw [if_pos here, Vm.userByte, given.walk_page low linked small here, map_some,
      entryFrame_userEntry given.tracked, Vm.byte,
      given.cleared (given.walk_page low linked low rfl)]
    exact congrArg some (Bytes.get_zero _)
  · rw [if_neg here, Vm.userByte, Vm.userByte, given.walk_other load low linked small here]
    cases walked : walkEntry before pd addr with
    | none => rfl
    | some entry =>
      -- The frame of another page is neither the fresh one nor a table.
      have maps := load.space.maps_of_walk small walked
      have held := load.space.held _ maps
      have other : entryFrame entry ≠ frame := by
        intro same
        rw [same, given.clear] at held
        exact absurd held.2 (by decide)
      have outside : ¬after.Structural pd (entryFrame entry) := fun own => by
        rcases given.fresh _ own with structural | free
        · exact load.apart _ maps structural
        · rw [held.2] at free
          simp at free
      rw [map_some, map_some, Vm.byte, Vm.byte,
        given.mem_outside (getTableSlot_lt low) held.1 other outside]

end Given

/-- An address whose frame the processor finds at no other page. -/
def Exclusive (vm : Vm) (pd addr : Nat) : Prop :=
  ∃ frame, walkEntry vm pd addr = some (userEntry frame) ∧ frame < maxFrames ∧
    vm.pmem.frameBitmap frame = true ∧ ∀ other, other < 2 ^ 32 → ∀ entry,
      walkEntry vm pd other = some entry → entryFrame entry = frame →
        pageAlignDown other = pageAlignDown addr

lemma Exclusive.page (space : UserSpace vm pd)
    (alone : Exclusive vm pd addr) (low : addr < 2 ^ 32) (low' : other < 2 ^ 32)
    (same : pageAlignDown other = pageAlignDown addr) : Exclusive vm pd other := by
  obtain ⟨frame, walked, tracked, used, only⟩ := alone
  refine ⟨frame, ?_, tracked, used, fun b small entry found here => ?_⟩
  · obtain ⟨slot, index⟩ := (page_coordinates low' low).mp same
    rw [space.walkEntry_iff low', slot, index, ← space.walkEntry_iff low]
    exact walked
  · rw [same]
    exact only b small entry found here

lemma Exclusive.untouched (alone : Exclusive before pd addr)
    (same : Untouched before after pd) (space : UserSpace before pd) (low : addr < 2 ^ 32)
    (used : after.pmem.frameBitmap = before.pmem.frameBitmap) : Exclusive after pd addr := by
  obtain ⟨frame, walked, tracked, held, only⟩ := alone
  refine ⟨frame, ?_, tracked, by rw [used, held], fun other small entry found here => ?_⟩
  · rw [same.walkEntry space low, walked]
  · rw [same.walkEntry space small] at found
    exact only other small entry found here

section GivenExclusive

variable {page : Nat} (given : PageGiven before after pd page frame) (load : LoadSpace before pd)
  (low : page < 2 ^ 32)
  (linked : (before.pool pd).tables (getTableSlot page) = 0 ∨ before.Reaches pd (getTableSlot page))

include given load low linked

lemma PageGiven.exclusive : Exclusive after pd page := by
  refine ⟨frame, given.walk_page low linked low rfl, given.tracked, ?_, fun other small entry found here => ?_⟩
  · rw [← cell_used, given.cell]
    exact (load.space.layout.clean frame).ref_used
  · by_contra apart
    rw [given.walk_other load low linked small apart] at found
    have held := (load.space.held _ (load.space.maps_of_walk small found)).2
    rw [here, given.clear] at held
    simp at held

lemma PageGiven.exclusive_kept (small : addr < 2 ^ 32)
    (alone : Exclusive before pd addr) : Exclusive after pd addr := by
  by_cases here : pageAlignDown addr = pageAlignDown page
  · exact (given.exclusive load low linked).page given.space low small here
  obtain ⟨frame', walked, tracked, used, only⟩ := alone
  refine ⟨frame', ?_, tracked, ?_, fun other small' entry found same => ?_⟩
  · rw [given.walk_other load low linked small here, walked]
  · rw [← cell_used, given.cells _ used, cell_used, used]
  · by_cases there : pageAlignDown other = pageAlignDown page
    · rw [given.walk_page low linked small' there] at found
      cases found
      rw [entryFrame_userEntry given.tracked] at same
      rw [← same, given.clear] at used
      simp at used
    · rw [given.walk_other load low linked small' there] at found
      exact only other small' entry found same

end GivenExclusive

section Store

variable (byte : BitVec 8)

section

variable (load : LoadSpace vm pd) (high : HighPage addr)
include load high

lemma LoadSpace.store_outside : ¬vm.Structural pd (kernelFrame vm (some pd) addr) := by
  rcases load.space.kernelFrame_cases high.low with ⟨identity, _⟩ | ⟨entry, shows, reached⟩
  · intro own
    have tracked := (load.space.structural_used own).1
    rw [identity] at tracked
    exact absurd tracked (Nat.not_lt.mpr high.untracked)
  · rw [reached]
    exact load.apart _ ⟨_, getTableSlot_lt high.low, _, getPageTableIndex_lt addr, entry, shows, rfl⟩

lemma LoadSpace.store_untouched : Untouched vm (storeByte vm pd addr byte) pd :=
  untouched_fillFrame (load.store_outside high) _

lemma LoadSpace.store : LoadSpace (storeByte vm pd addr byte) pd := by
  refine ⟨load.space.fillFrame (load.store_outside high) _, fun frame maps own => ?_⟩
  exact load.apart frame ((load.store_untouched byte high).maps.mp maps) own

/-- A store at an exclusive address changes the byte there and no other. -/
theorem LoadSpace.store_userByte (alone : Exclusive vm pd addr)
    (small : other < 2 ^ 32) : (storeByte vm pd addr byte).userByte pd other =
      if other = addr then some byte else vm.userByte pd other := by
  have same := (load.store_untouched byte high).walkEntry load.space small
  obtain ⟨frame, walked, tracked, _, only⟩ := alone
  have frameAt : kernelFrame vm (some pd) addr = frame := by
    simp [kernelFrame, walked, entryFrame_userEntry tracked]
  rw [Vm.userByte, Vm.userByte, same]
  cases found : walkEntry vm pd other with
  | none =>
    rw [if_neg]
    · rfl
    · rintro rfl
      rw [walked] at found
      simp at found
  | some entry =>
    rw [map_some, map_some, Vm.byte, Vm.byte, storeByte, frameAt]
    by_cases here : entryFrame entry = frame
    · have page := only other small entry found here
      rw [here]
      show some (Bytes.get (update vm.mem frame _ frame _) _) = _
      rw [update_self]
      by_cases word : other % pageSize / 8 = addr % pageSize / 8
      · rw [word, update_self, Bytes.get_set _ _ (Nat.mod_lt _ (by decide))]
        by_cases position : other % pageSize % 8 = addr % pageSize % 8
        · have equal : other = addr := by
            simp only [pageAlignDown, pageSize] at page word position
            omega
          rw [if_pos position, if_pos equal]
        · rw [if_neg position, if_neg (fun equal => position (by rw [equal]))]
      · rw [update_of_ne word, if_neg (fun equal => word (by rw [equal]))]
    · rw [if_neg]
      · show some (Bytes.get (update vm.mem frame _ (entryFrame entry) _) _) = _
        rw [update_of_ne here]
      · rintro rfl
        rw [walked] at found
        cases found
        exact here (entryFrame_userEntry tracked)

end

end Store

end Galio

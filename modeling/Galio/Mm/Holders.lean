import Mathlib.Data.Finset.Prod
import Galio.Mm.UserSpace

/-! The page-table entries of a directory, each once, and the entries that hold a frame. -/

namespace Galio

open List

variable {after before vm : Vm} {cell : Nat × Nat} {frame index pd s slot : Nat}

/-- The slots of a directory, as a list that is never computed. -/
@[irreducible] def allSlots : List Nat := List.range pageTableSlots

lemma mem_allSlots : s ∈ allSlots ↔ s < pageTableSlots := by
  unfold allSlots
  exact mem_range

/-- The present entry at an index of a table of the directory, once for a table named by two slots. -/
def Vm.pte (vm : Vm) (pd : Nat) (cell : Nat × Nat) : Option Word :=
  allSlots.findSome? fun s =>
    if (vm.pool pd).tables s = cell.1 ∧ cell.2 < 512 then vm.shown pd s cell.2 else none

/-- The entries that map a frame. -/
def Vm.holders (vm : Vm) (pd frame : Nat) : Finset (Nat × Nat) :=
  (allSlots.toFinset.image (vm.pool pd).tables ×ˢ Finset.range 512).filter fun cell =>
    (vm.pte pd cell).map entryFrame = some frame

/-- The entry of a page. -/
def Vm.cellOf (vm : Vm) (pd page : Nat) : Nat × Nat :=
  ((vm.pool pd).tables (getTableSlot page), getPageTableIndex page)

lemma pte_eq_some {entry : Word} : vm.pte pd cell = some entry ↔ cell.2 < 512 ∧ ∃ s < pageTableSlots,
      (vm.pool pd).tables s = cell.1 ∧ vm.shown pd s cell.2 = some entry := by
  have forward : ∀ {entry}, vm.pte pd cell = some entry → cell.2 < 512 ∧ ∃ s < pageTableSlots,
      (vm.pool pd).tables s = cell.1 ∧ vm.shown pd s cell.2 = some entry := by
    intro entry found
    obtain ⟨s, listed, shows⟩ := exists_of_findSome?_eq_some found
    split at shows
    · rename_i own
      exact ⟨own.2, s, mem_allSlots.mp listed, own.1, shows⟩
    · simp at shows
  refine ⟨forward, ?_⟩
  rintro ⟨small, s, below, named, shows⟩
  cases found : vm.pte pd cell with
  | none =>
    have missed := findSome?_eq_none_iff.mp found s (mem_allSlots.mpr below)
    rw [if_pos ⟨named, small⟩, shows] at missed
    simp at missed
  | some other =>
    -- Slots that name one table show the same entry.
    obtain ⟨_, t, _, named', shows'⟩ := forward found
    rw [shown_congr (named'.trans named.symm), shows] at shows'
    exact shows'.symm

lemma pte_slot {i : Nat} (below : s < pageTableSlots) (small : i < 512) :
    vm.pte pd ((vm.pool pd).tables s, i) = vm.shown pd s i := by
  cases shows : vm.shown pd s i with
  | some entry => exact pte_eq_some.mpr ⟨small, s, below, rfl, shows⟩
  | none =>
    cases found : vm.pte pd ((vm.pool pd).tables s, i) with
    | none => rfl
    | some entry =>
      obtain ⟨_, t, _, named, shows'⟩ := pte_eq_some.mp found
      rw [shown_congr named, shows] at shows'
      simp at shows'

lemma pte_cellOf {page : Nat} (low : page < 2 ^ 32) :
    vm.pte pd (vm.cellOf pd page) = vm.shown pd (getTableSlot page) (getPageTableIndex page) :=
  pte_slot (getTableSlot_lt low) (getPageTableIndex_lt page)

lemma mem_holders : cell ∈ vm.holders pd frame ↔ (vm.pte pd cell).map entryFrame = some frame := by
  simp only [Vm.holders, Finset.mem_filter, Finset.mem_product, Finset.mem_image, Finset.mem_range,
    mem_toFinset, mem_allSlots, and_iff_right_iff_imp, Option.map_eq_some_iff]
  rintro ⟨entry, found, _⟩
  obtain ⟨small, s, below, named, _⟩ := pte_eq_some.mp found
  exact ⟨⟨s, below, named⟩, small⟩

lemma maps_iff_holders : vm.Maps pd frame ↔ (vm.holders pd frame).Nonempty := by
  constructor
  · rintro ⟨s, below, i, small, entry, shows, rfl⟩
    refine ⟨((vm.pool pd).tables s, i), mem_holders.mpr ?_⟩
    rw [pte_slot below small, shows, Option.map_some]
  · rintro ⟨cell, holds⟩
    obtain ⟨entry, found, frame⟩ := Option.map_eq_some_iff.mp (mem_holders.mp holds)
    obtain ⟨small, s, below, _, shows⟩ := pte_eq_some.mp found
    exact ⟨s, below, cell.2, small, entry, shows, frame.symm⟩

lemma Untouched.pte (same : Untouched before after pd)
    (cell : Nat × Nat) : after.pte pd cell = before.pte pd cell := by
  refine Option.ext fun entry => ?_
  rw [pte_eq_some, pte_eq_some, same.pool]
  constructor
  · rintro ⟨small, s, below, named, shows⟩
    exact ⟨small, s, below, named, by rwa [same.shown below small] at shows⟩
  · rintro ⟨small, s, below, named, shows⟩
    exact ⟨small, s, below, named, by rwa [same.shown below small]⟩

section Change

lemma holders_congr (same : ∀ cell, after.pte pd cell = before.pte pd cell) (frame : Nat) :
    after.holders pd frame = before.holders pd frame := by
  ext cell
  rw [mem_holders, mem_holders, same]

variable {value : Option Word} (changed : ∀ c, after.pte pd c = if c = cell then value else before.pte pd c)

include changed

lemma holders_insert (maps : value.map entryFrame = some frame) :
    after.holders pd frame = insert cell (before.holders pd frame) := by
  ext c
  rw [mem_holders, changed, Finset.mem_insert, mem_holders]
  by_cases same : c = cell
  · simp [same, maps]
  · simp [same]

lemma holders_erase (apart : value.map entryFrame ≠ some frame) :
    after.holders pd frame = (before.holders pd frame).erase cell := by
  ext c
  rw [mem_holders, changed, Finset.mem_erase, mem_holders]
  by_cases same : c = cell
  · simp only [same, ne_eq, not_true_eq_false, false_and, iff_false]
    exact apart
  · simp [same]

lemma holders_other (old : (before.pte pd cell).map entryFrame ≠ some frame)
    (new : value.map entryFrame ≠ some frame) : after.holders pd frame = before.holders pd frame := by
  rw [holders_erase changed new, Finset.erase_eq_of_notMem]
  rwa [mem_holders]

end Change

lemma PageMapped.pte (mapped : PageMapped before after pd slot index frame) (inSlot : slot < pageTableSlots)
    (inTable : index < 512) (cell : Nat × Nat) :
    after.pte pd cell = if cell = ((after.pool pd).tables slot, index) then some (userEntry frame)
      else before.pte pd cell := by
  have own : after.pte pd ((after.pool pd).tables slot, index) = some (userEntry frame) := by
    rw [pte_slot inSlot inTable, mapped.shown _ inSlot _ inTable, if_pos ⟨rfl, rfl⟩]
  by_cases same : cell = ((after.pool pd).tables slot, index)
  · rw [if_pos same, same, own]
  -- Under a slot that names another table, or at another index, nothing has changed.
  have apart : ∀ s, (after.pool pd).tables s = cell.1 →
      ¬((after.pool pd).tables s = (after.pool pd).tables slot ∧ cell.2 = index) :=
    fun s named here => same (Prod.ext (named.symm.trans here.1) here.2)
  rw [if_neg same]
  refine Option.ext fun entry => ?_
  rw [pte_eq_some, pte_eq_some]
  constructor
  · rintro ⟨small, s, below, named, shows⟩
    rw [mapped.shown s below cell.2 small, if_neg (apart s named)] at shows
    exact ⟨small, s, below, by rw [← mapped.kept s (shown_eq_some.mp shows).1, named], shows⟩
  · rintro ⟨small, s, below, named, shows⟩
    have named' : (after.pool pd).tables s = cell.1 := by
      rw [mapped.kept s (shown_eq_some.mp shows).1, named]
    refine ⟨small, s, below, named', ?_⟩
    rw [mapped.shown s below cell.2 small, if_neg (apart s named'), shows]

lemma PageUnmapped.pte (unmapped : PageUnmapped before after pd slot index) (inSlot : slot < pageTableSlots)
    (cell : Nat × Nat) : after.pte pd cell = if cell = ((before.pool pd).tables slot, index) then none
      else before.pte pd cell := by
  have kept : ∀ s, (after.pool pd).tables s ≠ 0 → (after.pool pd).tables s = (before.pool pd).tables s :=
    fun s named => (unmapped.tables s).resolve_right fun lost => named lost.1
  obtain ⟨table, i⟩ := cell
  refine Option.ext fun entry => ?_
  constructor
  · intro found
    obtain ⟨small, s, below, named, shows⟩ := pte_eq_some.mp found
    have there := (shown_eq_some.mp shows).1
    rw [unmapped.shown s below i small there] at shows
    split at shows
    · simp at shows
    rename_i other
    rw [kept s there] at named
    rw [if_neg]
    · exact pte_eq_some.mpr ⟨small, s, below, named, shows⟩
    · intro same
      exact other ⟨named.trans (congrArg Prod.fst same), congrArg Prod.snd same⟩
  · intro found
    split at found
    · simp at found
    rename_i other
    obtain ⟨small, s, below, named, shows⟩ := pte_eq_some.mp found
    -- A slot that lost the table's second name is replaced by the slot that keeps it.
    obtain ⟨t, within, name, shows', stays⟩ : ∃ t < pageTableSlots,
        (before.pool pd).tables t = table ∧ before.shown pd t i = some entry ∧
        (after.pool pd).tables t = (before.pool pd).tables t := by
      rcases unmapped.tables s with stays | ⟨_, _, _, shared⟩
      · exact ⟨s, below, named, shows, stays⟩
      · refine ⟨slot, inSlot, shared.symm.trans named, by rwa [← shown_congr shared], ?_⟩
        exact (unmapped.tables slot).resolve_right fun lost => by omega
    refine pte_eq_some.mpr ⟨small, t, within, stays.trans name, ?_⟩
    rw [unmapped.shown t within i small (by rw [stays]; exact (shown_eq_some.mp shows').1), if_neg, shows']
    rintro ⟨same, rfl⟩
    exact other (by rw [← name, same])

end Galio

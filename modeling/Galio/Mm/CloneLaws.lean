import Galio.Lib.Lists
import Galio.Mm.PagingLayout

/-! What `paging_clone_directory` copies: entry by entry, table by table and slot by slot. -/

namespace Galio

open Function List

/-- An entry as the clone receives it: absent ones cleared, user pages read-only. -/
def clonedEntry (entry : Word) : Word :=
  if !isPresent entry then 0 else if isUser entry then entry &&& ~~~pageRw else entry

/-- An entry as the source keeps it: user pages read-only. -/
def sharedEntry (entry : Word) : Word :=
  if isPresent entry && isUser entry then entry &&& ~~~pageRw else entry

/-- The frame a cloned entry takes a reference on, if it takes one. -/
def sharedFrame (entry : Word) : List Nat :=
  if isPresent entry && isUser entry then [entryFrame entry] else []

section Bits

variable (entry : Word)

@[simp] lemma isWritable_readOnly : isWritable (entry &&& ~~~pageRw) = false := by
  simp [isWritable, pageRw]

@[simp] lemma isPresent_readOnly : isPresent (entry &&& ~~~pageRw) = isPresent entry := by
  simp [isPresent, pageRw]

@[simp] lemma isUser_readOnly : isUser (entry &&& ~~~pageRw) = isUser entry := by
  simp [isUser, pageRw]

@[simp] lemma entryFrame_readOnly : entryFrame (entry &&& ~~~pageRw) = entryFrame entry := by
  have outside : ~~~pageRw &&& frameMask = frameMask := by decide
  rw [entryFrame, entryFrame, BitVec.and_assoc, outside]

@[simp] lemma readOnly_readOnly : entry &&& ~~~pageRw &&& ~~~pageRw = entry &&& ~~~pageRw := by
  rw [BitVec.and_assoc, BitVec.and_self]

lemma readOnly_of_not_writable {entry : Word} (readOnly : isWritable entry = false) :
    entry &&& ~~~pageRw = entry := by
  apply BitVec.eq_of_getLsbD_eq
  intro i below
  -- The mask lacks bit one only, and that bit is clear.
  have mask : (~~~pageRw).getLsbD i = decide (i ≠ 1) := by
    have every : ∀ j : Fin 64, (~~~pageRw).getLsbD j = decide (j.val ≠ 1) := by decide
    exact every ⟨i, below⟩
  rw [BitVec.getLsbD_and, mask]
  by_cases one : i = 1
  · subst i
    simpa [isWritable] using readOnly
  · simp [one]

@[simp] lemma isPresent_sharedEntry : isPresent (sharedEntry entry) = isPresent entry := by
  unfold sharedEntry
  split <;> simp

@[simp] lemma isUser_sharedEntry : isUser (sharedEntry entry) = isUser entry := by
  unfold sharedEntry
  split <;> simp

@[simp] lemma entryFrame_sharedEntry : entryFrame (sharedEntry entry) = entryFrame entry := by
  unfold sharedEntry
  split <;> simp

@[simp] lemma sharedEntry_sharedEntry : sharedEntry (sharedEntry entry) = sharedEntry entry := by
  by_cases user : isPresent entry && isUser entry
  · simp [sharedEntry, user]
  · rw [sharedEntry, isPresent_sharedEntry, isUser_sharedEntry, if_neg user]

@[simp] lemma clonedEntry_sharedEntry : clonedEntry (sharedEntry entry) = clonedEntry entry := by
  rw [clonedEntry, isPresent_sharedEntry, clonedEntry]
  cases present : isPresent entry with
  | false => simp
  | true =>
    cases user : isUser entry with
    | false => simp [sharedEntry, user]
    | true => simp [sharedEntry, present, user]

@[simp] lemma sharedFrame_sharedEntry : sharedFrame (sharedEntry entry) = sharedFrame entry := by
  rw [sharedFrame, isPresent_sharedEntry, isUser_sharedEntry, entryFrame_sharedEntry, sharedFrame]

@[simp] lemma isPresent_clonedEntry : isPresent (clonedEntry entry) = isPresent entry := by
  unfold clonedEntry
  cases present : isPresent entry with
  | false => simp
  | true =>
    cases user : isUser entry with
    | false => simp [present]
    | true => simp [present]

@[simp] lemma sharedFrame_clonedEntry : sharedFrame (clonedEntry entry) = sharedFrame entry := by
  unfold clonedEntry
  cases present : isPresent entry with
  | false => simp [sharedFrame, present]
  | true =>
    cases user : isUser entry with
    | false => simp
    | true => simp [sharedFrame]

lemma isWritable_sharedEntry {entry : Word} (present : isPresent entry)
    (user : isUser entry) : isWritable (sharedEntry entry) = false := by
  simp [sharedEntry, present, user]

lemma clonedEntry_user {entry : Word} (present : isPresent entry)
    (user : isUser entry) : clonedEntry entry = entry &&& ~~~pageRw := by
  simp [clonedEntry, present, user]

end Bits

lemma pmemRefcountInc_entry (pmem : Pmem) (entry : Word) :
    pmemRefcountInc pmem (entry &&& frameMask).toNat = pmem.refFrames [entryFrame entry] := by
  show (if entryFrame entry < maxFrames then pmem.refFrame (entryFrame entry) else pmem) =
    pmem.refFrame (entryFrame entry)
  split
  · rfl
  · rename_i untracked
    rw [Pmem.refFrame, if_pos (Nat.le_of_not_lt untracked)]

lemma cloneEntry_eq (vm : Vm) (oldPt newPt i : Nat) : cloneEntry vm oldPt newPt i =
      ({ vm with pmem := vm.pmem.refFrames (sharedFrame (vm.readWord oldPt i)) }.writeWord oldPt i
        (sharedEntry (vm.readWord oldPt i))).writeWord newPt i (clonedEntry (vm.readWord oldPt i)) := by
  have same : vm.writeWord oldPt i (vm.readWord oldPt i) = vm := by
    simp only [Vm.writeWord, Vm.readWord, update_eq_self]
  unfold cloneEntry
  generalize vm.readWord oldPt i = entry at same ⊢
  cases present : isPresent entry with
  | false =>
    -- An absent entry is cleared in the clone only.
    have nothing : vm.pmem.refFrames [] = vm.pmem := rfl
    simp [clonedEntry, sharedEntry, sharedFrame, present, nothing, same]
  | true =>
    cases user : isUser entry with
    | false =>
      have nothing : vm.pmem.refFrames [] = vm.pmem := rfl
      simp [clonedEntry, sharedEntry, sharedFrame, present, user, nothing, same]
    | true =>
      simp only [clonedEntry, sharedEntry, sharedFrame, present, user]
      cases writable : isWritable entry with
      | false =>
        -- A read-only page is written back as it is.
        have kept := readOnly_of_not_writable writable
        have back : { vm with pmem := vm.pmem.refFrames [entryFrame entry] }.writeWord oldPt i entry =
            { vm with pmem := vm.pmem.refFrames [entryFrame entry] } := by
          conv_rhs => rw [← same]
          rfl
        simp only [Bool.not_true, Bool.false_eq_true, if_false, if_true, Bool.and_self, kept,
          pmemRefcountInc_entry, back]
      | true =>
        simp only [if_true,
          pmemRefcountInc_entry, entryFrame_readOnly]
        rfl

/-- The frames that the first entries of a copied table share, in order. -/
def sharedFrames (vm : Vm) (table count : Nat) : List Nat :=
  (List.range count).flatMap fun i => sharedFrame (vm.mem table i)

/-- What copying the first entries of one frame to another does. -/
structure CopiedEntries (before after : Vm) (old new count : Nat) : Prop where
  pmem : after.pmem = before.pmem.refFrames (sharedFrames before old count)
  mem : ∀ f j, after.mem f j =
    if f = new ∧ j < count then clonedEntry (before.mem old j)
    else if f = old ∧ j < count then sharedEntry (before.mem old j) else before.mem f j
  pool : after.pool = before.pool
  pageDirectoryCount : after.pageDirectoryCount = before.pageDirectoryCount
  kernelPd : after.kernelPd = before.kernelPd

variable {after before mid vm : Vm} {clone f limit new old s slot src : Nat} {table : Nat → Nat}

lemma CopiedEntries.step {count : Nat} (copied : CopiedEntries before mid old new count) (inTable : count < 512) :
    CopiedEntries before (cloneEntry mid (old * frameSize) (new * frameSize) count) old new (count + 1) := by
  have small : count / 512 = 0 := Nat.div_eq_of_lt inTable
  have index : count % 512 = count := Nat.mod_eq_of_lt inTable
  -- The loop has not reached this entry, so it is still the one of the start.
  have read : mid.readWord (old * frameSize) count = before.mem old count := by
    rw [readWord_small _ _ inTable, address_div, copied.mem, if_neg (by omega), if_neg (by omega)]
  rw [cloneEntry_eq, read]
  refine ⟨?_, fun f j => ?_, copied.pool, copied.pageDirectoryCount, copied.kernelPd⟩
  · show mid.pmem.refFrames _ = _
    rw [copied.pmem, sharedFrames, sharedFrames, range_succ, flatMap_append,
      flatMap_singleton, refFrames_append]
  · rw [mem_writeWord, mem_writeWord, address_div, address_div, small, index]
    rw [copied.mem]
    by_cases here : j = count
    · subst j
      by_cases isNew : f = new
      · simp [isNew]
      · by_cases isOld : f = old
        · simp [isOld]
        · simp [isNew]
    · have next : j < count + 1 ↔ j < count := by omega
      simp only [here, and_false, if_false, next]

lemma cloneTable_copied (vm : Vm) (old new : Nat) :
    CopiedEntries vm (cloneTable vm (old * frameSize) (new * frameSize)) old new 512 := by
  -- The invariant of the loop is the copy of a first part of the table.
  have prefixed : ∀ count ≤ 512, CopiedEntries vm ((range count).foldl
      (fun vm i => cloneEntry vm (old * frameSize) (new * frameSize) i) vm) old new count := by
    intro count
    induction count with
    | zero =>
      intro _
      exact ⟨rfl, fun f j => by simp, rfl, rfl, rfl⟩
    | succ count ih =>
      intro fits
      rw [range_succ, foldl_append]
      exact (ih (by omega)).step (by omega)
  exact prefixed 512 (Nat.le_refl _)

/-- The directory entry a clone is given for a table of its own. -/
def cloneLink (frame : Nat) : Word :=
  (BitVec.ofNat 64 (frame * frameSize) &&& tableMask) ||| pagePresent ||| pageRw ||| pageUser

@[simp] lemma isPresent_cloneLink (frame : Nat) : isPresent (cloneLink frame) := by
  simp [cloneLink, isPresent, pagePresent]

@[simp] lemma isUser_cloneLink (frame : Nat) : isUser (cloneLink frame) := by
  simp [cloneLink, isUser, pageUser]

lemma cloneLink_eq (frame : Nat) : cloneLink frame = (BitVec.ofNat 64 (frame * frameSize) &&& tableMask) |||
      ((pagePresent ||| pageRw ||| pageUser) &&& pageFlags) := by
  have flags : (pagePresent ||| pageRw ||| pageUser) &&& pageFlags =
      pagePresent ||| pageRw ||| pageUser := by decide
  rw [cloneLink, flags, BitVec.or_assoc, BitVec.or_assoc, BitVec.or_assoc]

/-- The tests of `paging_clone_directory` before it copies a slot's table. -/
def copiesSlot (vm : Vm) (src slot : Nat) : Bool :=
  decide ((vm.pool src).tables slot ≠ 0) && isPresent (vm.link src slot) &&
    isUser (vm.link src slot)

/-- The frame of the table a slot names. -/
def Vm.tableFrame (vm : Vm) (pd slot : Nat) : Nat := (vm.pool pd).tables slot / frameSize

/-- What copying the table of one slot does. -/
structure ClonedSlot (before after : Vm) (clone slot old new : Nat) : Prop where
  free : RegionFree before.pmem new
  pmem : after.pmem = before.pmem.refFrames (new :: sharedFrames before old 512)
  mem : ∀ f j, j < 512 → after.mem f j =
    if f = (before.pool clone).pageDirectory / frameSize + slot / 512 ∧ j = slot % 512 then
      cloneLink new
    else if f = new then clonedEntry (before.mem old j)
    else if f = old then sharedEntry (before.mem old j) else before.mem f j
  tables : ∀ s, (after.pool clone).tables s =
    if s = slot then new * frameSize else (before.pool clone).tables s
  others : ∀ q, q ≠ clone → after.pool q = before.pool q
  directory : (after.pool clone).directory = (before.pool clone).directory
  pdpt : (after.pool clone).pdpt = (before.pool clone).pdpt
  pageDirectory : (after.pool clone).pageDirectory = (before.pool clone).pageDirectory
  pageDirectoryCount : after.pageDirectoryCount = before.pageDirectoryCount
  kernelPd : after.kernelPd = before.kernelPd

lemma enterClone_cloned (free : RegionFree vm.pmem new)
    (used : ¬RegionFree vm.pmem old) : ClonedSlot vm (enterClone (cloneTable
      ({ vm with pmem := vm.pmem.refFrames [new] }.fillFrame new fun _ => 0)
        (old * frameSize) (new * frameSize)) clone slot (new * frameSize)) clone slot old new := by
  have apart : old ≠ new := fun same => used (same ▸ free)
  generalize started : ({ vm with pmem := vm.pmem.refFrames [new] }.fillFrame new fun _ => 0) = one
  have copied := cloneTable_copied one old new
  generalize cloneTable one (old * frameSize) (new * frameSize) = two at copied
  have pool : two.pool = vm.pool := by rw [copied.pool, ← started]; rfl
  have mem : ∀ f j, one.mem f j = if f = new then 0 else vm.mem f j := by
    intro f j
    rw [← started, mem_fillFrame]
  -- The new frame was cleared and the old one is another frame, so the entries copied are the old ones.
  have source : ∀ j, one.mem old j = vm.mem old j := fun j => by rw [mem, if_neg apart]
  have shared : sharedFrames one old 512 = sharedFrames vm old 512 := by
    simp only [sharedFrames, source]
  have entered := setTable_sameBesidesTables two clone slot (new * frameSize)
  unfold enterClone
  refine ⟨free, ?_, fun f j inTable => ?_, fun s => ?_, fun q other => ?_, ?_, ?_, ?_, ?_, ?_⟩
  · have first : one.pmem = vm.pmem.refFrames [new] := by rw [← started]; rfl
    rw [writeWord_pmem, entered.pmem, copied.pmem, shared, first, ← refFrames_append, singleton_append]
  · rw [mem_writeWord, entered.mem, pool]
    apply if_congr Iff.rfl rfl
    rw [copied.mem, source, mem]
    by_cases isNew : f = new
    · simp [isNew, inTable]
    · simp [isNew, inTable]
  · rw [writeWord_pool, setTable_tables, pool]
    simp
  · rw [writeWord_pool, entered.others q other, pool]
  · rw [writeWord_pool, entered.directory, pool]
  · rw [writeWord_pool, entered.pdpt, pool]
  · rw [writeWord_pool, entered.pageDirectory, pool]
  · rw [writeWord_pageDirectoryCount, entered.pageDirectoryCount, copied.pageDirectoryCount, ← started]
    rfl
  · rw [writeWord_kernelPd, entered.kernelPd, copied.kernelPd, ← started]
    rfl

/-- One slot is passed over, or stops the loop for want of a frame, or has its table copied. -/
theorem cloneSlot_cases
    (aligned : copiesSlot vm src slot → vm.tableFrame src slot * frameSize = (vm.pool src).tables slot)
    (used : copiesSlot vm src slot → ¬RegionFree vm.pmem (vm.tableFrame src slot)) :
    (copiesSlot vm src slot = false ∧ cloneSlot vm src clone slot = (vm, true)) ∨
    (copiesSlot vm src slot ∧ (∀ frame, ¬RegionFree vm.pmem frame) ∧ cloneSlot vm src clone slot = (vm, false)) ∨
    (copiesSlot vm src slot ∧ ∃ after new, ClonedSlot vm after clone slot (vm.tableFrame src slot) new ∧
      cloneSlot vm src clone slot = (after, true)) := by
  cases eligible : copiesSlot vm src slot with
  | false =>
    refine .inl ⟨rfl, ?_⟩
    unfold cloneSlot
    dsimp only
    split
    · rfl
    rename_i present
    rw [if_pos]
    simp only [copiesSlot, Vm.link, present, ne_eq,
      Bool.and_eq_false_iff] at eligible
    simpa using eligible
  | true =>
    have tests := eligible
    simp only [copiesSlot, Vm.link, Bool.and_eq_true, decide_eq_true_eq] at tests
    obtain ⟨⟨present, linked⟩, user⟩ := tests
    by_cases failed : (allocPageTable vm).2 = 0
    · refine .inr (.inl ⟨rfl, fun frame free => allocPageTable_some free failed, ?_⟩)
      simp [cloneSlot, present, linked, user, failed, allocPageTable_fail failed]
    · obtain ⟨new, address, taken, free⟩ := allocPageTable_ok failed
      refine .inr (.inr ⟨rfl, _, new, enterClone_cloned free (used eligible), ?_⟩)
      simp [cloneSlot, present, linked, user, address, taken, free.address_ne_zero, aligned eligible]

/--
A source and a clone before the loop over the slots, with their frames and the tables to copy in use and apart.
-/
structure CloneReady (vm : Vm) (src clone : Nat) : Prop where
  clean : vm.pmem.Clean
  other : src ≠ clone
  sourceUsed : ∀ j, j < 4 → ¬RegionFree vm.pmem ((vm.pool src).pageDirectory / frameSize + j)
  cloneUsed : ∀ j, j < 4 → ¬RegionFree vm.pmem ((vm.pool clone).pageDirectory / frameSize + j)
  levels : ∀ j, j < 4 → ∀ k, k < 4 →
    (vm.pool src).pageDirectory / frameSize + j ≠ (vm.pool clone).pageDirectory / frameSize + k
  aligned : ∀ s, s < pageTableSlots → copiesSlot vm src s = true →
    vm.tableFrame src s * frameSize = (vm.pool src).tables s
  tableUsed : ∀ s, s < pageTableSlots → copiesSlot vm src s = true →
    ¬RegionFree vm.pmem (vm.tableFrame src s)
  apartSource : ∀ s, s < pageTableSlots → copiesSlot vm src s = true → ∀ j, j < 4 →
    vm.tableFrame src s ≠ (vm.pool src).pageDirectory / frameSize + j
  apartClone : ∀ s, s < pageTableSlots → copiesSlot vm src s = true → ∀ j, j < 4 →
    vm.tableFrame src s ≠ (vm.pool clone).pageDirectory / frameSize + j

/-- The slots below a bound whose tables are copied. -/
def CopiedBelow (vm : Vm) (src limit slot : Nat) : Prop :=
  slot < limit ∧ copiesSlot vm src slot = true

/-- The references taken below a slot: each new table's, then its entries' in order. -/
def cloneRefs (vm : Vm) (src limit : Nat) (table : Nat → Nat) : List Nat :=
  (List.range limit).flatMap fun s =>
    if copiesSlot vm src s then table s :: sharedFrames vm (vm.tableFrame src s) 512 else []

/-- What the loop has done below a slot, with the new table of each copied slot. -/
structure CopiedSlots (before after : Vm) (src clone limit : Nat) (table : Nat → Nat) : Prop where
  free : ∀ s, CopiedBelow before src limit s → RegionFree before.pmem (table s)
  distinct : ∀ s, CopiedBelow before src limit s → ∀ t, CopiedBelow before src limit t →
    table s = table t → s = t
  pmem : after.pmem = before.pmem.refFrames (cloneRefs before src limit table)
  others : ∀ q, q ≠ clone → after.pool q = before.pool q
  directory : (after.pool clone).directory = (before.pool clone).directory
  pdpt : (after.pool clone).pdpt = (before.pool clone).pdpt
  pageDirectory : (after.pool clone).pageDirectory = (before.pool clone).pageDirectory
  newTable : ∀ s, CopiedBelow before src limit s →
    (after.pool clone).tables s = table s * frameSize
  oldTable : ∀ s, ¬CopiedBelow before src limit s →
    (after.pool clone).tables s = (before.pool clone).tables s
  newLink : ∀ s, s < pageTableSlots → CopiedBelow before src limit s →
    after.link clone s = cloneLink (table s)
  oldLink : ∀ s, s < pageTableSlots → ¬CopiedBelow before src limit s →
    after.link clone s = before.link clone s
  newEntry : ∀ s, CopiedBelow before src limit s → ∀ j, j < 512 →
    after.mem (table s) j = clonedEntry (before.mem (before.tableFrame src s) j)
  oldEntry : ∀ s, CopiedBelow before src limit s → ∀ j, j < 512 →
    after.mem (before.tableFrame src s) j = sharedEntry (before.mem (before.tableFrame src s) j)
  kept : ∀ f, (∀ s, CopiedBelow before src limit s → f ≠ table s) →
    (∀ k, k < 4 → f ≠ (before.pool clone).pageDirectory / frameSize + k) →
    (∀ s, CopiedBelow before src limit s → f ≠ before.tableFrame src s) →
    ∀ j, j < 512 → after.mem f j = before.mem f j
  pageDirectoryCount : after.pageDirectoryCount = before.pageDirectoryCount
  kernelPd : after.kernelPd = before.kernelPd

lemma CopiedSlots.start (vm : Vm) (src clone : Nat) (table : Nat → Nat) : CopiedSlots vm vm src clone 0 table := by
  have none : ∀ s, ¬CopiedBelow vm src 0 s := fun s copied => Nat.not_lt_zero s copied.1
  exact ⟨fun s copied => absurd copied (none s), fun s copied => absurd copied (none s), rfl,
    fun _ _ => rfl, rfl, rfl, rfl, fun s copied => absurd copied (none s), fun _ _ => rfl,
    fun s _ copied => absurd copied (none s), fun _ _ _ => rfl,
    fun s copied => absurd copied (none s), fun s copied => absurd copied (none s),
    fun _ _ _ _ _ _ => rfl, rfl, rfl⟩

lemma copiedBelow_succ : CopiedBelow vm src (limit + 1) s ↔
      CopiedBelow vm src limit s ∨ (s = limit ∧ copiesSlot vm src limit) := by
  constructor
  · rintro ⟨below, eligible⟩
    rcases Nat.lt_succ_iff_lt_or_eq.mp below with old | rfl
    · exact .inl ⟨old, eligible⟩
    · exact .inr ⟨rfl, eligible⟩
  · rintro (⟨below, eligible⟩ | ⟨rfl, eligible⟩)
    · exact ⟨by omega, eligible⟩
    · exact ⟨Nat.lt_succ_self _, eligible⟩

lemma CopiedSlots.skip (copied : CopiedSlots before mid src clone limit table)
    (skipped : copiesSlot before src limit = false) : CopiedSlots before mid src clone (limit + 1) table := by
  have same : ∀ s, CopiedBelow before src (limit + 1) s ↔ CopiedBelow before src limit s := by
    intro s
    rw [copiedBelow_succ, skipped]
    simp
  have refs : cloneRefs before src (limit + 1) table = cloneRefs before src limit table := by
    rw [cloneRefs, range_succ, flatMap_append, flatMap_singleton, skipped]
    simp [cloneRefs]
  obtain ⟨⟩ := copied
  constructor <;> simpa only [same, refs]

section Source

variable (ready : CloneReady before src clone) (copied : CopiedSlots before mid src clone limit table)

include copied

lemma CopiedSlots.ne_of_used (used : ¬RegionFree before.pmem f)
    (below : CopiedBelow before src limit s) : f ≠ table s :=
  fun same => used (same ▸ copied.free s below)

include ready

lemma CopiedSlots.used (used : ¬RegionFree before.pmem f) : ¬RegionFree mid.pmem f := by
  intro free
  rw [copied.pmem] at free
  exact used (free.of_refFrames ready.clean).1

lemma CopiedSlots.link_source (fits : limit ≤ pageTableSlots)
    (below : s < pageTableSlots) : mid.link src s = before.link src s := by
  have position := slot_div_lt below
  rw [Vm.link, copied.others src ready.other]
  refine copied.kept _ (fun t earlier => ?_) (fun k inFour => ?_) (fun t earlier => ?_) _
    (Nat.mod_lt _ (by decide))
  · exact copied.ne_of_used (ready.sourceUsed _ position) earlier
  · exact ready.levels _ position k inFour
  · exact (ready.apartSource t (Nat.lt_of_lt_of_le earlier.1 fits) earlier.2 _ position).symm

lemma CopiedSlots.copiesSlot_eq (fits : limit ≤ pageTableSlots)
    (below : s < pageTableSlots) : copiesSlot mid src s = copiesSlot before src s := by
  rw [copiesSlot, copiesSlot, copied.link_source ready fits below, copied.others src ready.other]

lemma CopiedSlots.tableFrame_source (s : Nat) : mid.tableFrame src s = before.tableFrame src s := by
  rw [Vm.tableFrame, Vm.tableFrame, copied.others src ready.other]

/-- An entry of a table to copy is as before, or shared already under an earlier slot. -/
theorem CopiedSlots.entry_source {α : Type} {g : Word → α} (shares : ∀ entry, g (sharedEntry entry) = g entry)
    (below : s < pageTableSlots) (eligible : copiesSlot before src s) {j : Nat} (inTable : j < 512) :
    g (mid.mem (before.tableFrame src s) j) = g (before.mem (before.tableFrame src s) j) := by
  by_cases earlier : ∃ t, CopiedBelow before src limit t ∧ before.tableFrame src t = before.tableFrame src s
  · obtain ⟨t, done, same⟩ := earlier
    rw [← same, copied.oldEntry t done j inTable, shares]
  · congr 1
    refine copied.kept _ (fun t done => ?_) (fun k inFour => ?_) (fun t done same => ?_) j inTable
    · exact copied.ne_of_used (ready.tableUsed s below eligible) done
    · exact ready.apartClone s below eligible k inFour
    · exact earlier ⟨t, done, same.symm⟩

lemma CopiedSlots.sharedFrames_source (below : s < pageTableSlots)
    (eligible : copiesSlot before src s) : sharedFrames mid (before.tableFrame src s) 512 =
      sharedFrames before (before.tableFrame src s) 512 :=
  flatMap_congr fun _ member =>
    copied.entry_source ready sharedFrame_sharedEntry below eligible (mem_range.mp member)

end Source

lemma mem_cloneRefs (below : CopiedBelow vm src limit s) : table s ∈ cloneRefs vm src limit table := by
  refine mem_flatMap.mpr ⟨s, mem_range.mpr below.1, ?_⟩
  rw [if_pos below.2]
  exact mem_cons_self

lemma cloneRefs_succ (table : Nat → Nat)
    (eligible : copiesSlot vm src limit) : cloneRefs vm src (limit + 1) (update table limit new) =
      cloneRefs vm src limit table ++ new :: sharedFrames vm (vm.tableFrame src limit) 512 := by
  unfold cloneRefs
  rw [range_succ, flatMap_append, flatMap_singleton, if_pos eligible, update_self]
  congr 1
  refine flatMap_congr fun s member => ?_
  rw [update_of_ne (Nat.ne_of_lt (mem_range.mp member))]

section Copy

variable (ready : CloneReady before src clone) (copied : CopiedSlots before mid src clone limit table)
  (made : ClonedSlot mid after clone limit (before.tableFrame src limit) new)
include ready copied made

lemma ClonedSlot.fresh : RegionFree before.pmem new ∧ new ∉ cloneRefs before src limit table := by
  have free := made.free
  rw [copied.pmem] at free
  exact free.of_refFrames ready.clean

lemma ClonedSlot.ne_new (held : ¬RegionFree before.pmem f) : f ≠ new :=
  fun same => held (same ▸ (made.fresh ready copied).1)

variable (inSlots : limit < pageTableSlots)
include inSlots

omit ready in
lemma ClonedSlot.frame {j : Nat} (inTable : j < 512)
    (outside : ∀ k < 4, f ≠ (before.pool clone).pageDirectory / frameSize + k) (notFresh : f ≠ new)
    (notOld : f ≠ before.tableFrame src limit) : after.mem f j = mid.mem f j := by
  rw [made.mem f j inTable, copied.pageDirectory, if_neg, if_neg notFresh, if_neg notOld]
  exact fun here => outside _ (slot_div_lt inSlots) here.1

variable (eligible : copiesSlot before src limit)
include eligible

lemma ClonedSlot.link (below : s < pageTableSlots) :
    after.link clone s = if s = limit then cloneLink new else mid.link clone s := by
  have position := slot_div_lt below
  rw [Vm.link, Vm.link, Vm.readWord, Vm.readWord, made.pageDirectory,
    made.mem _ _ (Nat.mod_lt _ (by decide)), copied.pageDirectory,
    if_neg (made.ne_new ready copied (ready.cloneUsed _ position)),
    if_neg (ready.apartClone limit inSlots eligible _ position).symm]
  by_cases same : s = limit
  · simp [same]
  · rw [if_neg same, if_neg]
    omega

-- Sharing is idempotent, so an entry met under an earlier slot gives the same copy.
lemma ClonedSlot.newEntry {j : Nat} (inTable : j < 512) :
    after.mem new j = clonedEntry (before.mem (before.tableFrame src limit) j) := by
  rw [made.mem new j inTable, copied.pageDirectory, if_neg, if_pos rfl]
  · exact copied.entry_source ready clonedEntry_sharedEntry inSlots eligible inTable
  · exact fun here => made.ne_new ready copied (ready.cloneUsed _ (slot_div_lt inSlots)) here.1.symm

lemma ClonedSlot.oldEntry {j : Nat} (inTable : j < 512) : after.mem (before.tableFrame src limit) j =
    sharedEntry (before.mem (before.tableFrame src limit) j) := by
  have used := ready.tableUsed limit inSlots eligible
  rw [made.mem _ j inTable, copied.pageDirectory, if_neg, if_neg (made.ne_new ready copied used), if_pos rfl]
  · exact copied.entry_source ready sharedEntry_sharedEntry inSlots eligible inTable
  · exact fun here => ready.apartClone limit inSlots eligible _ (slot_div_lt inSlots) here.1

lemma CopiedSlots.copy : CopiedSlots before after src clone (limit + 1) (update table limit new) := by
  have old : ∀ s, CopiedBelow before src limit s → update table limit new s = table s :=
    fun s below => update_of_ne (Nat.ne_of_lt below.1) _ _
  have self : update table limit new limit = new := update_self ..
  have used := ready.tableUsed limit inSlots eligible
  have before' : ∀ {s}, CopiedBelow before src limit s → CopiedBelow before src (limit + 1) s :=
    fun earlier => copiedBelow_succ.mpr (.inl earlier)
  have last : CopiedBelow before src (limit + 1) limit := copiedBelow_succ.mpr (.inr ⟨rfl, eligible⟩)
  -- The new frame was free before the loop and is none of the tables made so far.
  obtain ⟨free, fresh⟩ := made.fresh ready copied
  have unlike : ∀ s, CopiedBelow before src limit s → table s ≠ new :=
    fun s below same => fresh (same ▸ mem_cloneRefs below)
  refine ⟨fun s below => ?_, fun s below t below' same => ?_, ?_, fun q other => ?_, ?_, ?_, ?_,
    fun s below => ?_, fun s outside => ?_, fun s inSlot below => ?_, fun s inSlot outside => ?_,
    fun s below j inTable => ?_, fun s below j inTable => ?_, fun f notTable outside notOld j inTable => ?_,
    made.pageDirectoryCount.trans copied.pageDirectoryCount, made.kernelPd.trans copied.kernelPd⟩
  · rcases copiedBelow_succ.mp below with earlier | ⟨rfl, _⟩
    · rw [old s earlier]
      exact copied.free s earlier
    · rwa [self]
  · rcases copiedBelow_succ.mp below with earlier | ⟨rfl, _⟩ <;>
      rcases copiedBelow_succ.mp below' with earlier' | ⟨rfl, _⟩
    · rw [old s earlier, old t earlier'] at same
      exact copied.distinct s earlier t earlier' same
    · rw [old s earlier, self] at same
      exact absurd same (unlike s earlier)
    · rw [old t earlier', self] at same
      exact absurd same.symm (unlike t earlier')
    · rfl
  · rw [made.pmem, copied.sharedFrames_source ready inSlots eligible, copied.pmem,
      cloneRefs_succ table eligible, refFrames_append]
  · rw [made.others q other, copied.others q other]
  · rw [made.directory, copied.directory]
  · rw [made.pdpt, copied.pdpt]
  · rw [made.pageDirectory, copied.pageDirectory]
  · rw [made.tables]
    rcases copiedBelow_succ.mp below with earlier | ⟨rfl, _⟩
    · rw [if_neg (Nat.ne_of_lt earlier.1), old s earlier]
      exact copied.newTable s earlier
    · rw [if_pos rfl, self]
  · rw [made.tables, if_neg]
    · exact copied.oldTable s (outside ∘ before')
    · rintro rfl
      exact outside last
  · rw [made.link ready copied inSlots eligible inSlot]
    rcases copiedBelow_succ.mp below with earlier | ⟨rfl, _⟩
    · rw [if_neg (Nat.ne_of_lt earlier.1), old s earlier]
      exact copied.newLink s inSlot earlier
    · rw [if_pos rfl, self]
  · rw [made.link ready copied inSlots eligible inSlot, if_neg]
    · exact copied.oldLink s inSlot (outside ∘ before')
    · rintro rfl
      exact outside last
  · rcases copiedBelow_succ.mp below with earlier | ⟨rfl, _⟩
    · rw [old s earlier, made.frame copied inSlots inTable, copied.newEntry s earlier j inTable]
      · exact fun k inFour same => ready.cloneUsed k inFour (same ▸ copied.free s earlier)
      · exact unlike s earlier
      · exact (copied.ne_of_used used earlier).symm
    · rw [self]
      exact made.newEntry ready copied inSlots eligible inTable
  · rcases copiedBelow_succ.mp below with earlier | ⟨rfl, _⟩
    · by_cases same : before.tableFrame src s = before.tableFrame src limit
      · rw [same]
        exact made.oldEntry ready copied inSlots eligible inTable
      · have inSlot : s < pageTableSlots := Nat.lt_trans earlier.1 inSlots
        rw [made.frame copied inSlots inTable (ready.apartClone s inSlot earlier.2)
          (made.ne_new ready copied (ready.tableUsed s inSlot earlier.2)) same]
        exact copied.oldEntry s earlier j inTable
    · exact made.oldEntry ready copied inSlots eligible inTable
  · rw [made.frame copied inSlots inTable outside (self ▸ notTable limit last) (notOld limit last)]
    refine copied.kept f (fun s below => ?_) outside (fun s below => ?_) j inTable
    · exact old s below ▸ notTable s (before' below)
    · exact notOld s (before' below)

end Copy

/-- The loop ends past the last slot, or at a slot to copy without a free frame. -/
def CloneEnds (before after : Vm) (src limit : Nat) : Prop :=
  limit = pageTableSlots ∨ (limit < pageTableSlots ∧ copiesSlot before src limit = true ∧
    ∀ frame, ¬RegionFree after.pmem frame)

lemma CopiedSlots.rest (ready : CloneReady before src clone)
    (count : Nat) : ∀ (mid : Vm) (limit : Nat) (table : Nat → Nat), limit + count = pageTableSlots →
    CopiedSlots before mid src clone limit table → ∃ last final, last ≤ pageTableSlots ∧
      CopiedSlots before (cloneSlots mid src clone (range' limit count)) src clone last final ∧
      CloneEnds before (cloneSlots mid src clone (range' limit count)) src last := by
  induction count with
  | zero =>
    intro mid limit table reached copied
    exact ⟨limit, table, by omega, copied, .inl (by omega)⟩
  | succ count ih =>
    intro mid limit table reached copied
    have inSlots : limit < pageTableSlots := by omega
    have fits := Nat.le_of_lt inSlots
    have tests := copied.copiesSlot_eq ready fits inSlots
    have named := copied.tableFrame_source ready limit
    -- The slot's table is the one it had before the loop, aligned and still in use.
    have aligned : copiesSlot mid src limit →
        mid.tableFrame src limit * frameSize = (mid.pool src).tables limit := by
      intro eligible
      rw [named, copied.others src ready.other]
      exact ready.aligned limit inSlots (tests ▸ eligible)
    have used : copiesSlot mid src limit → ¬RegionFree mid.pmem (mid.tableFrame src limit) := by
      intro eligible
      rw [named]
      exact copied.used ready (ready.tableUsed limit inSlots (tests ▸ eligible))
    rw [range'_succ, cloneSlots]
    rcases cloneSlot_cases aligned used with ⟨skipped, ran⟩ | ⟨eligible, full, ran⟩ | ⟨eligible, after, new, made, ran⟩
    · rw [ran]
      exact ih mid (limit + 1) table (by omega) (copied.skip (tests ▸ skipped))
    · rw [ran]
      exact ⟨limit, table, fits, copied, .inr ⟨inSlots, tests ▸ eligible, full⟩⟩
    · rw [ran]
      rw [named] at made
      exact ih after (limit + 1) _ (by omega) (copied.copy ready made inSlots (tests ▸ eligible))

/-- A directory of the pool that can be cloned: its frames and user tables are in use and apart. -/
structure CloneSource (vm : Vm) (src : Nat) : Prop where
  clean : vm.pmem.Clean
  kernel : KernelHeld vm
  known : src < vm.pageDirectoryCount
  directoryUsed : ∀ j, j < 4 → ¬RegionFree vm.pmem ((vm.pool src).pageDirectory / frameSize + j)
  aligned : ∀ s, s < pageTableSlots → copiesSlot vm src s = true →
    vm.tableFrame src s * frameSize = (vm.pool src).tables s
  tableUsed : ∀ s, s < pageTableSlots → copiesSlot vm src s = true →
    ¬RegionFree vm.pmem (vm.tableFrame src s)
  apart : ∀ s, s < pageTableSlots → copiesSlot vm src s = true → ∀ j, j < 4 →
    vm.tableFrame src s ≠ (vm.pool src).pageDirectory / frameSize + j

section Created

variable {top second first : Nat} {entries : Nat → Word} {tables : Nat → Nat} (source : CloneSource vm src)
  (made : Created vm mid clone top second first entries tables)

include made

lemma Created.mem_used (used : ¬RegionFree vm.pmem f) (j : Nat) : mid.mem f j = vm.mem f j :=
  made.mem f j fun listed => used (made.free f listed)

include source

lemma CloneSource.ne_clone : src ≠ clone := by
  have known := source.known
  have index := made.index
  omega

lemma CloneSource.link (below : s < pageTableSlots) : mid.link src s = vm.link src s := by
  rw [Vm.link, made.others src (source.ne_clone made)]
  exact made.mem_used (source.directoryUsed _ (slot_div_lt below)) _

lemma CloneSource.tableFrame (s : Nat) : mid.tableFrame src s = vm.tableFrame src s := by
  rw [Vm.tableFrame, Vm.tableFrame, made.others src (source.ne_clone made)]

lemma CloneSource.copiesSlot_eq (below : s < pageTableSlots) : copiesSlot mid src s = copiesSlot vm src s := by
  rw [copiesSlot, copiesSlot, source.link made below, made.others src (source.ne_clone made)]

lemma CloneSource.used (used : ¬RegionFree vm.pmem f) : ¬RegionFree mid.pmem f := by
  intro free
  rw [made.pmem] at free
  exact used (free.of_refFrames source.clean).1

lemma CloneSource.cloneFrame {k : Nat} (inFour : k < 4) :
    ¬RegionFree mid.pmem (first + k) ∧ RegionFree vm.pmem (first + k) := by
  have listed : first + k ∈ directoryFrames top second first := by
    simp only [directoryFrames, mem_cons, mem_range'_1]
    omega
  refine ⟨fun free => ?_, made.free _ listed⟩
  rw [made.pmem] at free
  exact (free.of_refFrames source.clean).2 listed

lemma CloneSource.ready : CloneReady mid src clone := by
  have other := source.ne_clone made
  have pool := made.others src other
  have own : (mid.pool clone).pageDirectory / frameSize = first := by
    rw [made.pageDirectory, address_div]
  refine ⟨by rw [made.pmem]; exact source.clean.refFrames _, other, fun j inFour => ?_,
    fun k inFour => ?_, fun j inFour k inFour' same => ?_, fun s below eligible => ?_,
    fun s below eligible => ?_, fun s below eligible j inFour => ?_,
    fun s below eligible k inFour same => ?_⟩
  · rw [pool]
    exact source.used made (source.directoryUsed j inFour)
  · rw [own]
    exact (source.cloneFrame made inFour).1
  · rw [pool, own] at same
    exact source.directoryUsed j inFour (same ▸ (source.cloneFrame made inFour').2)
  · rw [source.copiesSlot_eq made below] at eligible
    rw [source.tableFrame made, pool]
    exact source.aligned s below eligible
  · rw [source.copiesSlot_eq made below] at eligible
    rw [source.tableFrame made]
    exact source.used made (source.tableUsed s below eligible)
  · rw [source.copiesSlot_eq made below] at eligible
    rw [source.tableFrame made, pool]
    exact source.apart s below eligible j inFour
  · rw [source.copiesSlot_eq made below] at eligible
    rw [source.tableFrame made, own] at same
    exact source.tableUsed s below eligible (same ▸ (source.cloneFrame made inFour).2)

end Created

lemma pagingCloneDirectory_ok (source : CloneSource vm src)
    (cloned : pagingCloneDirectory vm src = (after, some clone)) : ∃ mid top second first last table,
      Created vm mid clone top second first (kernelEntry vm) (kernelTable vm) ∧
      last ≤ pageTableSlots ∧ CopiedSlots mid after src clone last table ∧ CloneEnds mid after src last := by
  unfold pagingCloneDirectory at cloned
  split at cloned
  · simp at cloned
  rename_i mid pd created
  rw [Prod.mk.injEq, Option.some.injEq] at cloned
  obtain ⟨rfl, rfl⟩ := cloned
  obtain ⟨top, second, first, made⟩ := pagingCreateUserDirectory_ok source.clean source.kernel created
  obtain ⟨last, table, fits, copied, ends⟩ := CopiedSlots.rest (source.ready made) pageTableSlots mid 0 (fun _ => 0)
    (Nat.zero_add _) (CopiedSlots.start mid src pd _)
  rw [← range_eq_range'] at copied ends
  exact ⟨mid, top, second, first, last, table, made, fits, copied, ends⟩

lemma pagingCloneDirectory_none :
    pagingCloneDirectory vm src = (after, none) ↔ pagingCreateUserDirectory vm = (after, none) := by
  unfold pagingCloneDirectory
  split
  · rename_i created
    rw [created]
  · rename_i created
    rw [created]
    simp

end Galio

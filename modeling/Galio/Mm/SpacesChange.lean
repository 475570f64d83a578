import Galio.Mm.Spaces

/-! Changing one entry of a process's table keeps the address spaces sound. -/

namespace Galio

open List

/-- One entry of a process's table is given a value, and slots that named a table twice may forget it. -/
structure EntryChange (kernel : Nat → Prop) (spaces : Spaces) (after : Vm) (pd slot index : Nat)
    (value : Word) : Prop where
  alive : pd ∈ spaces.live
  page : UserPage spaces.vm pd slot index
  others : ∀ q, q ≠ pd → after.pool q = spaces.vm.pool q
  directory : (after.pool pd).directory = (spaces.vm.pool pd).directory
  pdpt : (after.pool pd).pdpt = (spaces.vm.pool pd).pdpt
  pageDirectory : (after.pool pd).pageDirectory = (spaces.vm.pool pd).pageDirectory
  tables : ∀ s, s < pageTableSlots → (after.pool pd).tables s = (spaces.vm.pool pd).tables s ∨
    ((after.pool pd).tables s = 0 ∧ copiesSlot spaces.vm pd s = false)
  mem : ∀ f, f ∈ spaces.structs ∨ kernel f → ∀ j, j < 512 → after.mem f j =
    if f = spaces.vm.tableFrame pd slot ∧ j = index then value else spaces.vm.mem f j
  pageDirectoryCount : after.pageDirectoryCount = spaces.vm.pageDirectoryCount
  kernelPd : after.kernelPd = spaces.vm.kernelPd
  user : isPresent value = true → isUser value = true

variable {f i q s pd : Nat} {kernel : Nat → Prop} {spaces : Spaces} {after : Vm} {slot index : Nat} {value : Word}

lemma UserPage.sharedFrame_eq {vm : Vm} (page : UserPage vm pd s i) :
    sharedFrame (vm.leaf pd s i) = [entryFrame (vm.leaf pd s i)] := by
  rw [sharedFrame, page.present, page.user]
  rfl

section Change

variable (sound : Sound kernel spaces) (change : EntryChange kernel spaces after pd slot index value)

include sound change

lemma EntryChange.kernelMem (own : kernel f) {j : Nat} (inTable : j < 512) : after.mem f j = spaces.vm.mem f j := by
  rw [change.mem f (.inr own) j inTable, if_neg]
  exact fun here => sound.kernel_ne_table change.alive own change.page.inSlots change.page.linked here.1

lemma EntryChange.kept (alive : q ∈ spaces.live) (other : q ≠ pd) : Kept kernel spaces.vm after q := by
  refine kept_of_mem (change.others q other) (fun f struct j inTable => ?_)
    fun f own j inTable => .inl (change.kernelMem sound own inTable)
  rw [change.mem f (.inl (mem_structs alive struct)) j inTable, if_neg]
  rintro ⟨rfl, _⟩
  exact other (sound.struct_owner alive change.alive struct
    (mem_structFrames_table change.page.inSlots change.page.linked))

lemma EntryChange.link (inSlots : s < pageTableSlots) : after.link pd s = spaces.vm.link pd s := by
  have position := slot_div_lt inSlots
  rw [Vm.link, Vm.link, Vm.readWord, Vm.readWord, change.pageDirectory,
    change.mem _ (.inl (mem_structs change.alive (mem_structFrames_directory position))) _
      (Nat.mod_lt _ (by decide)), if_neg]
  exact fun here => tableFrame_ne_directory (sound.structFrames_nodup change.alive)
    change.page.inSlots change.page.linked position here.1.symm

lemma EntryChange.copiesSlot (inSlots : s < pageTableSlots) :
    copiesSlot after pd s = copiesSlot spaces.vm pd s := by
  rcases change.tables s inSlots with same | ⟨gone, unlinked⟩
  · rw [Galio.copiesSlot, Galio.copiesSlot, change.link sound inSlots, same]
  · rw [unlinked, Galio.copiesSlot, gone]
    simp

omit sound in
lemma EntryChange.table (inSlots : s < pageTableSlots)
    (linked : Galio.copiesSlot spaces.vm pd s) : (after.pool pd).tables s = (spaces.vm.pool pd).tables s := by
  rcases change.tables s inSlots with same | ⟨_, unlinked⟩
  · exact same
  · rw [linked] at unlinked
    simp at unlinked

omit sound in
lemma EntryChange.tableFrame (inSlots : s < pageTableSlots)
    (linked : Galio.copiesSlot spaces.vm pd s) : after.tableFrame pd s = spaces.vm.tableFrame pd s := by
  rw [Vm.tableFrame, Vm.tableFrame, change.table inSlots linked]

lemma EntryChange.leaf (inSlots : s < pageTableSlots)
    (linked : Galio.copiesSlot spaces.vm pd s) (inTable : i < 512) :
    after.leaf pd s i = if s = slot ∧ i = index then value else spaces.vm.leaf pd s i := by
  rw [leaf_eq_mem _ _ _ inTable, leaf_eq_mem _ _ _ inTable, change.tableFrame inSlots linked,
    change.mem _ (.inl (mem_structs change.alive (mem_structFrames_table inSlots linked))) i inTable]
  have same : spaces.vm.tableFrame pd s = spaces.vm.tableFrame pd slot ↔ s = slot :=
    ⟨tableFrame_unique (sound.structFrames_nodup change.alive) inSlots linked change.page.inSlots
      change.page.linked, fun equal => by rw [equal]⟩
  simp only [same]

lemma EntryChange.structFrames : structFrames after pd = structFrames spaces.vm pd := by
  have tables : tableFrames after pd = tableFrames spaces.vm pd := by
    refine flatMap_congr fun s member => ?_
    have inSlots := mem_range.mp member
    rw [change.copiesSlot sound inSlots]
    split
    · rename_i linked
      rw [change.tableFrame inSlots linked]
    · rfl
  rw [Galio.structFrames, Galio.structFrames, tables, rootFrames, rootFrames, change.directory,
    change.pdpt, change.pageDirectory]

lemma EntryChange.shape : SpaceShape kernel after pd := by
  have shape := sound.shape pd change.alive
  -- A table that is still named is named where it was.
  have still : ∀ s < pageTableSlots, (after.pool pd).tables s ≠ 0 →
      (after.pool pd).tables s = (spaces.vm.pool pd).tables s := fun s inSlots named =>
    (change.tables s inSlots).resolve_right fun gone => named gone.1
  refine ⟨fun s inSlots present user => ?_, fun s inSlots linked => ?_,
    fun s inSlots linked i inTable present => ?_, fun s inSlots positive named same => ?_,
    fun s inSlots named => ?_⟩
  · rw [change.link sound inSlots] at present user ⊢
    obtain ⟨named, target, small⟩ := shape.linked s inSlots present user
    have linked : Galio.copiesSlot spaces.vm pd s := by
      simp [Galio.copiesSlot, present, user, named]
    rw [change.table inSlots linked]
    exact ⟨named, target, small⟩
  · rw [change.copiesSlot sound inSlots] at linked
    rw [change.tableFrame inSlots linked, change.table inSlots linked]
    exact shape.aligned s inSlots linked
  · rw [change.copiesSlot sound inSlots] at linked
    rw [change.leaf sound inSlots linked inTable] at present ⊢
    split at present
    · rename_i here
      rw [if_pos here]
      exact change.user present
    · rename_i there
      rw [if_neg there]
      exact shape.userEntries s inSlots linked i inTable present
  · have halfSlots : s / 2 < pageTableSlots := by omega
    rw [change.copiesSlot sound halfSlots]
    have half := still (s / 2) halfSlots (same ▸ named)
    have whole := still s inSlots named
    exact shape.lower s inSlots positive (whole ▸ named) (by rw [← half, ← whole, same])
  · have whole := still s inSlots named
    rw [whole] at named ⊢
    rcases shape.named s inSlots named with ⟨t, inSlots', linked, same⟩ | ⟨own, none⟩
    · refine .inl ⟨t, inSlots', by rw [change.copiesSlot sound inSlots']; exact linked, ?_⟩
      rw [change.table inSlots' linked, same]
    · have frame : after.tableFrame pd s = spaces.vm.tableFrame pd s := by
        rw [Vm.tableFrame, Vm.tableFrame, whole]
      refine .inr ⟨by rw [frame]; exact own, fun i inTable => ?_⟩
      rw [leaf_eq_mem _ _ _ inTable, frame, change.kernelMem sound own inTable, ← leaf_eq_mem _ _ _ inTable]
      exact none i inTable

lemma EntryChange.pages : ∃ rest,
    (pageFrames spaces.vm pd).Perm (entryFrame (spaces.vm.leaf pd slot index) :: rest) ∧
      (pageFrames after pd).Perm (sharedFrame value ++ rest) := by
  have page := change.page
  have linked : Galio.copiesSlot after pd slot := by
    rw [change.copiesSlot sound page.inSlots]
    exact page.linked
  -- One entry of the slot's table changes, and one slot of the directory.
  obtain ⟨entries, oldEntries, newEntries⟩ : ∃ rest,
      (sharedFrames spaces.vm (spaces.vm.tableFrame pd slot) 512).Perm
        (sharedFrame (spaces.vm.leaf pd slot index) ++ rest) ∧
      (sharedFrames after (after.tableFrame pd slot) 512).Perm (sharedFrame value ++ rest) := by
    have leaf := fun i (inTable : i < 512) => change.leaf sound page.inSlots page.linked inTable
    obtain ⟨rest, old, new⟩ := Lists.flatMap_change nodup_range (mem_range.mpr page.inTable)
      (fun i => sharedFrame (spaces.vm.mem (spaces.vm.tableFrame pd slot) i))
      (fun i => sharedFrame (after.mem (after.tableFrame pd slot) i)) fun i member other => by
        have inTable := mem_range.mp member
        rw [← leaf_eq_mem _ _ _ inTable, ← leaf_eq_mem _ _ _ inTable, leaf i inTable,
          if_neg (fun here => other here.2)]
    rw [← leaf_eq_mem _ _ _ page.inTable] at old new
    rw [leaf index page.inTable, if_pos ⟨rfl, rfl⟩] at new
    exact ⟨rest, old, new⟩
  obtain ⟨slots, oldSlots, newSlots⟩ : ∃ rest, (pageFrames spaces.vm pd).Perm
        (sharedFrames spaces.vm (spaces.vm.tableFrame pd slot) 512 ++ rest) ∧
      (pageFrames after pd).Perm (sharedFrames after (after.tableFrame pd slot) 512 ++ rest) := by
    obtain ⟨rest, old, new⟩ := Lists.flatMap_change nodup_range (mem_range.mpr page.inSlots)
      (fun s => if Galio.copiesSlot spaces.vm pd s then
        sharedFrames spaces.vm (spaces.vm.tableFrame pd s) 512 else [])
      (fun s => if Galio.copiesSlot after pd s then
        sharedFrames after (after.tableFrame pd s) 512 else []) fun s member other => by
        have inSlots := mem_range.mp member
        rw [change.copiesSlot sound inSlots]
        split
        · rename_i eligible
          refine flatMap_congr fun i inside => ?_
          have inTable := mem_range.mp inside
          rw [← leaf_eq_mem _ _ _ inTable, ← leaf_eq_mem _ _ _ inTable,
            change.leaf sound inSlots eligible inTable, if_neg (fun here => other here.1)]
        · rfl
    rw [if_pos page.linked] at old
    rw [if_pos linked] at new
    exact ⟨rest, old, new⟩
  refine ⟨entries ++ slots, oldSlots.trans ?_, newSlots.trans ?_⟩
  · rw [← cons_append, ← singleton_append, ← page.sharedFrame_eq]
    exact oldEntries.append_right slots
  · rw [← append_assoc]
    exact newEntries.append_right slots

lemma EntryChange.users : ∃ rest, spaces.users.Perm (entryFrame (spaces.vm.leaf pd slot index) :: rest) ∧
      (Spaces.users ⟨after, spaces.live⟩).Perm (sharedFrame value ++ rest) := by
  obtain ⟨own, oldOwn, newOwn⟩ := change.pages sound
  obtain ⟨others, old, new⟩ := Lists.flatMap_change sound.distinct change.alive
    (pageFrames spaces.vm) (pageFrames after) fun q alive other => (change.kept sound alive other).pageFrames
  refine ⟨own ++ others, old.trans ?_, new.trans ?_⟩
  · exact oldOwn.append_right others
  · rw [← append_assoc]
    exact newOwn.append_right others

lemma EntryChange.page_old (page : UserPage after pd s i) (other : ¬(s = slot ∧ i = index)) :
    UserPage spaces.vm pd s i ∧ after.leaf pd s i = spaces.vm.leaf pd s i := by
  have linked := page.linked
  rw [change.copiesSlot sound page.inSlots] at linked
  have leaf := change.leaf sound page.inSlots linked page.inTable
  rw [if_neg other] at leaf
  exact ⟨⟨page.inSlots, page.inTable, linked, leaf ▸ page.present, leaf ▸ page.user⟩, leaf⟩

lemma EntryChange.page_other (alive : q ∈ spaces.live)
    (page : UserPage spaces.vm q s i) (other : ¬(q = pd ∧ s = slot ∧ i = index))
    (single : spaces.users.count (entryFrame (spaces.vm.leaf q s i)) = 1) :
    entryFrame (spaces.vm.leaf q s i) ≠ entryFrame (spaces.vm.leaf pd slot index) := by
  intro same
  have owner : q = pd := Lists.index_of_count_one single alive change.alive page.mem (same ▸ change.page.mem)
  subst owner
  exact other ⟨rfl, page.unique (sound.once q alive) change.page same⟩

end Change

/-- The new value maps nothing, the frame it mapped, or one that nobody holds. -/
structure EntryValue (kernel : Nat → Prop) (spaces : Spaces) (after : Vm) (old : Nat) (value : Word) :
    Prop where
  clean : after.pmem.Clean
  structs : ∀ f ∈ spaces.structs, after.pmem.frameRefcount f ≠ 0
  bits : ∀ f, kernel f → f < maxFrames → after.pmem.frameBitmap f = true
  frame : ∀ f ∈ sharedFrame value, f = old ∨
    (f < maxFrames ∧ f ∉ spaces.users ∧ f ∉ spaces.structs ∧ ¬kernel f)
  counted : ∀ f, (sharedFrame value).count f + spaces.users.count f ≤
    (after.pmem.frameRefcount f).toNat + [old].count f
  bounded : ∀ f, f ∈ spaces.users ∨ f ∈ sharedFrame value →
    (after.pmem.frameRefcount f).toNat ≤ spaces.vm.pageDirectoryCount
  single : isWritable value = true → old ∈ sharedFrame value → spaces.users.count old = 1

section Value

variable (sound : Sound kernel spaces) (change : EntryChange kernel spaces after pd slot index value)
  (fits : EntryValue kernel spaces after (entryFrame (spaces.vm.leaf pd slot index)) value)

include sound change

lemma EntryChange.mem_users (user : f ∈ Spaces.users ⟨after, spaces.live⟩) :
    f ∈ sharedFrame value ∨ f ∈ spaces.users := by
  obtain ⟨rest, old, new⟩ := change.users sound
  rcases mem_append.mp (new.mem_iff.mp user) with own | other
  · exact .inl own
  · exact .inr (old.mem_iff.mpr (mem_cons_of_mem _ other))

include fits

lemma EntryValue.once : (pageFrames after pd).Nodup := by
  obtain ⟨rest, old, new⟩ := change.pages sound
  have distinct := sound.once pd change.alive
  rw [old.nodup_iff, nodup_cons] at distinct
  rw [new.nodup_iff, nodup_append]
  refine ⟨?_, distinct.2, ?_⟩
  · rw [sharedFrame]
    split
    · exact nodup_singleton _
    · exact nodup_nil
  · rintro f own g other rfl
    rcases fits.frame f own with rfl | ⟨_, notUser, _⟩
    · exact distinct.1 other
    · exact notUser (mem_flatMap.mpr ⟨pd, change.alive, old.mem_iff.mpr (mem_cons_of_mem _ other)⟩)

lemma EntryValue.single_after (alive : q ∈ spaces.live) (page : UserPage after q s i)
    (writable : isWritable (after.leaf q s i)) :
    (Spaces.users ⟨after, spaces.live⟩).count (entryFrame (after.leaf q s i)) = 1 := by
  obtain ⟨rest, old, new⟩ := change.users sound
  have before := old.count_eq
  simp only [count_cons] at before
  rw [new.count_eq, count_append]
  by_cases here : q = pd ∧ s = slot ∧ i = index
  · -- The changed page: its frame is the old one, mapped only here, or is new to all.
    obtain ⟨rfl, rfl, rfl⟩ := here
    have leaf := change.leaf sound change.page.inSlots change.page.linked change.page.inTable
    rw [if_pos ⟨rfl, rfl⟩] at leaf
    have shared := page.sharedFrame_eq
    rw [leaf] at writable shared ⊢
    rw [shared, count_singleton_self]
    rcases fits.frame (entryFrame value) (by rw [shared]; exact mem_singleton_self _) with
      same | ⟨_, notUser, _⟩
    · have single := fits.single writable (by rw [shared, same]; exact mem_singleton_self _)
      have counted := before (entryFrame (spaces.vm.leaf q s i))
      rw [single] at counted
      rw [same]
      simp at counted
      rw [counted]
    · rw [count_eq_zero_of_not_mem]
      exact fun other => notUser (old.mem_iff.mpr (mem_cons_of_mem _ other))
  · -- Any other page: its frame was mapped once, by itself.
    have frame : ∃ frame, UserPage spaces.vm q s i ∧ isWritable (spaces.vm.leaf q s i) ∧
        entryFrame (after.leaf q s i) = frame ∧ entryFrame (spaces.vm.leaf q s i) = frame := by
      by_cases own : q = pd
      · subst own
        obtain ⟨oldPage, leaf⟩ := change.page_old sound page fun same => here ⟨rfl, same⟩
        exact ⟨_, oldPage, leaf ▸ writable, rfl, by rw [leaf]⟩
      · have kept := change.kept sound alive own
        have oldPage := kept.page.mp page
        exact ⟨_, oldPage, kept.writable oldPage writable, rfl,
          (kept.entry oldPage.inSlots oldPage.linked oldPage.inTable).2.2.1.symm⟩
    obtain ⟨g, oldPage, oldWritable, new, same⟩ := frame
    have single := sound.single q alive s i oldPage oldWritable
    have other := change.page_other sound alive oldPage here single
    have user := oldPage.mem_users alive
    rw [same] at single other user
    rw [new]
    have counted := before g
    rw [single] at counted
    have apart : g ∉ sharedFrame value := fun own => by
      rcases fits.frame g own with same | ⟨_, notUser, _⟩
      · exact other same
      · exact notUser user
    rw [count_eq_zero_of_not_mem apart]
    simpa [beq_false_of_ne other.symm] using counted.symm

lemma Sound.entry_change : Sound kernel ⟨after, spaces.live⟩ := by
  obtain ⟨rest, old, new⟩ := change.users sound
  have structs : Spaces.structs ⟨after, spaces.live⟩ = spaces.structs := by
    refine flatMap_congr fun q alive => ?_
    by_cases own : q = pd
    · rw [own]
      exact change.structFrames sound
    · exact (change.kept sound alive own).structFrames
  refine ⟨fits.clean, ?_, sound.distinct, fun q alive => ?_, by rw [structs]; exact sound.structs,
    fun f listed => ?_, fun f user => ?_, fun f user => ?_, fun f => ?_, fun f user => ?_,
    fun q alive => ?_, fun q alive s i page writable =>
      fits.single_after sound change alive page writable,
    fun q alive => ?_, fun f own => ?_, fun own isKernel => ?_⟩
  · rw [change.pageDirectoryCount]
    exact sound.pool
  · rw [change.pageDirectoryCount]
    exact sound.known q alive
  · rw [structs] at listed
    exact ⟨(sound.held f listed).1, fits.structs f listed⟩
  · rw [structs]
    rcases change.mem_users sound user with own | other
    · rcases fits.frame f own with rfl | ⟨_, _, notStruct, _⟩
      · exact sound.apart _ (change.page.mem_users change.alive)
      · exact notStruct
    · exact sound.apart f other
  · rcases change.mem_users sound user with own | other
    · rcases fits.frame f own with rfl | ⟨tracked, _⟩
      · exact sound.tracked _ (change.page.mem_users change.alive)
      · exact tracked
    · exact sound.tracked f other
  · have counted := fits.counted f
    have before := old.count_eq f
    rw [← singleton_append, count_append] at before
    show _ ≤ (after.pmem.frameRefcount f).toNat
    rw [new.count_eq, count_append]
    omega
  · rw [change.pageDirectoryCount]
    exact fits.bounded f (change.mem_users sound user).symm
  · by_cases own : q = pd
    · rw [own]
      exact fits.once sound change
    · rw [(change.kept sound alive own).pageFrames]
      exact sound.once q alive
  · by_cases own : q = pd
    · rw [own]
      exact change.shape sound
    · exact (change.kept sound alive own).shape (sound.shape q alive)
  · rw [structs]
    obtain ⟨notUser, notStruct, _⟩ := sound.kernelFrames f own
    refine ⟨fun user => ?_, notStruct, fits.bits f own⟩
    rcases change.mem_users sound user with mapped | other
    · rcases fits.frame f mapped with rfl | ⟨_, _, _, notKernel⟩
      · exact notUser (change.page.mem_users change.alive)
      · exact notKernel own
    · exact notUser other
  · rw [change.kernelPd] at isKernel
    have shape := sound.kernelShape own isKernel
    refine shape.keep (Nat.le_of_eq change.pageDirectoryCount.symm) shape.dead
      (change.others own fun same => shape.dead (same ▸ change.alive)) fun f own j inTable =>
        .inl (change.kernelMem sound own inTable)

end Value

end Galio

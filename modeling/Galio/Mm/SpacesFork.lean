import Galio.Mm.Spaces

/-! Forking a process keeps the address spaces sound. -/

namespace Galio

open List Nat

variable {after : Vm} {f i j pd s : Nat} {kernel : Nat → Prop} {spaces : Spaces}

lemma Sound.abandoned (sound : Sound kernel spaces) {taken : List Nat}
    (left : Abandoned spaces.vm after taken) : Sound kernel ⟨after, spaces.live⟩ := by
  have fresh : ∀ f ∈ taken, f ∉ spaces.users ∧ f ∉ spaces.structs ∧ ¬kernel f :=
    fun f listed => sound.fresh (left.free f listed).tracked (left.free f listed).clear
  have kernelMem : ∀ f, kernel f → ∀ j, after.mem f j = spaces.vm.mem f j :=
    fun f own => left.mem f fun listed => (fresh f listed).2.2 own
  refine sound.of_kept (fun pd alive => ?_) (left.pmem ▸ sound.clean.refFrames _) left.grows ?_
    (sound.counts_of_same fun f holder => ?_) (fun f own tracked => ?_) left.kernelPd (fun pd isKernel => ?_)
    (fun f own j _ => .inl (kernelMem f own j))
  · refine kept_of_mem (left.others pd (Nat.ne_of_lt (sound.known pd alive)))
      (fun f struct j _ => left.mem f (fun listed => ?_) j) fun f own j _ => .inl (kernelMem f own j)
    exact (fresh f listed).2.1 (mem_structs alive struct)
  · exact Nat.le_trans left.bound (Nat.max_le.mpr ⟨sound.pool, Nat.le_refl _⟩)
  · have apart : f ∉ taken := fun listed =>
      holder.elim (fresh f listed).1 (fresh f listed).2.1
    rw [← cell_count, left.pmem, cell_refFrames_of_notMem apart, cell_count]
  · rw [left.pmem, sound.clean.frameBitmap_refFrames, (sound.kernelFrames f own).2.2 tracked, Bool.true_or]
  · exact left.others pd (Nat.ne_of_lt (sound.kernelShape pd isKernel).known)

/-- The new tables of the copied slots. -/
def newTables (vm : Vm) (src limit : Nat) (table : Nat → Nat) : List Nat :=
  (List.range limit).flatMap fun s => if copiesSlot vm src s then [table s] else []

lemma cloneRefs_perm (vm : Vm) (src limit : Nat) (table : Nat → Nat) :
    (cloneRefs vm src limit table).Perm (newTables vm src limit table ++ userFrames vm src limit) := by
  have split : cloneRefs vm src limit table = (range limit).flatMap fun s =>
      (if copiesSlot vm src s then [table s] else []) ++
        (if copiesSlot vm src s then sharedFrames vm (vm.tableFrame src s) 512 else []) := by
    refine flatMap_congr fun s _ => ?_
    split
    · rw [singleton_append]
    · rw [append_nil]
  rw [split]
  exact (flatMap_append_perm ..).symm

lemma userFrames_sublist (vm : Vm) (pd : Nat) {low high : Nat} (below : low ≤ high) :
    (userFrames vm pd low).Sublist (userFrames vm pd high) :=
  (range_sublist.mpr below).flatMap _

variable {mid : Vm} {src clone top second first last : Nat} {table : Nat → Nat}

lemma CopiedSlots.pool_known {vm : Vm}
    {entries : Nat → Word} {tables : Nat → Nat} (copied : CopiedSlots mid after src clone last table)
    (made : Created vm mid clone top second first entries tables) (known : pd < vm.pageDirectoryCount) :
    after.pool pd = vm.pool pd := by
  have other : pd ≠ clone := by
    have index := made.index
    omega
  rw [copied.others pd other, made.others pd other]

/-- A live address space is cloned, up to some slot. -/
structure Forked (kernel : Nat → Prop) (spaces : Spaces) (mid after : Vm) (src clone top second first last : Nat)
    (table : Nat → Nat) : Prop where
  sound : Sound kernel spaces
  alive : src ∈ spaces.live
  made : Created spaces.vm mid clone top second first (kernelEntry spaces.vm) (kernelTable spaces.vm)
  copied : CopiedSlots mid after src clone last table
  fits : last ≤ pageTableSlots

namespace Forked

variable (fork : Forked kernel spaces mid after src clone top second first last table)
include fork

lemma source : ForkSource spaces.vm src := fork.sound.forkSource fork.alive

lemma inSlots (below : s < last) : s < pageTableSlots := lt_of_lt_of_le below fork.fits

lemma copiedBelow_iff : CopiedBelow mid src last s ↔ s < last ∧ copiesSlot spaces.vm src s := by
  refine and_congr_right fun below => ?_
  rw [fork.source.copiesSlot_eq fork.made (fork.inSlots below)]

lemma mem (used : ¬RegionFree spaces.vm.pmem f)
    (notTable : ∀ s < last, copiesSlot spaces.vm src s → f ≠ spaces.vm.tableFrame src s)
    (inTable : j < 512) : after.mem f j = spaces.vm.mem f j := by
  rw [← fork.made.mem_used used]
  refine fork.copied.kept f (fun s below => ?_) (fun k inFour same => ?_) (fun s below => ?_) j inTable
  · exact fork.copied.ne_of_used (fork.source.used fork.made used) below
  · rw [fork.made.pageDirectory, address_div] at same
    exact used (same ▸ (fork.source.cloneFrame fork.made inFour).2)
  · obtain ⟨inside, linked⟩ := fork.copiedBelow_iff.mp below
    rw [fork.source.tableFrame fork.made]
    exact notTable s inside linked

lemma kernelMem (own : kernel f) (inTable : j < 512) : after.mem f j = spaces.vm.mem f j :=
  fork.mem (fork.sound.used (.inr (.inr own)))
    (fun _ below linked => fork.sound.kernel_ne_table fork.alive own (fork.inSlots below) linked)
    inTable

lemma kept_other (alive' : pd ∈ spaces.live) (other : pd ≠ src) : Kept kernel spaces.vm after pd := by
  refine kept_of_mem (fork.copied.pool_known fork.made (fork.sound.known pd alive')) (fun f struct j inTable => ?_)
    fun f own j inTable => .inl (fork.kernelMem own inTable)
  refine fork.mem (fork.sound.used (.inr (.inl (mem_structs alive' struct))))
    (fun s below linked same => other ?_) inTable
  refine fork.sound.struct_owner alive' fork.alive struct ?_
  rw [same]
  exact mem_structFrames_table (fork.inSlots below) linked

lemma leaf (inSlots : s < pageTableSlots) (linked : copiesSlot spaces.vm src s)
    (inTable : i < 512) : after.leaf src s i =
      if s < last then sharedEntry (spaces.vm.leaf src s i) else spaces.vm.leaf src s i := by
  have frame : after.tableFrame src s = spaces.vm.tableFrame src s := by
    rw [Vm.tableFrame, Vm.tableFrame, fork.copied.pool_known fork.made (fork.sound.known src fork.alive)]
  rw [leaf_eq_mem _ _ _ inTable, leaf_eq_mem _ _ _ inTable, frame]
  by_cases below : s < last
  · have here := fork.copiedBelow_iff.mpr ⟨below, linked⟩
    have entry := fork.copied.oldEntry s here i inTable
    rw [fork.source.tableFrame fork.made, fork.source.mem_table fork.made inSlots linked] at entry
    rw [if_pos below, entry]
  · rw [if_neg below]
    refine fork.mem (fork.source.tableUsed s inSlots linked)
      (fun t earlier linked' same => below ?_) inTable
    -- A table is linked at one slot, so it is not one of those copied.
    have told := tableFrame_unique (fork.sound.structFrames_nodup fork.alive) inSlots linked
      (fork.inSlots earlier) linked' same
    omega

lemma kept_source : Kept kernel spaces.vm after src := by
  have pool := fork.copied.pool_known fork.made (fork.sound.known src fork.alive)
  refine ⟨pool, fun s inSlots => ?_, fun s inSlots linked i inTable => ?_, fun s _ own i inTable => ?_⟩
  · have position := slot_div_lt inSlots
    rw [Vm.link, pool]
    refine fork.mem (fork.source.directoryUsed _ position)
      (fun t earlier linked => ?_) (mod_lt _ (by decide))
    exact (tableFrame_ne_directory (fork.sound.structFrames_nodup fork.alive) (fork.inSlots earlier)
      linked position).symm
  · rw [fork.leaf inSlots linked inTable]
    split
    · exact .inr rfl
    · exact .inl rfl
  · left
    rw [leaf_eq_mem _ _ _ inTable, leaf_eq_mem _ _ _ inTable, Vm.tableFrame, pool]
    exact fork.kernelMem own inTable

lemma clone_copiesSlot (inSlots : s < pageTableSlots) :
    copiesSlot after clone s ↔ s < last ∧ copiesSlot spaces.vm src s := by
  rw [← fork.copiedBelow_iff]
  by_cases here : CopiedBelow mid src last s
  · have free := fork.copied.free s here
    simp [copiesSlot, fork.copied.newTable s here, fork.copied.newLink s inSlots here, here, free.address_ne_zero]
  · simp [copiesSlot, fork.copied.oldLink s inSlots here, fork.made.link inSlots, isUser_kernelEntry, here]

lemma clone_free (below : s < last) (linked : copiesSlot spaces.vm src s) :
    RegionFree spaces.vm.pmem (table s) ∧ table s ∉ directoryFrames top second first := by
  have free := fork.copied.free s (fork.copiedBelow_iff.mpr ⟨below, linked⟩)
  rw [fork.made.pmem] at free
  exact free.of_refFrames fork.sound.clean

lemma clone_tableFrame (below : s < last)
    (linked : copiesSlot spaces.vm src s) : after.tableFrame clone s = table s := by
  rw [Vm.tableFrame, fork.copied.newTable s (fork.copiedBelow_iff.mpr ⟨below, linked⟩), address_div]

lemma clone_leaf (below : s < last) (linked : copiesSlot spaces.vm src s)
    (inTable : i < 512) : after.leaf clone s i = clonedEntry (spaces.vm.leaf src s i) := by
  have here := fork.copiedBelow_iff.mpr ⟨below, linked⟩
  rw [leaf_eq_mem _ _ _ inTable, fork.clone_tableFrame below linked,
    fork.copied.newEntry s here i inTable, fork.source.tableFrame fork.made,
    fork.source.mem_table fork.made (fork.inSlots below) linked, leaf_eq_mem _ _ _ inTable]

lemma clone_oldTable (inSlots : s < pageTableSlots) (other : ¬(s < last ∧ copiesSlot spaces.vm src s)) :
    (after.pool clone).tables s = kernelTable spaces.vm s := by
  rw [← fork.copiedBelow_iff] at other
  rw [fork.copied.oldTable s other, fork.made.tables s inSlots]

lemma clone_flatMap {new old : Nat → List Nat}
    (same : ∀ s < last, copiesSlot spaces.vm src s → new s = old s) :
    ((range pageTableSlots).flatMap fun s => if copiesSlot after clone s then new s else []) =
      (range last).flatMap fun s => if copiesSlot spaces.vm src s then old s else [] := by
  rw [flatMap_range_cut fork.fits]
  · refine flatMap_congr fun s member => ?_
    have below := mem_range.mp member
    have linked := fork.clone_copiesSlot (fork.inSlots below)
    by_cases eligible : copiesSlot spaces.vm src s
    · rw [if_pos eligible, if_pos (linked.mpr ⟨below, eligible⟩), same s below eligible]
    · rw [if_neg eligible, if_neg fun cloned => eligible (linked.mp cloned).2]
  · intro s beyond inSlots
    refine if_neg fun linked => ?_
    have below := ((fork.clone_copiesSlot inSlots).mp linked).1
    omega

lemma clone_pageFrames : pageFrames after clone = userFrames spaces.vm src last := by
  unfold pageFrames userFrames
  refine fork.clone_flatMap fun s below eligible => ?_
  refine flatMap_congr fun i inside => ?_
  have inTable := mem_range.mp inside
  rw [← leaf_eq_mem _ _ _ inTable, ← leaf_eq_mem _ _ _ inTable,
    fork.clone_leaf below eligible inTable, sharedFrame_clonedEntry]

lemma clone_tableFrames : tableFrames after clone = newTables spaces.vm src last table :=
  fork.clone_flatMap fun s below eligible => by
    rw [fork.clone_tableFrame below eligible]

lemma clone_shape : SpaceShape kernel after clone := by
  have linkedIff := fun s inSlots => fork.clone_copiesSlot (s := s) inSlots
  -- A slot that was not copied has an entry of the kernel's, which is not for users.
  have userLink : ∀ s < pageTableSlots, isPresent (after.link clone s) →
      isUser (after.link clone s) → s < last ∧ copiesSlot spaces.vm src s := by
    intro s inSlots _ user
    by_contra other
    rw [← fork.copiedBelow_iff] at other
    rw [fork.copied.oldLink s inSlots other, fork.made.link inSlots, isUser_kernelEntry] at user
    simp at user
  refine ⟨fun s inSlots present user => ?_, fun s inSlots linked => ?_,
    fun s inSlots linked i inTable present => ?_, fun s inSlots positive named same => ?_,
    fun s inSlots named => ?_⟩
  · have here := userLink s inSlots present user
    have below := fork.copiedBelow_iff.mpr here
    have free := fork.copied.free s below
    rw [fork.copied.newTable s below, fork.copied.newLink s inSlots below, cloneLink_eq]
    exact ⟨free.address_ne_zero, entryTable_link free.small _, isLarge_link _ _⟩
  · obtain ⟨below, eligible⟩ := (linkedIff s inSlots).mp linked
    rw [fork.clone_tableFrame below eligible,
      fork.copied.newTable s (fork.copiedBelow_iff.mpr ⟨below, eligible⟩)]
  · obtain ⟨below, eligible⟩ := (linkedIff s inSlots).mp linked
    rw [fork.clone_leaf below eligible inTable] at present ⊢
    rw [isPresent_clonedEntry] at present
    have user := (fork.sound.shape src fork.alive).userEntries s inSlots eligible i inTable present
    rw [clonedEntry_user present user, isUser_readOnly, user]
  · by_contra linked
    obtain ⟨below, eligible⟩ := (linkedIff (s / 2) (by omega)).mp (by simpa using linked)
    have half := fork.copiedBelow_iff.mpr ⟨below, eligible⟩
    have free := (fork.clone_free below eligible).1
    rw [fork.copied.newTable _ half] at same
    by_cases here : CopiedBelow mid src last s
    · -- Two copied slots have tables of their own.
      rw [fork.copied.newTable s here] at same
      have told := fork.copied.distinct _ half _ here (eq_of_mul_eq_mul_right (by decide) same)
      omega
    · have other := fork.copiedBelow_iff.not.mp here
      rw [fork.clone_oldTable inSlots other] at named same
      have own := (fork.sound.kernel_table inSlots named).1
      rw [← same, address_div] at own
      exact fork.sound.used (.inr (.inr own)) free
  · by_cases here : s < last ∧ copiesSlot spaces.vm src s
    · exact .inl ⟨s, inSlots, (linkedIff s inSlots).mpr here, rfl⟩
    · have table := fork.clone_oldTable inSlots here
      rw [table] at named
      obtain ⟨own, none⟩ := fork.sound.kernel_table inSlots named
      refine .inr ⟨by rw [Vm.tableFrame, table]; exact own, fun i inTable => ?_⟩
      rw [leaf_eq_mem _ _ _ inTable, Vm.tableFrame, table, fork.kernelMem own inTable]
      exact none i inTable

lemma clone_new : (directoryFrames top second first ++ newTables spaces.vm src last table).Nodup ∧
      ∀ f ∈ directoryFrames top second first ++ newTables spaces.vm src last table, RegionFree spaces.vm.pmem f := by
  have member : ∀ f ∈ newTables spaces.vm src last table,
      ∃ s < last, copiesSlot spaces.vm src s ∧ table s = f := by
    intro f listed
    obtain ⟨s, inside, here⟩ := mem_flatMap.mp listed
    split at here
    · rename_i linked
      exact ⟨s, mem_range.mp inside, linked, (mem_singleton.mp here).symm⟩
    · exact absurd here not_mem_nil
  have below := fun s inside linked => (fork.copiedBelow_iff (s := s)).mpr ⟨inside, linked⟩
  refine ⟨nodup_append.mpr ⟨fork.made.distinct, nodup_flatMap.mpr ⟨fun s _ => ?_, ?_⟩,
    fun f root g new same => ?_⟩, fun f listed => ?_⟩
  · split <;> simp
  · refine nodup_range.pairwise_of_forall_ne fun s first t second other => ?_
    rw [Function.onFun]
    intro f here there
    split at here
    · rename_i linked
      split at there
      · rename_i linked'
        have same := (mem_singleton.mp here).symm.trans (mem_singleton.mp there)
        exact other (fork.copied.distinct s (below s (mem_range.mp first) linked) t
          (below t (mem_range.mp second) linked') same)
      · exact absurd there not_mem_nil
    · exact absurd here not_mem_nil
  · obtain ⟨s, inside, linked, rfl⟩ := member g new
    exact (fork.clone_free inside linked).2 (same ▸ root)
  · rcases mem_append.mp listed with root | new
    · exact fork.made.free f root
    · obtain ⟨s, inside, linked, rfl⟩ := member f new
      exact (fork.clone_free inside linked).1

lemma not_new (holder : f ∈ spaces.users ∨ f ∈ spaces.structs ∨ kernel f) :
    f ∉ directoryFrames top second first ++ newTables spaces.vm src last table :=
  fun listed => fork.sound.used holder (fork.clone_new.2 f listed)

lemma count (tracked : f < maxFrames) :
    after.pmem.frameRefcount f = spaces.vm.pmem.frameRefcount f + UInt8.ofNat
      ((directoryFrames top second first ++ newTables spaces.vm src last table).count f +
        (userFrames spaces.vm src last).count f) := by
  have refs : cloneRefs mid src last table = cloneRefs spaces.vm src last table := by
    refine flatMap_congr fun s member => ?_
    have inSlots := lt_of_lt_of_le (mem_range.mp member) fork.fits
    rw [fork.source.copiesSlot_eq fork.made inSlots]
    split
    · rename_i linked
      rw [fork.source.sharedFrames_eq fork.made inSlots linked]
    · rfl
  rw [fork.copied.pmem, fork.made.pmem, ← refFrames_append, frameRefcount_refFrames tracked, refs,
    count_append, (cloneRefs_perm ..).count_eq, count_append, count_append, add_assoc]

lemma kept (alive' : pd ∈ spaces.live) : Kept kernel spaces.vm after pd := by
  by_cases same : pd = src
  · rw [same]
    exact fork.kept_source
  · exact fork.kept_other alive' same

lemma copied_pages : (userFrames spaces.vm src last).Nodup ∧
    ∀ f ∈ userFrames spaces.vm src last, f ∈ spaces.users := by
  have sub : (userFrames spaces.vm src last).Sublist (pageFrames spaces.vm src) :=
    userFrames_sublist spaces.vm src fork.fits
  exact ⟨(fork.sound.once src fork.alive).sublist sub, fun f listed =>
    mem_flatMap.mpr ⟨src, fork.alive, sub.subset listed⟩⟩

lemma user_count (user : f ∈ spaces.users) : (after.pmem.frameRefcount f).toNat =
      (spaces.vm.pmem.frameRefcount f).toNat + (userFrames spaces.vm src last).count f ∧
    (userFrames spaces.vm src last).count f ≤ 1 := by
  obtain ⟨distinct, _⟩ := fork.copied_pages
  have small := nodup_iff_count_le_one.mp distinct f
  have bound := fork.sound.bounded f user
  have room := fork.made.room
  have index := fork.made.index
  refine ⟨?_, small⟩
  rw [fork.count (fork.sound.tracked f user), count_eq_zero_of_not_mem (fork.not_new (.inl user)),
    UInt8.toNat_add, UInt8.toNat_ofNat']
  simp only [maxPageDirs] at room
  omega

lemma new_count (new : f ∈ directoryFrames top second first ++ newTables spaces.vm src last table) :
    after.pmem.frameRefcount f = 1 := by
  obtain ⟨distinct, free⟩ := fork.clone_new
  obtain ⟨_, pages⟩ := fork.copied_pages
  have region := free f new
  have notPage : f ∉ userFrames spaces.vm src last := fun listed =>
    fork.sound.used (.inl (pages f listed)) region
  have zero : spaces.vm.pmem.frameRefcount f = 0 := fork.sound.clean f region.clear
  rw [fork.count region.tracked, zero, count_eq_one_of_mem distinct new, count_eq_zero_of_not_mem notPage]
  rfl

lemma old_count (struct : f ∈ spaces.structs) :
    after.pmem.frameRefcount f = spaces.vm.pmem.frameRefcount f := by
  obtain ⟨_, pages⟩ := fork.copied_pages
  have notPage : f ∉ userFrames spaces.vm src last := fun listed =>
    fork.sound.apart f (pages f listed) struct
  rw [fork.count (fork.sound.held f struct).1,
    count_eq_zero_of_not_mem (fork.not_new (.inr (.inl struct))), count_eq_zero_of_not_mem notPage]
  simp

/-- A page that may still be written after the fork was not copied. -/
theorem writable (alive' : pd ∈ spaces.live)
    (page : UserPage spaces.vm pd s i) (writable : isWritable (after.leaf pd s i)) :
    (userFrames spaces.vm src last).count (entryFrame (spaces.vm.leaf pd s i)) = 0 := by
  have kept := fork.kept alive'
  have single := fork.sound.single pd alive' s i page (kept.writable page writable)
  refine count_eq_zero_of_not_mem fun listed => ?_
  have sub : (userFrames spaces.vm src last).Sublist (pageFrames spaces.vm src) :=
    userFrames_sublist spaces.vm src fork.fits
  -- The frame is mapped once, so the page is the one of the source that was copied.
  obtain rfl : pd = src := Lists.index_of_count_one single alive' fork.alive page.mem (sub.subset listed)
  obtain ⟨t, inside, here⟩ := mem_flatMap.mp listed
  have below := mem_range.mp inside
  have inSlots := lt_of_lt_of_le below fork.fits
  split at here
  · rename_i linked
    obtain ⟨j, other, same⟩ := (mem_sharedFrames inSlots linked).mp here
    obtain ⟨rfl, rfl⟩ := other.unique (fork.sound.once pd fork.alive) page same
    rw [fork.leaf inSlots linked page.inTable, if_pos below,
      isWritable_sharedEntry page.present page.user] at writable
    simp at writable
  · exact absurd here not_mem_nil

lemma users : Spaces.users ⟨after, clone :: spaces.live⟩ = userFrames spaces.vm src last ++ spaces.users := by
  have old : spaces.live.flatMap (pageFrames after) = spaces.users :=
    flatMap_congr fun pd alive' => (fork.kept alive').pageFrames
  rw [Spaces.users, flatMap_cons, fork.clone_pageFrames, old]

lemma structs : Spaces.structs ⟨after, clone :: spaces.live⟩ =
    (directoryFrames top second first ++ newTables spaces.vm src last table) ++ spaces.structs := by
  have old : spaces.live.flatMap (structFrames after) = spaces.structs :=
    flatMap_congr fun pd alive' => (fork.kept alive').structFrames
  rw [Spaces.structs, flatMap_cons, old, structFrames, fork.clone_tableFrames, rootFrames, fork.copied.directory,
    fork.copied.pdpt, fork.copied.pageDirectory, fork.made.directory, fork.made.pdpt, fork.made.pageDirectory,
    address_div, address_div, address_div]

lemma mem_users (listed : f ∈ Spaces.users ⟨after, clone :: spaces.live⟩) : f ∈ spaces.users := by
  rw [fork.users] at listed
  exact (mem_append.mp listed).elim (fork.copied_pages.2 f) id

/-- A page that may be written after the fork is the only one with its frame. -/
theorem single (alive' : pd ∈ clone :: spaces.live) (page : UserPage after pd s i)
    (writable : isWritable (after.leaf pd s i)) :
    (Spaces.users ⟨after, clone :: spaces.live⟩).count (entryFrame (after.leaf pd s i)) = 1 := by
  rw [fork.users, count_append]
  rcases mem_cons.mp alive' with rfl | old
  · -- The clone's pages are all read-only.
    obtain ⟨below, eligible⟩ := (fork.clone_copiesSlot page.inSlots).mp page.linked
    have present := page.present
    rw [fork.clone_leaf below eligible page.inTable] at present writable
    rw [isPresent_clonedEntry] at present
    rw [clonedEntry_user present ((fork.sound.shape src fork.alive).userEntries s page.inSlots eligible i
      page.inTable present), isWritable_readOnly] at writable
    simp at writable
  · have before := (fork.kept old).page.mp page
    have frame := ((fork.kept old).entry before.inSlots before.linked before.inTable).2.2.1
    have single := fork.sound.single pd old s i before ((fork.kept old).writable before writable)
    rw [frame, fork.writable old before writable]
    omega

/-- A fork keeps the address spaces sound, with the clone among them. -/
theorem sound_after : Sound kernel ⟨after, clone :: spaces.live⟩ := by
  have index := fork.made.index
  have count : after.pageDirectoryCount = spaces.vm.pageDirectoryCount + 1 := by
    rw [fork.copied.pageDirectoryCount, fork.made.pageDirectoryCount, index]
  have room := fork.made.room
  have clean : after.pmem.Clean := by
    rw [fork.copied.pmem, fork.made.pmem]
    exact (fork.sound.clean.refFrames _).refFrames _
  refine ⟨clean, by simp only; omega, nodup_cons.mpr ⟨fun alive' => ?_, fork.sound.distinct⟩,
    fun pd alive' => ?_, ?_, fun f listed => ?_, fun f user => ?_,
    fun f user => fork.sound.tracked f (fork.mem_users user), fun f => ?_, fun f user => ?_, fun pd alive' => ?_,
    fun pd alive' s i page => fork.single alive' page, fun pd alive' => ?_, fun f own => ?_, fun pd isKernel => ?_⟩
  · exact absurd (fork.sound.known clone alive') (by omega)
  · show pd < after.pageDirectoryCount
    rcases mem_cons.mp alive' with rfl | old
    · omega
    · have known := fork.sound.known pd old
      omega
  · rw [fork.structs, nodup_append]
    refine ⟨fork.clone_new.1, fork.sound.structs, fun f new g old same => ?_⟩
    exact fork.not_new (.inr (.inl old)) (same ▸ new)
  · rw [fork.structs] at listed
    rcases mem_append.mp listed with new | old
    · rw [fork.new_count new]
      exact ⟨(fork.clone_new.2 f new).tracked, by decide⟩
    · rw [fork.old_count old]
      exact fork.sound.held f old
  · have old := fork.mem_users user
    rw [fork.structs, mem_append, not_or]
    exact ⟨fork.not_new (.inl old), fork.sound.apart f old⟩
  · by_cases user : f ∈ spaces.users
    · have counted := fork.sound.counted f
      rw [fork.users, count_append, (fork.user_count user).1]
      omega
    · rw [count_eq_zero_of_not_mem fun listed => user (fork.mem_users listed)]
      exact zero_le _
  · obtain ⟨grown, small⟩ := fork.user_count (fork.mem_users user)
    have bound := fork.sound.bounded f (fork.mem_users user)
    show (after.pmem.frameRefcount f).toNat ≤ after.pageDirectoryCount
    omega
  · rcases mem_cons.mp alive' with rfl | old
    · rw [fork.clone_pageFrames]
      exact fork.copied_pages.1
    · rw [(fork.kept old).pageFrames]
      exact fork.sound.once pd old
  · rcases mem_cons.mp alive' with rfl | old
    · exact fork.clone_shape
    · exact (fork.kept old).shape (fork.sound.shape pd old)
  · obtain ⟨notUser, notStruct, bit⟩ := fork.sound.kernelFrames f own
    refine ⟨fun listed => notUser (fork.mem_users listed), ?_, fun tracked => ?_⟩
    · rw [fork.structs, mem_append, not_or]
      exact ⟨fork.not_new (.inr (.inr own)), notStruct⟩
    · rw [fork.copied.pmem, fork.made.pmem, ← refFrames_append, fork.sound.clean.frameBitmap_refFrames,
        bit tracked, Bool.true_or]
  · rw [fork.copied.kernelPd, fork.made.kernelPd] at isKernel
    have shape := fork.sound.kernelShape pd isKernel
    have known := shape.known
    refine shape.keep (by simp only; omega) (fun alive' => ?_) (fork.copied.pool_known fork.made known)
      fun f own j inTable => .inl (fork.kernelMem own inTable)
    rcases mem_cons.mp alive' with rfl | old
    · omega
    · exact shape.dead old

end Forked

end Galio

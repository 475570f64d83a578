import Mathlib.Algebra.BigOperators.Group.List.Lemmas
import Galio.Mm.FrameClaims

/-! What the teardown of a directory releases, counted against what the directory holds. -/

namespace Galio

open Pmem List

/-- The entries the teardown walks. -/
def freedCells (vm : Vm) (pd : Nat) : List (Nat × Nat) :=
  (List.range pageTableSlots).flatMap fun s =>
    if isFreed vm pd s then (List.range 512).map fun i => ((vm.pool pd).tables s, i) else []

/-- The frames of the tables the teardown frees. -/
def freedTables (vm : Vm) (pd : Nat) : List Nat :=
  (List.range pageTableSlots).flatMap fun s =>
    if isFreed vm pd s then frameRange ((vm.pool pd).tables s % 2 ^ 32 / frameSize) 1 else []

variable {vm : Vm} {pd : Nat}

lemma count_flatMap_toList {Index : Type} (indices : List Index) (value : Index → Option Nat) (g : Nat) :
    (indices.flatMap fun i => (value i).toList).count g = indices.countP fun i => value i = some g := by
  induction indices with
  | nil => rfl
  | cons i rest ih =>
    rw [flatMap_cons, count_append, ih, countP_cons, Nat.add_comm]
    cases found : value i with
    | none => simp
    | some x =>
      by_cases same : x = g
      · simp [same]
      · simp [same]

lemma count_leafFrames (vm : Vm) (pt g : Nat) : (leafFrames vm pt).count g =
    (((range 512).map fun i => (pt, i)).countP fun cell => leafFrame (vm.readWord cell.1 cell.2) = some g) := by
  rw [leafFrames, count_flatMap_toList, countP_map]
  rfl

lemma count_teardownFrames (vm : Vm) (pd g : Nat) : (teardownFrames vm pd).count g =
    (freedCells vm pd).countP (fun cell => leafFrame (vm.readWord cell.1 cell.2) = some g) +
      (freedTables vm pd).count g + (levels vm pd).count g := by
  rw [teardownFrames, count_append, count_flatMap, freedCells, freedTables, countP_flatMap,
    count_flatMap, ← sum_map_add]
  generalize range pageTableSlots = slots
  refine congrArg (fun perSlot => sum perSlot + _) (map_congr_left fun s _ => ?_)
  simp only [Function.comp, slotFrames]
  split
  · rw [count_append, count_leafFrames]
  · rfl

lemma freedCells_nodup (vm : Vm) (pd : Nat) : (freedCells vm pd).Nodup := by
  refine nodup_flatMap.mpr ⟨fun s _ => ?_, ?_⟩
  · split
    · exact nodup_range.map fun i j same => congrArg Prod.snd same
    · exact nodup_nil
  · refine pairwise_lt_range.imp fun {s t} order => ?_
    simp only [Function.onFun]
    split
    · split
      · rename_i freed freed'
        -- The higher of two slots with one table is passed over.
        have apart := (isFreed_iff.mp freed').2.2.2 s order
        intro cell left right
        obtain ⟨i, _, rfl⟩ := mem_map.mp left
        obtain ⟨j, _, same⟩ := mem_map.mp right
        exact apart (congrArg Prod.fst same).symm
      · simp
    · simp

variable {cell : Nat × Nat}

lemma mem_freedCells : cell ∈ freedCells vm pd ↔
    ∃ s < pageTableSlots, isFreed vm pd s ∧ cell.1 = (vm.pool pd).tables s ∧ cell.2 < 512 := by
  simp only [freedCells, mem_flatMap, mem_range]
  refine exists_congr fun s => and_congr_right fun _ => ?_
  split
  · rename_i freed
    simp only [mem_map, mem_range, freed, true_and]
    constructor
    · rintro ⟨i, small, rfl⟩
      exact ⟨rfl, small⟩
    · rintro ⟨table, small⟩
      exact ⟨cell.2, small, by rw [← table]⟩
  · rename_i kept
    simp [kept]

variable {g : Nat}

lemma freed_holds (listed : cell ∈ freedCells vm pd)
    (released : leafFrame (vm.readWord cell.1 cell.2) = some g) : cell ∈ vm.holders pd g := by
  obtain ⟨s, below, freed, table, small⟩ := mem_freedCells.mp listed
  obtain ⟨present, frame⟩ := leafFrame_eq_some released
  have named := (isFreed_iff.mp freed).2.2.1
  have entry : vm.pte pd cell = some (vm.readWord cell.1 cell.2) := by
    refine pte_eq_some.mpr ⟨small, s, below, table.symm, shown_eq_some.mpr ⟨named, present, ?_⟩⟩
    rw [Vm.leaf, ← table]
  rw [mem_holders, entry, Option.map_some, frame]

lemma countP_freedCells (vm : Vm) (pd g : Nat) :
    (freedCells vm pd).countP (fun cell => leafFrame (vm.readWord cell.1 cell.2) = some g) =
      ((freedCells vm pd).toFinset.filter fun cell => leafFrame (vm.readWord cell.1 cell.2) = some g).card := by
  rw [countP_eq_length_filter, ← toFinset_card_of_nodup ((freedCells_nodup vm pd).filter _)]
  simp

section Count

variable (space : UserSpace vm pd)

include space

lemma UserSpace.freedTables_count (g : Nat) [Decidable (vm.OwnTable pd g)] :
    (freedTables vm pd).count g ≤ if vm.OwnTable pd g then 1 else 0 := by
  have single : ∀ s < pageTableSlots, isFreed vm pd s →
      frameRange ((vm.pool pd).tables s % 2 ^ 32 / frameSize) 1 = [(vm.pool pd).tables s / frameSize] := by
    intro s below freed
    exact frameRange_address (space.tableTracked s below (isFreed_iff.mp freed).2.2.1)
  have distinct : (freedTables vm pd).Nodup := by
    refine nodup_flatMap.mpr ⟨fun s _ => ?_, ?_⟩
    · split
      · exact nodup_singleton _
      · exact nodup_nil
    · refine (pairwise_lt_range.imp_of_mem fun {s t} left right order => ?_)
      simp only [Function.onFun]
      split
      · split
        · rename_i freed freed'
          have below := mem_range.mp left
          have below' := mem_range.mp right
          rw [single s below freed, single t below' freed', disjoint_singleton, mem_singleton]
          intro same
          apply (isFreed_iff.mp freed').2.2.2 s order
          rw [← space.layout.aligned s below, ← space.layout.aligned t below', same]
        · simp
      · simp
  split
  · exact nodup_iff_count_le_one.mp distinct g
  rename_i foreign
  refine Nat.le_of_eq (count_eq_zero_of_not_mem fun listed => foreign ?_)
  obtain ⟨s, inSlots, here⟩ := mem_flatMap.mp listed
  split at here
  · rename_i freed
    have below := mem_range.mp inSlots
    rw [single s below freed, mem_singleton] at here
    obtain ⟨present, user, named, _⟩ := isFreed_iff.mp freed
    exact ⟨s, below, named, here, .inr ⟨present, user⟩⟩
  · simp at here

lemma UserSpace.teardown_le (g : Nat) : (teardownFrames vm pd).count g ≤ vm.weight pd g := by
  classical
  have tables := space.freedTables_count g
  have entries : (freedCells vm pd).countP (fun cell => leafFrame (vm.readWord cell.1 cell.2) = some g) ≤
      (vm.holders pd g).card := by
    rw [countP_freedCells]
    refine Finset.card_le_card fun cell listed => ?_
    obtain ⟨freed, released⟩ := Finset.mem_filter.mp listed
    exact freed_holds (mem_toFinset.mp freed) released
  rw [count_teardownFrames]
  unfold Vm.weight
  omega

end Count

/-- The teardown releases a claimed page: it frees the table and finds the frame in it. -/
def ClaimServed (vm : Vm) (c : Claim) : Prop :=
  isFreed vm c.pd (getTableSlot c.page) = true ∧
    leafFrame (vm.leaf c.pd (getTableSlot c.page) (getPageTableIndex c.page)) = some c.frame

section Exit

variable {kernel : Nat → Prop} {live segment : Finset Nat} {claims : Finset Claim}
  (shared : FrameClaims kernel vm live segment claims) (alive : pd ∈ live)
  (served : ∀ c ∈ claims, c.pd = pd → ClaimServed vm c)

include shared alive served

lemma FrameClaims.teardown_count {f : Nat} (listed : f ∈ segment) :
    (teardownFrames vm pd).count f = (claims.filter fun c => c.frame = f ∧ c.pd = pd).card := by
  classical
  have ledger := shared.ledger
  have space := shared.spaces pd alive
  obtain ⟨notOwn, notLevel⟩ := (ledger.outside f listed).2 pd alive
  have tables := space.freedTables_count f
  rw [if_neg fun own => notOwn own.structural] at tables
  rw [count_teardownFrames, count_eq_zero_of_not_mem notLevel, Nat.le_zero.mp tables, countP_freedCells]
  -- The entries of freed tables that map the frame are those of the process's claims.
  have cells : ((freedCells vm pd).toFinset.filter fun cell =>
      leafFrame (vm.readWord cell.1 cell.2) = some f) =
      (claims.filter fun c => c.frame = f ∧ c.pd = pd).image fun c => vm.cellOf pd c.page := by
    ext cell
    rw [Finset.mem_filter, mem_toFinset, Finset.mem_image]
    constructor
    · rintro ⟨freed, released⟩
      obtain ⟨c, mem, mine, frame, place⟩ := ledger.mapped f listed pd alive cell (freed_holds freed released)
      exact ⟨c, Finset.mem_filter.mpr ⟨mem, frame, mine⟩, place.symm⟩
    · rintro ⟨c, filtered, rfl⟩
      obtain ⟨mem, frame, mine⟩ := Finset.mem_filter.mp filtered
      obtain ⟨freed, released⟩ := served c mem mine
      have heap := (ledger.claim c mem).2.2
      rw [mine] at freed released
      refine ⟨mem_freedCells.mpr ⟨_, getTableSlot_lt heap.low, freed, rfl, getPageTableIndex_lt c.page⟩, ?_⟩
      rw [← frame]
      exact released
  rw [cells]
  apply Finset.card_image_of_injOn
  intro c left d right same
  obtain ⟨mem, _, mine⟩ := Finset.mem_filter.mp left
  obtain ⟨mem', _, mine'⟩ := Finset.mem_filter.mp right
  have heap := (ledger.claim c mem).2.2
  have heap' := (ledger.claim d mem').2.2
  have named := (isFreed_iff.mp (served c mem mine).1).2.2.1
  rw [mine] at named
  have slots := space.heap_slots heap heap' named (congrArg Prod.fst same)
  exact ledger.unique c mem d mem' (mine.trans mine'.symm) (heap.ext heap' slots (congrArg Prod.snd same))

lemma FrameClaims.teardown :
    FrameClaims kernel { vm with pmem := vm.pmem.derefFrames (teardownFrames vm pd) } (live.erase pd) segment
      (claims.filter fun c => c.pd ≠ pd) := by
  have ledger := shared.ledger
  refine shared.recount (shared.clean.derefFrames _) (Finset.erase_subset pd live)
    ⟨fun g small other => ?_, ledger.tracked, fun f listed => ?_, fun f listed => ?_,
      fun f listed q left cell holds => ?_, fun c filtered => ?_, fun c left d right => ?_⟩
  · have before := ledger.counted g small other
    have most := (shared.spaces pd alive).teardown_le g
    rw [frameRefcount_derefFrames small]
    rw [← Finset.add_sum_erase live _ alive] at before
    omega
  · rw [frameRefcount_derefFrames (ledger.tracked f listed), ledger.exact f listed,
      shared.teardown_count alive served listed]
    -- The claims on a frame are those of the process and those of the others.
    have split : claimed claims f = claimed (claims.filter fun c => c.pd ≠ pd) f +
        (claims.filter fun c => c.frame = f ∧ c.pd = pd).card := by
      have halves := Finset.card_filter_add_card_filter_not (s := claims.filter fun c => c.frame = f)
        fun c => c.pd = pd
      rw [Finset.filter_filter, Finset.filter_filter] at halves
      unfold claimed
      rw [Finset.filter_filter, ← halves, Nat.add_comm]
      congr 2
      ext c
      simp [and_comm]
    omega
  · exact ⟨(ledger.outside f listed).1, fun q left =>
      (ledger.outside f listed).2 q (Finset.mem_of_mem_erase left)⟩
  · obtain ⟨c, mem, theirs, rest⟩ := ledger.mapped f listed q (Finset.mem_of_mem_erase left) cell holds
    refine ⟨c, Finset.mem_filter.mpr ⟨mem, ?_⟩, theirs, rest⟩
    rw [theirs]
    exact Finset.ne_of_mem_erase left
  · obtain ⟨mem, other⟩ := Finset.mem_filter.mp filtered
    obtain ⟨living, rest⟩ := ledger.claim c mem
    exact ⟨Finset.mem_erase.mpr ⟨other, living⟩, rest⟩
  · exact ledger.unique c (Finset.mem_of_mem_filter c left) d (Finset.mem_of_mem_filter d right)

end Exit

end Galio

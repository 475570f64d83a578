import Galio.Mm.ShmemGet
import Galio.Syscall.Mmap

/-! The life of shared-memory segments over whole runs of calls by any processes. -/

namespace Galio

open Function List

open Pmem Transition

/-- What holds of the tables and of memory in every state. -/
structure LifeCycle (state : ShmState) : Prop where
  keys : ∀ i, i < shmMaxSegments → ∀ j, j < shmMaxSegments →
    (state.shmem.segments i).used = true → (state.shmem.segments j).used = true →
    (state.shmem.segments i).removed = false → (state.shmem.segments j).removed = false →
    (state.shmem.segments i).key = (state.shmem.segments j).key → (state.shmem.segments i).key ≠ 0 → i = j
  counted : ∀ id, id < shmMaxSegments → (state.shmem.segments id).used = true →
    (state.shmem.segments id).attachments.toNat = (state.shmem.namers id).card
  recorded : ∀ r, r < shmMaxAttachments → (state.shmem.attachments r).used = true →
    ∃ id, id < shmMaxSegments ∧ state.shmem.Names r id ∧ (state.shmem.segments id).used = true
  -- The frames of a segment are in use while it is, and mapped frames are in use.
  held : ∀ id, id < shmMaxSegments → (state.shmem.segments id).used = true →
    ∀ f ∈ (state.shmem.segments id).frames, state.vm.pmem.frameBitmap f = true
  mapped : ∀ pd ∈ state.live, ∀ f, state.vm.Maps pd f → state.vm.pmem.frameBitmap f = true
  -- A segment that was removed is there for an attachment.
  removed : ∀ id, id < shmMaxSegments → (state.shmem.segments id).used = true →
    (state.shmem.segments id).removed = true → ∃ r, state.shmem.Names r id

/-- What a call does: removed segments go with their last record, mapping and reference. -/
structure SegmentsAccounted (before : ShmState) (op : ShmOp) (after : ShmState) : Prop where
  segments : SegmentsStep before op after
  unnamed : ∀ id, id < shmMaxSegments → (before.shmem.segments id).used = true →
    (after.shmem.segments id).used = false → ∀ r, ¬after.shmem.Names r id
  unmapped : ∀ id, id < shmMaxSegments → (before.shmem.segments id).used = true →
    (after.shmem.segments id).used = false → ∀ f ∈ (before.shmem.segments id).frames,
      ∀ pd ∈ after.live, ¬after.vm.Maps pd f

/-- The references of the processes that end in a call are released by their teardown. -/
def ShmOp.Served (before : ShmState) : ShmOp → Prop
  | .get _ _ _ victims => ∀ i pd, victims i = some pd → pd ∈ before.live → ExitServed before pd
  | .exit pd => pd ∈ before.live → ExitServed before pd
  | _ => True

/-- A start: processes whose frames are counted, and empty tables. -/
structure ShmStart (kernel : Nat → Prop) (state : ShmState) : Prop where
  memory : FrameClaims kernel state.vm state.live ∅ ∅
  pids : ∀ pd ∈ state.live, ∀ q ∈ state.live, (state.procs pd).pid = (state.procs q).pid → pd = q
  segments : ∀ id, (state.shmem.segments id).used = false
  attachments : ∀ r, (state.shmem.attachments r).used = false

variable {f id pd r requested : Nat} {op : ShmOp} {state : ShmState} {vm : Vm} {kernel : Nat → Prop}

lemma ShmStart.invariant (start : ShmStart kernel state) : ShmInvariant kernel state := by
  have nobody : ∀ r id, ¬state.shmem.Names r id := fun r id names =>
    absurd names.2.1 (by rw [start.attachments r]; decide)
  have unused : ∀ id, ¬(state.shmem.segments id).used = true := fun id used =>
    absurd used (by rw [start.segments id]; decide)
  refine ⟨fun _ => 0, ∅, ∅, ⟨start.memory, ⟨?_, ?_, ?_, ?_, ?_, Finset.notMem_empty 0⟩, ⟨?_, ?_⟩,
    ⟨?_, ?_, ?_, start.pids, ?_⟩⟩, fun id _ used => absurd used (unused id),
    fun id _ used => absurd used (unused id)⟩
  · exact fun i _ _ _ used => absurd used (unused i)
  · exact fun id _ used => absurd used (unused id)
  · exact fun f => ⟨fun listed => absurd listed (Finset.notMem_empty f),
      fun ⟨id, _, used, _⟩ => absurd used (unused id)⟩
  · exact fun i _ _ _ used => absurd used (unused i)
  · exact fun id _ used => absurd used (unused id)
  · exact fun r _ used => absurd used (by rw [start.attachments r]; decide)
  · exact fun id _ used => absurd used (unused id)
  · exact fun r id names => absurd names (nobody r id)
  · exact fun r id names => absurd names (nobody r id)
  · exact fun r id _ _ names => absurd names (nobody r id)
  · exact fun c => ⟨fun listed => absurd listed (Finset.notMem_empty c),
      fun ⟨_, r, id, names, _⟩ => absurd names (nobody r id)⟩

section Invariant

variable (invariant : ShmInvariant kernel state)

include invariant

lemma ShmInvariant.lifeCycle : LifeCycle state := by
  obtain ⟨filled, frames, claims, ledger, full, settled⟩ := invariant
  refine ⟨ledger.segments.keys, ledger.records.counted, fun r inTable used => ?_, fun id below used f listed => ?_,
    fun pd alive f maps => ledger.memory.used alive (.inr maps), fun id below used removed => ?_⟩
  · obtain ⟨id, below, names, used', _⟩ := ledger.records.named r inTable used
    exact ⟨id, below, names, used'⟩
  · obtain ⟨k, inRange, rfl⟩ := mem_map.mp listed
    exact ledger.memory.listed_used (ledger.frame_mem below used (full id below used) (mem_range.mp inRange))
  · have some := settled id below used removed
    have counted := ledger.records.counted id below used
    obtain ⟨r, mem⟩ : (state.shmem.namers id).Nonempty := by
      rw [← Finset.card_pos, ← counted]
      exact Nat.pos_of_ne_zero fun zero => some (UInt16.toNat_inj.mp zero)
    exact ⟨r, mem_namers.mp mem⟩

/-- A step of the segments leaves no record and no mapping of what it releases. -/
theorem ShmInvariant.accounted {before : ShmState} (step : SegmentsStep before op state) :
    SegmentsAccounted before op state := by
  obtain ⟨filled, frames, claims, ledger, full, _⟩ := invariant
  refine ⟨step, fun id _ _ gone r names => ?_, fun id below used gone f listed pd alive maps => ?_⟩
  · exact absurd (ledger.records.names names).2.1 (by rw [gone]; decide)
  · rcases step id below used with same | ⟨_, _, freed⟩
    · exact absurd (same.used.trans used) (by rw [gone]; decide)
    · rcases freed f listed with clear | ⟨new, below', _, used', unnamed, listed'⟩
      · exact absurd (ledger.memory.used alive (.inr maps)) (by rw [clear]; decide)
      · -- The frame serves a segment that nobody has attached.
        obtain ⟨k, inRange, rfl⟩ := mem_map.mp listed'
        have inside := mem_range.mp inRange
        have mem := ledger.frame_mem below' used' (full new below' used') inside
        have unclaimed := ledger.pages.unclaimed ledger.segments ledger.records below' used'
          (by rw [full new below' used']; exact inside) unnamed
        have weightless := ledger.memory.weight_zero mem unclaimed alive
        exact absurd (weight_of_maps maps) (by omega)

lemma ShmInvariant.exec (served : op.Served state) :
    ShmInvariant kernel (op.exec state) ∧ SegmentsStep state op (op.exec state) := by
  cases op with
  | get key size flags victims => exact invariant.get key size flags served
  | attach pd shmid requested =>
    by_cases alive : pd ∈ state.live
    · simp only [ShmOp.exec, alive]
      exact invariant.attach alive shmid requested
    · simp only [ShmOp.exec, alive]
      exact ⟨invariant, SegmentsStep.refl _ _⟩
  | detach pd address =>
    by_cases alive : pd ∈ state.live
    · simp only [ShmOp.exec, alive]
      exact invariant.detach alive address
    · simp only [ShmOp.exec, alive]
      exact ⟨invariant, SegmentsStep.refl _ _⟩
  | exit pd =>
    by_cases alive : pd ∈ state.live
    · simp only [ShmOp.exec, alive]
      exact invariant.exit alive (served alive)
    · simp only [ShmOp.exec, alive]
      exact ⟨invariant, SegmentsStep.refl _ _⟩
  | remove shmid => exact invariant.remove shmid

end Invariant

/--
In every run of shared-memory calls the segments live as long as they are needed.

The run starts with empty tables. Whenever a process ends, each page of its attachments is mapped, in a
table that the teardown of the process frees.
-/
theorem shm_life_cycle {kernel : Nat → Prop} {state : ShmState} (start : ShmStart kernel state)
    {ops : List ShmOp}
    (served : Along (fun before op _ => op.Served before) state (record ShmOp.exec state ops)) :
    Visits LifeCycle state (record ShmOp.exec state ops) ∧
      Along SegmentsAccounted state (record ShmOp.exec state ops) := by
  have taken : Along (fun before op after => after = ShmOp.exec before op) state
      (record ShmOp.exec state ops) := along_record state fun _ _ _ => rfl
  have steps := along_and taken served
  have kept : ∀ before op after, ShmInvariant kernel before → (after = ShmOp.exec before op ∧ op.Served before) →
        ShmInvariant kernel after ∧ SegmentsAccounted before op after := by
    rintro before op after invariant ⟨rfl, served⟩
    obtain ⟨next, step⟩ := invariant.exec served
    exact ⟨next, next.accounted step⟩
  have visits := visits_of_invariant (ShmInvariant kernel) (fun before op after invariant step =>
    (kept before op after invariant step).1) start.invariant steps
  exact ⟨visits_mono (fun _ => ShmInvariant.lifeCycle) visits,
    along_of_invariant (ShmInvariant kernel) kept start.invariant steps⟩

lemma Created.frameClaims {after : Vm} {top second first : Nat} (kernel : LargeKernel vm)
    (made : Created vm after pd top second first (kernelEntry vm) (kernelTable vm)) :
    FrameClaims (fun _ => False) after {pd} ∅ ∅ := by
  have space := made.userSpace kernel
  have none : ∀ s < pageTableSlots, (after.pool pd).tables s = 0 := fun s => made.no_tables kernel
  have notOwn : ∀ f, ¬after.OwnTable pd f := fun f ⟨s, below, named, _⟩ => named (none s below)
  have nothing : ∀ f, after.holders pd f = ∅ := fun f => by
    rw [← Finset.not_nonempty_iff_eq_empty, ← maps_iff_holders]
    rintro ⟨s, below, i, _, entry, shows, _⟩
    exact (shown_eq_some.mp shows).1 (none s below)
  refine ⟨space.layout.clean, fun q alive => ?_, fun p alive q alive' other => ?_, fun q alive f own => ?_,
    fun f tracked _ => ?_, ?_, ?_, ?_, ?_, ?_, ?_⟩
  · rw [Finset.mem_singleton.mp alive]
    exact space
  · rw [Finset.mem_singleton.mp alive, Finset.mem_singleton.mp alive'] at other
    exact absurd rfl other
  · rw [Finset.mem_singleton.mp alive] at own ⊢
    rcases own with ⟨j, inFour, rfl⟩ | ⟨s, below, named, _⟩
    · rw [made.levels_eq, made.pageDirectory, address_div]
      exact .inl (by simp [directoryFrames, inFour])
    · exact absurd (none s below) named
  · rw [Finset.sum_singleton, Vm.weight, nothing, if_neg (notOwn f), made.levels_eq, if_neg not_false]
    by_cases listed : f ∈ directoryFrames top second first
    · -- A level's frame was free and is referenced once.
      have free := made.free f listed
      rw [made.pmem, frameRefcount_refFrames tracked,
        count_eq_one_of_mem made.distinct listed, kernel.clean.count_zero free.clear]
      decide
    · rw [count_eq_zero_of_not_mem listed]
      exact Nat.zero_le _
  all_goals simp

/-- A process that was just created. -/
def shmProcess : ShmProcess := ⟨1, 0x40000000, 0, fun _ => ⟨0, 0, 0, 0, 0, 0, 0⟩⟩

/-- The first process after boot, with empty tables. -/
def shmBoot (vm : Vm) : ShmState := ⟨vm, noShmem, {1}, fun _ => shmProcess⟩

lemma shmBoot_start (created : pagingCreateUserDirectory bootVm = (vm, some 1)) :
    ShmStart (fun _ => False) (shmBoot vm) := by
  obtain ⟨top, second, first, made⟩ := bootVm_made created
  refine ⟨made.frameClaims bootVm_largeKernel, fun p alive q alive' _ => ?_, fun _ => rfl, fun _ => rfl⟩
  exact (Finset.mem_singleton.mp alive).trans (Finset.mem_singleton.mp alive').symm

/-- The calls that make a segment of one page and attach it. -/
def firstAttach : List ShmOp := [.get 1 4096 shmCreat fun _ => none, .attach 1 (0 : Nat) 0x40000000]

/-- The calls that attach the segment again in the next page and detach it there. -/
def secondAttach : List ShmOp := [.attach 1 (0 : Nat) 0x40001000, .detach 1 0x40001000]

lemma exitServed_of_records (served : ∀ r < shmMaxAttachments, (state.shmem.attachments r).used = true →
      (state.shmem.attachments r).pid = (state.procs pd).pid →
      ∀ k, k < (state.shmem.segments (state.shmem.attachments r).shmid.toNat).pages →
        ClaimServed state.vm ((state.shmem.segments (state.shmem.attachments r).shmid.toNat).claim pd
          (state.shmem.attachments r).address k)) : ExitServed state pd := by
  rintro r id ⟨inTable, used, shmid⟩ owner
  have listed := served r inTable used owner
  rwa [shmid] at listed

/-- A segment attached twice and detached once is released when it was removed and its process ends. -/
theorem shm_segment_released : ∃ vm, pagingCreateUserDirectory bootVm = (vm, some 1) ∧
    Visits LifeCycle (shmBoot vm)
        (record ShmOp.exec (shmBoot vm) (firstAttach ++ secondAttach ++ [.remove (0 : Nat), .exit 1])) ∧
      Along SegmentsAccounted (shmBoot vm)
        (record ShmOp.exec (shmBoot vm) (firstAttach ++ secondAttach ++ [.remove (0 : Nat), .exit 1])) := by
  refine ⟨bootUser, bootVm_creates, shm_life_cycle (shmBoot_start bootVm_creates) ?_⟩
  refine along_record_join (along_record_join ⟨fun _ _ victim => absurd victim (by simp), trivial, trivial⟩
    ⟨trivial, trivial, trivial⟩) ⟨trivial, fun _ => ?_, trivial⟩
  -- The second attachment left the table of the first page where the teardown finds it.
  apply exitServed_of_records
  unfold ClaimServed
  decide +kernel

/-- A removed segment is cleared when its last process ends, and its frame stays in use. -/
theorem shm_frame_kept : ∃ vm, pagingCreateUserDirectory bootVm = (vm, some 1) ∧
    ShmStart (fun _ => False) (shmBoot vm) ∧
    ¬(Visits LifeCycle (shmBoot vm)
        (record ShmOp.exec (shmBoot vm) (firstAttach ++ [.remove (0 : Nat), .exit 1])) ∧
      Along SegmentsAccounted (shmBoot vm)
        (record ShmOp.exec (shmBoot vm) (firstAttach ++ [.remove (0 : Nat), .exit 1]))) := by
  refine ⟨bootUser, bootVm_creates, shmBoot_start bootVm_creates, fun ⟨_, along⟩ => ?_⟩
  obtain ⟨_, step, _⟩ := along_record_append along
  obtain ⟨inUse, mem, cleared, kept⟩ :
      let before := ShmOp.exec (firstAttach.foldl ShmOp.exec (shmBoot bootUser)) (.remove (0 : Nat))
      let after := ShmOp.exec before (.exit 1)
      (before.shmem.segments 0).used ∧ 5638 ∈ (before.shmem.segments 0).frames ∧
        (∀ j < shmMaxSegments, (after.shmem.segments j).used = false) ∧ after.vm.pmem.frameBitmap 5638 := by
    decide +kernel
  rcases step.segments 0 (by decide) inUse with same | ⟨_, _, freed⟩
  · exact absurd (same.used.trans inUse) (by rw [cleared 0 (by decide)]; decide)
  · -- The teardown passed the frame's table over, so the frame is in use still.
    rcases freed 5638 mem with clear | ⟨new, below, _, used, _⟩
    · exact absurd (clear.symm.trans kept) (by decide)
    · exact absurd used (by rw [cleared new below]; decide)

end Galio

import Galio.Mm.ShmemCalls

/-! `shmem_get`, which fills a segment frame by frame while processes may be killed for memory. -/

namespace Galio

open Function List

open Pmem

/-- The loop of `shmem_get` with some frames of the new segment, seen from the call's start. -/
structure Filling (kernel : Nat → Prop) (start state : ShmState) (id pages i : Nat) : Prop where
  ledger : ∃ filled frames claims,
    ShmLedger kernel filled state.vm state.shmem state.live state.procs frames claims ∧ filled id = i ∧
      ∀ j, j ≠ id → j < shmMaxSegments → (state.shmem.segments j).used = true →
        filled j = (state.shmem.segments j).pages
  settled : Settled state.shmem
  below : id < shmMaxSegments
  new : (start.shmem.segments id).used = false
  used : (state.shmem.segments id).used = true
  kept : (state.shmem.segments id).removed = false
  pages : (state.shmem.segments id).pages = pages
  unnamed : ∀ r, ¬state.shmem.Names r id
  -- Frames that were freed on the way may serve the new segment.
  others : ∀ j, j < shmMaxSegments → (start.shmem.segments j).used = true →
    (SameSegment (start.shmem.segments j) (state.shmem.segments j) ∧
      (state.shmem.segments j).removed = (start.shmem.segments j).removed) ∨
    ((start.shmem.segments j).removed = true ∧ (state.shmem.segments j).used = false ∧
      ∀ f ∈ (start.shmem.segments j).frames, f ≠ 0 ∧ (state.vm.pmem.frameBitmap f = false ∨
        ∃ k, k < i ∧ f = (state.shmem.segments id).frame k))
  unused : ∀ j, j ≠ id → (start.shmem.segments j).used = false → (state.shmem.segments j).used = false
  names : ∀ r j, state.shmem.Names r j → start.shmem.Names r j ∧
    state.shmem.attachments r = start.shmem.attachments r
  vm : state.vm = { start.vm with pmem := state.vm.pmem }
  live : state.live ⊆ start.live
  procs : state.procs = start.procs

variable {kernel : Nat → Prop} {start : ShmState} {id pages : Nat} {segment : ShmemSegment}

section Filling

variable {state : ShmState} {i : Nat} (filling : Filling kernel start state id pages i) {pd : Nat} {pmem : Pmem}

include filling

lemma Filling.ne {j : Nat} (held : (start.shmem.segments j).used) : j ≠ id := by
  rintro rfl
  exact absurd held (by rw [filling.new]; decide)

lemma Filling.served (served : ExitServed start pd) : ExitServed state pd := by
  intro r j names owner k inside
  obtain ⟨filled, frames, claims, ledger, _⟩ := filling.ledger
  obtain ⟨below, used, _⟩ := ledger.records.names names
  obtain ⟨names', record⟩ := filling.names r j names
  have other : j ≠ id := by
    rintro rfl
    exact filling.unnamed r names
  rw [record] at owner ⊢
  rw [filling.procs] at owner
  -- A segment with a record was there at the start, and is as it was.
  have old : (start.shmem.segments j).used := by
    by_contra absent
    exact absurd used (by rw [filling.unused j other (Bool.eq_false_iff.mpr absent)]; decide)
  rcases filling.others j below old with ⟨same, _⟩ | ⟨_, gone, _⟩
  · rw [same.pages] at inside
    have goal := served r j names' owner k inside
    rw [filling.vm, ShmemSegment.claim, same.frame]
    exact goal
  · exact absurd used (by rw [gone]; decide)

lemma Filling.exit (alive : pd ∈ state.live) (served : ExitServed start pd) :
    Filling kernel start (processExit state pd) id pages i := by
  obtain ⟨filled, frames, claims, ledger, here, full⟩ := filling.ledger
  obtain ⟨frames', claims', after, settled, survives, free⟩ :=
    ledger.exit filling.settled alive (filling.served served)
  -- The new segment is not one that was removed, so it is as before.
  have own : SameSegment (state.shmem.segments id) ((processExit state pd).shmem.segments id) ∧
      ((processExit state pd).shmem.segments id).removed = (state.shmem.segments id).removed := by
    rcases survives.segments id filling.below filling.used with same | ⟨removed, _⟩
    · exact same
    · exact absurd removed (by rw [filling.kept]; decide)
  have rest : (processExit state pd).vm = { state.vm with pmem := (processExit state pd).vm.pmem } ∧
      (processExit state pd).live ⊆ state.live ∧ (processExit state pd).procs = state.procs := by
    rw [processExit_eq]
    generalize shmemDetachProcess state.vm.pmem state.shmem (state.procs pd).pid = result
    generalize teardownFrames state.vm pd = released
    exact ⟨rfl, Finset.erase_subset _ _, rfl⟩
  generalize processExit state pd = next at after settled survives free own rest ⊢
  obtain ⟨same, removed⟩ := own
  refine ⟨⟨filled, frames', claims', after, here, fun j other inTable held => ?_⟩, settled, filling.below,
    filling.new, same.used.trans filling.used, removed.trans filling.kept, same.pages.trans filling.pages,
    fun r names => filling.unnamed r (survives.names r id names).1, fun j inTable held => ?_,
    fun j other absent => survives.unused j (filling.unused j other absent), fun r j names => ?_, ?_,
    rest.2.1.trans filling.live, rest.2.2.trans filling.procs⟩
  · obtain ⟨old, kept, _⟩ := survives.left inTable held
    rw [kept.pages]
    exact full j other inTable old
  · rcases filling.others j inTable held with ⟨first, mark⟩ | ⟨gone, absent, freed⟩
    · rcases survives.segments j inTable (first.used.trans held) with ⟨second, mark'⟩ | ⟨gone, absent, freed⟩
      · exact .inl ⟨first.trans second, mark'.trans mark⟩
      · refine .inr ⟨mark.symm.trans gone, absent, fun f listed => ⟨?_, .inl (freed f ?_)⟩⟩
        · rintro rfl
          -- The frames of segments are tracked, and the first one is never theirs.
          rw [← first.frames] at listed
          obtain ⟨k, inRange, zero⟩ := mem_map.mp listed
          refine ledger.segments.nonzero ((ledger.segments.listed 0).mpr
            ⟨j, inTable, first.used.trans held, k, ?_, zero.symm⟩)
          rw [full j (filling.ne held) inTable (first.used.trans held)]
          exact mem_range.mp inRange
        · rwa [first.frames]
    · refine .inr ⟨gone, survives.unused j absent, fun f listed => ⟨(freed f listed).1, ?_⟩⟩
      rcases (freed f listed).2 with clear | ⟨k, inside, frame⟩
      · exact .inl (free f clear)
      · exact .inr ⟨k, inside, by rw [same.frame]; exact frame⟩
  · obtain ⟨names', record⟩ := survives.names r j names
    obtain ⟨names'', record'⟩ := filling.names r j names'
    exact ⟨names'', record.trans record'⟩
  · rw [rest.1, filling.vm]

lemma Filling.oomCheck {victim : Option Nat}
    (served : ∀ pd, victim = some pd → pd ∈ start.live → ExitServed start pd) :
    Filling kernel start (oomCheck state victim) id pages i := by
  unfold Galio.oomCheck
  split
  · unfold oomExit
    split
    · exact filling
    rename_i pd
    split
    · rename_i alive
      exact filling.exit alive (served pd rfl (filling.live alive))
    · exact filling
  · exact filling

lemma Filling.attachments : (state.shmem.segments id).attachments = 0 := by
  obtain ⟨filled, frames, claims, ledger, _⟩ := filling.ledger
  have counted := ledger.records.counted id filling.below filling.used
  rw [namers_eq_empty filling.unnamed] at counted
  exact UInt16.toNat_inj.mp counted

lemma Filling.take {f : Nat} (tracked : f < maxFrames)
    (clear : state.vm.pmem.frameBitmap f = false) (positive : f ≠ 0)
    (cells : ∀ g, pmem.cell g = if g = f then (state.vm.pmem.cell g).ref else state.vm.pmem.cell g) :
    Filling kernel start (ShmState.setSegment { state with vm := { state.vm with pmem := pmem } } id
        { state.shmem.segments id with
          phys := update (state.shmem.segments id).phys i (f * frameSize) }) id pages (i + 1) := by
  obtain ⟨filled, frames, claims, ledger, here, full⟩ := filling.ledger
  have fresh := (ledger.memory.free tracked clear).1
  have past : ∀ k < i, update (state.shmem.segments id).phys i (f * frameSize) k =
      (state.shmem.segments id).phys k := fun k inside => update_of_ne (by omega) _ _
  have written : SegmentTable filled (state.shmem.setSegment id { state.shmem.segments id with
        phys := update (state.shmem.segments id).phys i (f * frameSize) }) frames :=
    ledger.segments.setPast rfl ⟨rfl, fun gone => gone, by rw [here]; exact past,
      ledger.segments.small id filling.below filling.used⟩
  have extended := written.extend filling.below (by rw [setSegment_self]; exact filling.used)
    (by rw [setSegment_self, here]; exact update_self _ _ _) fresh positive
  have free : ∀ g ≠ f, state.vm.pmem.frameBitmap g = false → pmem.frameBitmap g = false :=
    fun g other unset => by rw [← cell_used, cells, if_neg other, cell_used, unset]
  refine ⟨⟨_, _, claims, ⟨ledger.memory.take tracked clear cells, extended,
    ledger.records.setUnnamed filling.unnamed (fun j other => update_of_ne other _ _)
      (fun _ => filling.attachments), ledger.pages.setUnnamed filling.unnamed _⟩,
    by rw [update_self, here], fun j other inTable held => ?_⟩, filling.settled.setSegment filling.kept,
    filling.below, filling.new, ?_, ?_, ?_, filling.unnamed, fun j inTable held => ?_, fun j other absent => ?_,
    filling.names, ?_, filling.live, filling.procs⟩
  · simp only [ShmState.setSegment, setSegment_other _ _ other] at held ⊢
    rw [update_of_ne other]
    exact full j other inTable held
  · simp only [ShmState.setSegment, setSegment_self, filling.used]
  · simp only [ShmState.setSegment, setSegment_self, filling.kept]
  · simp only [ShmState.setSegment, setSegment_self, filling.pages]
  · simp only [ShmState.setSegment, setSegment_other _ _ (filling.ne held), setSegment_self]
    refine (filling.others j inTable held).imp_right fun ⟨gone, absent, freed⟩ =>
      ⟨gone, absent, fun g listed => ⟨(freed g listed).1, ?_⟩⟩
    rcases (freed g listed).2 with unset | ⟨k, inside, frame⟩
    · by_cases same : g = f
      · refine .inr ⟨i, Nat.lt_succ_self i, ?_⟩
        show g = update (state.shmem.segments id).phys i (f * frameSize) i / frameSize
        rw [same, update_self, address_div]
      · exact .inl (free g same unset)
    · refine .inr ⟨k, Nat.lt_succ_of_lt inside, ?_⟩
      show g = update (state.shmem.segments id).phys i (f * frameSize) k / frameSize
      rw [frame, past k inside]
      rfl
  · simp only [ShmState.setSegment, setSegment_other _ _ other]
    exact filling.unused j other absent
  · simp only [ShmState.setSegment]
    rw [filling.vm]

lemma Filling.done (op : ShmOp) (all : i = pages) : ShmInvariant kernel state ∧ SegmentsStep start op state := by
  obtain ⟨filled, frames, claims, ledger, here, full⟩ := filling.ledger
  refine ⟨⟨filled, frames, claims, ledger, fun j inTable held => ?_, filling.settled⟩, fun j inTable held => ?_⟩
  · by_cases same : j = id
    · subst same
      rw [here, all, filling.pages]
    · exact full j same inTable held
  · rcases filling.others j inTable held with ⟨same, _⟩ | ⟨gone, absent, freed⟩
    · exact .inl same
    · refine .inr ⟨.inl gone, absent, fun f listed => ?_⟩
      rcases (freed f listed).2 with clear | ⟨k, inside, frame⟩
      · exact .inl clear
      · refine .inr ⟨id, filling.below, filling.new, filling.used, filling.unnamed, ?_⟩
        exact mem_map.mpr ⟨k, mem_range.mpr (by rw [filling.pages, ← all]; exact inside), frame.symm⟩

/-- A segment that gets no frame is cut to those it has, and released. -/
theorem Filling.fail (op : ShmOp) (inside : i < pages)
    (memory : ∀ frames claims, FrameClaims kernel state.vm state.live frames claims →
      FrameClaims kernel { state.vm with pmem := pmem } state.live frames claims)
    (free : ∀ f ≠ 0, state.vm.pmem.frameBitmap f = false → pmem.frameBitmap f = false)
    (used : segment.used = (state.shmem.segments id).used) (key : segment.key = (state.shmem.segments id).key)
    (removed : segment.removed = (state.shmem.segments id).removed)
    (phys : ∀ k < i, segment.phys k = (state.shmem.segments id).phys k) (cut : segment.pages = i)
    (zero : segment.attachments = 0) :
    ShmInvariant kernel
        ((ShmState.setSegment { state with vm := { state.vm with pmem := pmem } } id segment).release id) ∧
      SegmentsStep start op
        ((ShmState.setSegment { state with vm := { state.vm with pmem := pmem } } id segment).release id) := by
  obtain ⟨filled, frames, claims, ledger, here, full⟩ := filling.ledger
  have fits : i ≤ shmMaxPages := by
    have most := ledger.segments.small id filling.below filling.used
    rw [filling.pages] at most
    omega
  have short : ShmLedger kernel filled { state.vm with pmem := pmem } (state.shmem.setSegment id segment)
      state.live state.procs frames claims :=
    ⟨memory frames claims ledger.memory,
      ledger.segments.setPast used
        ⟨key, fun gone => removed.trans gone, by rw [here]; exact phys, by rw [cut]; exact fits⟩,
      ledger.records.setUnnamed filling.unnamed (fun _ _ => rfl) (fun _ => zero),
      ledger.pages.setUnnamed filling.unnamed _⟩
  have held : ((state.shmem.setSegment id segment).segments id).used := by
    rw [setSegment_self, used]
    exact filling.used
  have whole : filled id = ((state.shmem.setSegment id segment).segments id).pages := by
    rw [setSegment_self, here, cut]
  obtain ⟨after, freed⟩ := short.release filling.below held whole filling.unnamed
  have outcome := releaseSegment_eq filling.below held (by rw [setSegment_self]; exact zero)
    (fun k small => short.memory.ledger.tracked _ (short.frame_mem filling.below held whole small)) pmem
  rw [setSegment_self] at after freed outcome
  have twice : (state.shmem.setSegment id segment).setSegment id .cleared =
      state.shmem.setSegment id .cleared := by
    simp [Shmem.setSegment]
  rw [twice] at after outcome
  unfold ShmState.release
  simp only [ShmState.setSegment, outcome]
  refine ⟨⟨filled, _, claims, after, fun j inTable left => ?_, fun j inTable left => ?_⟩, fun j inTable old => ?_⟩
  · have other := used_ne_of_cleared left
    rw [setSegment_other _ _ other] at left ⊢
    exact full j other inTable left
  · have other := used_ne_of_cleared left
    rw [setSegment_other _ _ other] at left ⊢
    exact filling.settled j inTable left
  · simp only [setSegment_other _ _ (filling.ne old)]
    rcases filling.others j inTable old with ⟨same, _⟩ | ⟨gone, absent, unset⟩
    · exact .inl same
    · refine .inr ⟨.inl gone, absent, fun f listed => .inl ?_⟩
      rcases (unset f listed).2 with clear | ⟨k, small, frame⟩
      · exact frameBitmap_derefFrames (free f (unset f listed).1 clear) _
      · -- The frames the segment had are free again.
        refine freed f (mem_map.mpr ⟨k, mem_range.mpr (by rw [cut]; exact small), ?_⟩)
        rw [frame, ShmemSegment.frame, ShmemSegment.frame, phys k small]

end Filling

section Get

variable {victims : Nat → Option Nat}

/-- The loop of `shmem_get` ends with a whole segment, or with none. -/
theorem Filling.alloc (op : ShmOp) (served : ∀ i pd, victims i = some pd → pd ∈ start.live → ExitServed start pd)
    (count : Nat) : ∀ {state : ShmState} {i : Nat}, Filling kernel start state id pages i → i + count = pages →
      ShmInvariant kernel (allocSegment victims state id (range' i count)).1 ∧
        SegmentsStep start op (allocSegment victims state id (range' i count)).1 := by
  induction count with
  | zero => exact fun filling all => filling.done op all
  | succ count ih =>
    intro state i filling all
    rw [range'_succ]
    simp only [allocSegment]
    have checked := filling.oomCheck fun pd => served i pd
    generalize Galio.oomCheck state (victims i) = state at checked ⊢
    rcases pmemTake_one state.vm.pmem with failed | ⟨f, cursor, tracked, clear, taken⟩
    · rw [failed]
      exact checked.fail op (by omega) (fun _ _ memory => memory) (fun _ _ unset => unset) rfl rfl rfl
        (fun k small => update_of_ne (by omega) _ _) rfl rfl
    · have cells := (Granted.of_cursor tracked clear cursor).cells
      rw [taken]
      by_cases zero : f = 0
      · -- The first frame is taken for a failure, and lost.
        rw [if_pos (by rw [zero, Nat.zero_mul])]
        refine checked.fail op (by omega) (fun _ _ memory => memory.lose tracked clear cells)
          (fun g other unset => ?_) rfl rfl rfl (fun k small => update_of_ne (by omega) _ _) rfl rfl
        rw [← cell_used, cells, if_neg (by rwa [zero]), cell_used, unset]
      · rw [if_neg (Nat.mul_ne_zero zero (by decide))]
        exact ih (checked.take tracked clear zero cells) (by omega)

lemma ShmInvariant.open (invariant : ShmInvariant kernel start) (below : id < shmMaxSegments)
    (unused : (start.shmem.segments id).used = false) (used : segment.used)
    (kept : segment.removed = false) (zero : segment.attachments = 0) (fits : segment.pages ≤ shmMaxPages)
    (alone : segment.key ≠ 0 → ∀ j < shmMaxSegments, (start.shmem.segments j).used →
      (start.shmem.segments j).removed = false → (start.shmem.segments j).key ≠ segment.key) :
    Filling kernel start (start.setSegment id segment) id segment.pages 0 := by
  obtain ⟨filled, frames, claims, ledger, full, settled⟩ := invariant
  have unnamed : ∀ r, ¬start.shmem.Names r id := fun r names =>
    absurd (ledger.records.names names).2.1 (by rw [unused]; decide)
  have other : ∀ {j}, (start.shmem.segments j).used → j ≠ id := by
    rintro j held rfl
    exact absurd held (by rw [unused]; decide)
  refine ⟨⟨_, frames, claims, ⟨ledger.memory, ledger.segments.create unused alone fits,
    ledger.records.setUnnamed unnamed (fun j apart => update_of_ne apart _ _) (fun _ => zero),
    ledger.pages.setUnnamed unnamed _⟩, update_self _ _ _, fun j apart inTable held => ?_⟩,
    settled.setSegment kept, below, unused, ?_, ?_, ?_, unnamed, fun j _ held => ?_,
    fun j apart absent => ?_, fun r j names => ⟨names, rfl⟩, rfl, Finset.Subset.refl _, rfl⟩
  · simp only [ShmState.setSegment, setSegment_other _ _ apart] at held ⊢
    rw [update_of_ne apart]
    exact full j inTable held
  · simp only [ShmState.setSegment, setSegment_self, used]
  · simp only [ShmState.setSegment, setSegment_self, kept]
  · simp only [ShmState.setSegment, setSegment_self]
  · simp only [ShmState.setSegment, setSegment_other _ _ (other held)]
    exact .inl ⟨SameSegment.refl _, trivial⟩
  · simp only [ShmState.setSegment, setSegment_other _ _ apart]
    exact absent

lemma shmemGet_cases (victims : Nat → Option Nat) (state : ShmState) (key size flags : UInt32) :
    (shmemGet victims state key size flags).1 = state ∨
      ∃ id < shmMaxSegments, (state.shmem.segments id).used = false ∧ shmPages size ≤ shmMaxPages ∧
        (key ≠ 0 → findKey state.shmem key = none) ∧
        (shmemGet victims state key size flags).1 = (allocSegment victims (state.setSegment id
            { ShmemSegment.cleared with used := true, key := key, size := size, pages := shmPages size }) id
            (range (shmPages size))).1 := by
  unfold shmemGet
  split
  · exact .inl rfl
  split
  · exact .inl rfl
  split
  · exact .inl rfl
  rename_i missing
  split
  · exact .inl rfl
  unfold createSegment
  split
  · exact .inl rfl
  rename_i id found
  refine .inr ⟨id, mem_range.mp (mem_of_find?_eq_some found), ?_, by omega, fun nonzero => ?_,
    rfl⟩
  · simpa using find?_some found
  · rwa [if_pos nonzero] at missing

lemma ShmInvariant.get (invariant : ShmInvariant kernel start) (key size flags : UInt32)
    (served : ∀ i pd, victims i = some pd → pd ∈ start.live → ExitServed start pd) :
    ShmInvariant kernel (shmemGet victims start key size flags).1 ∧
      SegmentsStep start (.get key size flags victims) (shmemGet victims start key size flags).1 := by
  rcases shmemGet_cases victims start key size flags with same | ⟨id, below, unused, fits, missing, outcome⟩
  · rw [same]
    exact ⟨invariant, SegmentsStep.refl _ _⟩
  · have opened : Filling kernel start (start.setSegment id
        { ShmemSegment.cleared with used := true, key := key, size := size, pages := shmPages size }) id
        (shmPages size) 0 :=
      invariant.open below unused rfl rfl rfl fits fun nonzero j inTable held kept =>
        by simpa [held, kept] using find?_eq_none.mp (missing nonzero) j (mem_range.mpr inTable)
    rw [outcome, range_eq_range']
    exact opened.alloc _ served _ (Nat.zero_add _)

end Get

end Galio

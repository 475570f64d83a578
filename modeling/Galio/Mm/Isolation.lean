import Galio.Mm.CopyOnWriteLaws

/-! Copy-on-write isolation: forks, writes, unmappings and exits over any number of processes. -/

namespace Galio

open Transition List

/-- The processes and the addresses an operation is about. -/
def CowOp.Allowed (kernel : Nat → Prop) (spaces : Spaces) : CowOp → Prop
  | .fork pd => pd ∈ spaces.live
  -- A write to a present user page; memory may run out and another process be killed for it.
  | .write pd vaddr _ victim => pd ∈ spaces.live ∧ vaddr < 2 ^ 32 ∧
    UserPage spaces.vm pd (getTableSlot vaddr) (getPageTableIndex vaddr) ∧
    ∀ chosen, victim = some chosen → chosen.Other kernel spaces pd
  -- Only user pages are unmapped and freed.
  | .unmap pd vaddr => pd ∈ spaces.live ∧ vaddr < 2 ^ 32 ∧
    ∀ pte, getPageEntry spaces.vm pd vaddr = some pte → isPresent pte = true → isUser pte = true
  | .free pd _ => pd ∈ spaces.live

/-- One operation of one process. -/
structure CowStep (kernel : Nat → Prop) (shmem : Shmem) (before : Spaces) (op : CowOp) (after : Spaces) :
    Prop where
  allowed : op.Allowed kernel before
  exec : after = op.exec shmem before

/-- A single process whose user frames are mapped once and referenced once. -/
structure CowStart (kernel : Nat → Prop) (spaces : Spaces) (pd : Nat) : Prop where
  live : spaces.live = [pd]
  clean : spaces.vm.pmem.Clean
  pool : spaces.vm.pageDirectoryCount ≤ maxPageDirs
  known : pd < spaces.vm.pageDirectoryCount
  structs : (structFrames spaces.vm pd).Nodup
  held : ∀ f ∈ structFrames spaces.vm pd, f < maxFrames ∧ spaces.vm.pmem.frameRefcount f ≠ 0
  once : (pageFrames spaces.vm pd).Nodup
  pages : ∀ f ∈ pageFrames spaces.vm pd,
    f < maxFrames ∧ f ∉ structFrames spaces.vm pd ∧ spaces.vm.pmem.frameRefcount f = 1
  shape : SpaceShape kernel spaces.vm pd
  kernelFrames : ∀ f, kernel f → f ∉ pageFrames spaces.vm pd ∧ f ∉ structFrames spaces.vm pd ∧
    (f < maxFrames → spaces.vm.pmem.frameBitmap f = true)
  kernelShape : ∀ own, spaces.vm.kernelPd = some own → KernelShape kernel spaces own

/-- A page that may be written is mapped nowhere else, and every mapping is counted. -/
structure Isolated (spaces : Spaces) : Prop where
  writable : ∀ pd ∈ spaces.live, ∀ s i, UserPage spaces.vm pd s i →
    isWritable (spaces.vm.leaf pd s i) = true → ∀ q ∈ spaces.live, ∀ t j, UserPage spaces.vm q t j →
      entryFrame (spaces.vm.leaf q t j) = entryFrame (spaces.vm.leaf pd s i) → q = pd ∧ t = s ∧ j = i
  counted : ∀ f, spaces.users.count f ≤ (spaces.vm.pmem.frameRefcount f).toNat

/-- A write leaves what every other living process reads as it was. -/
def WritesApart (before : Spaces) (op : CowOp) (after : Spaces) : Prop :=
  match op with
  | .write pd _ _ _ => ∀ q ∈ after.live, q ≠ pd → SameReads before.vm after.vm q
  | _ => True

variable {kernel : Nat → Prop} {spaces : Spaces} {pd : Nat}

lemma CowStart.sound (begins : CowStart kernel spaces pd) : Sound kernel spaces := by
  have users : spaces.users = pageFrames spaces.vm pd := by
    rw [Spaces.users, begins.live, flatMap_cons, flatMap_nil, append_nil]
  have structs : spaces.structs = structFrames spaces.vm pd := by
    rw [Spaces.structs, begins.live, flatMap_cons, flatMap_nil, append_nil]
  have only : ∀ q ∈ spaces.live, q = pd := fun q alive => by
    rw [begins.live] at alive
    exact mem_singleton.mp alive
  refine ⟨begins.clean, begins.pool, by rw [begins.live]; exact nodup_singleton pd,
    fun q alive => by rw [only q alive]; exact begins.known, by rw [structs]; exact begins.structs,
    by rw [structs]; exact begins.held, ?_, ?_, fun f => ?_, fun f user => ?_, fun q alive => ?_,
    fun q alive s i page _ => ?_, fun q alive => by rw [only q alive]; exact begins.shape, ?_,
    begins.kernelShape⟩
  · rw [users, structs]
    exact fun f user => (begins.pages f user).2.1
  · rw [users]
    exact fun f user => (begins.pages f user).1
  · rw [users]
    by_cases user : f ∈ pageFrames spaces.vm pd
    · rw [(begins.pages f user).2.2]
      exact nodup_iff_count_le_one.mp begins.once f
    · rw [count_eq_zero_of_not_mem user]
      exact Nat.zero_le _
  · rw [users] at user
    rw [(begins.pages f user).2.2]
    exact Nat.lt_of_le_of_lt (Nat.zero_le pd) begins.known
  · rw [only q alive]
    exact begins.once
  · have user := page.mem
    rw [only q alive] at user ⊢
    rw [users]
    exact count_eq_one_of_mem begins.once user
  · rw [users, structs]
    exact begins.kernelFrames

section Step

variable (sound : Sound kernel spaces)

include sound

lemma Sound.fork_exec (shmem : Shmem) (alive : pd ∈ spaces.live) :
    Sound kernel (CowOp.exec shmem spaces (.fork pd)) := by
  cases cloned : pagingCloneDirectory spaces.vm pd with
  | mk after clone =>
    have state : CowOp.exec shmem spaces (.fork pd) = ⟨after, clone.toList ++ spaces.live⟩ := by
      simp only [CowOp.exec, cloned]
    rw [state]
    cases clone with
    | none =>
      -- The levels of a directory that could not be completed stay allocated and unused.
      have failed := pagingCreateUserDirectory_none.mp (pagingCloneDirectory_none.mp cloned)
      obtain ⟨taken, left⟩ := pagingCreateDirectory_abandons sound.clean failed
      exact sound.abandoned left
    | some clone =>
      obtain ⟨mid, top, second, first, last, table, made, fits, copied, _⟩ :=
        pagingCloneDirectory_ok (sound.forkSource alive).toCloneSource cloned
      exact Forked.sound_after ⟨sound, alive, made, copied, fits⟩

lemma Sound.cow_step {shmem : Shmem} (detached : ∀ pid, Detached shmem pid) {op : CowOp} {after : Spaces}
    (step : CowStep kernel shmem spaces op after) : Sound kernel after ∧ WritesApart spaces op after := by
  obtain ⟨allowed, rfl⟩ := step
  cases op with
  | fork pd => exact ⟨sound.fork_exec shmem allowed, trivial⟩
  | write pd vaddr value victim =>
    obtain ⟨alive, low, page, others⟩ := allowed
    have served := sound.userWrite_served detached alive low page value others
    exact ⟨served.sound, served.reads⟩
  | unmap pd vaddr =>
    obtain ⟨alive, low, users⟩ := allowed
    exact ⟨sound.unmapFree alive low users, trivial⟩
  | free pd pid => exact ⟨(sound.reclaim_space (detached pid) allowed).sound, trivial⟩

lemma Sound.isolated : Isolated spaces := by
  refine ⟨fun pd alive s i page writable q alive' t j other same => ?_, sound.counted⟩
  have single := sound.single pd alive s i page writable
  -- The frame is mapped once over all processes, so both pages are the same page.
  have owner : q = pd := Lists.index_of_count_one single alive' alive (same ▸ other.mem) page.mem
  subst owner
  exact ⟨rfl, other.unique (sound.once q alive) page same⟩

end Step

/--
Copy-on-write isolation over whole runs.

The frame counts hold eight bits and the pool has 64 directories, so no count ever wraps.
-/
theorem copy_on_write_isolates {kernel : Nat → Prop} {shmem : Shmem}
    (detached : ∀ pid, Detached shmem pid) {start : Spaces} {pd : Nat}
    (begins : CowStart kernel start pd) {run : List (CowOp × Spaces)}
    (follows : Along (CowStep kernel shmem) start run) :
    Visits Isolated start run ∧ Along WritesApart start run := by
  have preserved : ∀ before op after, Sound kernel before → CowStep kernel shmem before op after →
      Sound kernel after ∧ WritesApart before op after :=
    fun before op after sound step => sound.cow_step detached step
  constructor
  · apply visits_mono (fun spaces (sound : Sound kernel spaces) => sound.isolated)
    exact visits_of_invariant (Sound kernel) (fun before op after sound step =>
      (preserved before op after sound step).1) begins.sound follows
  · exact along_of_invariant (Sound kernel) preserved begins.sound follows

lemma onePageVm_start : CowStart (fun _ => False) ⟨onePageVm 8, [1]⟩ 1 := by
  have structs : structFrames (onePageVm 8) 1 = [256, 257, 258, 259, 260, 261, 262] := by decide +kernel
  have pages : pageFrames (onePageVm 8) 1 = [263] := by decide +kernel
  have named : ∀ s, ((onePageVm 8).pool 1).tables s ≠ 0 → s = 2 := fun s some => by
    by_contra other
    exact some (by simp [onePageVm, other])
  refine ⟨rfl, (onePageVm_forkSource (by decide)).clean, by decide, by decide, ?_, ?_, ?_, ?_,
    ⟨by decide +kernel, fun s _ copied => ?_, fun s _ copied => ?_, fun s _ _ some same => ?_,
      fun s _ some => .inl ⟨2, by decide, onePageVm_copiesSlot.mpr rfl, ?_⟩⟩,
    fun _ none => none.elim, fun _ none => by cases none⟩
  · rw [structs]
    decide
  · rw [structs]
    decide +kernel
  · rw [pages]
    decide
  · rw [pages, structs]
    decide +kernel
  · rw [onePageVm_copiesSlot.mp copied]
    decide
  · rw [onePageVm_copiesSlot.mp copied]
    decide +kernel
  · rw [named s some] at same
    exact absurd same (by decide)
  · rw [named s some]

/-- A process forks and then writes the page it shares with its child. -/
theorem copy_on_write_isolates_onePage : (pagingCloneDirectory (onePageVm 8) 1).2 ≠ none ∧
    Visits Isolated ⟨onePageVm 8, [1]⟩ (record (CowOp.exec noShmem) ⟨onePageVm 8, [1]⟩
        [.fork 1, .write 1 0x400000 5 none]) ∧
      Along WritesApart ⟨onePageVm 8, [1]⟩ (record (CowOp.exec noShmem) ⟨onePageVm 8, [1]⟩
        [.fork 1, .write 1 0x400000 5 none]) := by
  have begins := onePageVm_start
  have alive : 1 ∈ ([1] : List Nat) := mem_singleton_self 1
  have enough : (pagingCreateUserDirectory (onePageVm 8)).2 ≠ none := by decide +kernel
  cases cloned : pagingCloneDirectory (onePageVm 8) 1 with
  | mk forked answer =>
    cases answer with
    | none => exact absurd (congrArg Prod.snd (pagingCloneDirectory_none.mp cloned)) enough
    | some child =>
      obtain ⟨_, _, _, _, _, _, made, fits, copied, _⟩ :=
        pagingCloneDirectory_ok (begins.sound.forkSource alive).toCloneSource cloned
      have kept := Forked.kept_source ⟨begins.sound, alive, made, copied, fits⟩
      refine ⟨by simp, copy_on_write_isolates noShmem_detached begins
        ⟨⟨alive, rfl⟩, ⟨?_, rfl⟩, trivial⟩⟩
      -- The fork keeps the pages of its source, so the page can still be written.
      simp only [CowOp.exec, cloned]
      exact ⟨by simp, by decide, kept.page.mpr (onePageVm_page.mpr ⟨by decide, by decide⟩), by simp⟩

end Galio

import Mathlib.Logic.Function.Basic
import Mathlib.Data.List.Basic

/-! Programs over a block device with a write-through cache, and a weakest precondition that forgets the cache. -/

namespace BlockDevice

open Function List Option

variable {Block Memory Result Other : Type}

/-- A program over numbered blocks with some memory of its own; `patch` changes a block past the cache. -/
inductive Program (Block Memory Result : Type) where
  | done (result : Result)
  | read (number : Nat) (next : Block → Program Block Memory Result)
  | write (number : Nat) (block : Block) (next : Program Block Memory Result)
  | patch (number : Nat) (change : Block → Block) (next : Program Block Memory Result)
  | get (next : Memory → Program Block Memory Result)
  | set (memory : Memory) (next : Program Block Memory Result)

/-- One program after another. -/
def Program.bind (next : Result → Program Block Memory Other) :
    Program Block Memory Result → Program Block Memory Other
  | .done result => next result
  | .read number rest => .read number fun block => (rest block).bind next
  | .write number block rest => .write number block (rest.bind next)
  | .patch number change rest => .patch number change (rest.bind next)
  | .get rest => .get fun memory => (rest memory).bind next
  | .set memory rest => .set memory (rest.bind next)

instance : Monad (Program Block Memory) where
  pure := .done
  bind program next := program.bind next

/-- One block, read. -/
def readBlock (number : Nat) : Program Block Memory Block := .read number .done

/-- One block, written. -/
def writeBlock (number : Nat) (block : Block) : Program Block Memory Unit := .write number block (.done ())

/-- One block, changed on the device itself. -/
def patchBlock (number : Nat) (change : Block → Block) : Program Block Memory Unit := .patch number change (.done ())

/-- The memory of the program. -/
def getMemory : Program Block Memory Memory := .get .done

/-- The memory of the program, replaced. -/
def setMemory (memory : Memory) : Program Block Memory Unit := .set memory (.done ())

/-- The blocks on the device and the memory of the program. -/
structure Volume (Block Memory : Type) where
  /-- The blocks, by numbers. -/
  disk : Nat → Block
  /-- What the program remembers between calls. -/
  memory : Memory

/-- A volume with one block replaced. -/
def Volume.put (volume : Volume Block Memory) (number : Nat) (block : Block) : Volume Block Memory :=
  { volume with disk := update volume.disk number block }

variable {block : Block} {next : Block → Program Block Memory Other} {number slot : Nat}
  {post : Result → Volume Block Memory → Prop}

/-- The block that was replaced. -/
@[simp]
theorem Volume.put_other (volume : Volume Block Memory) {other : Nat} (block : Block) (apart : other ≠ number) :
    (volume.put number block).disk other = volume.disk other := update_of_ne apart ..

/-- The memory stays. -/
@[simp]
theorem Volume.put_memory (volume : Volume Block Memory) (number : Nat) (block : Block) :
    (volume.put number block).memory = volume.memory := rfl

/-- A volume behind a cache of blocks whose slots are taken in turn. -/
structure Device (Block Memory : Type) extends Volume Block Memory where
  /-- The block number and the copy each slot holds. -/
  slots : Nat → Option (Nat × Block)
  /-- How many times a slot was taken. -/
  turn : Nat

section Cache

variable (width : Nat)

/-- The first slot that holds a block, with the copy in it. -/
def Device.find (device : Device Block Memory) (number : Nat) : Option (Nat × Block) :=
  (List.range width).findSome? fun slot =>
    match device.slots slot with
    | some (cached, block) => if cached = number then some (slot, block) else none
    | none => none

/-- A copy put into its block's slot, or into the slot whose turn it is. -/
def Device.store (device : Device Block Memory) (number : Nat) (block : Block) : Device Block Memory :=
  match device.find width number with
  | some (slot, _) => { device with slots := update device.slots slot (some (number, block)) }
  | none =>
    { device with
      slots := update device.slots (device.turn % width) (some (number, block))
      turn := device.turn + 1 }

/-- A program run on a device, every read and write through the cache. -/
def Program.run : Program Block Memory Result → Device Block Memory → Result × Device Block Memory
  | .done result, device => (result, device)
  | .read number next, device =>
    match device.find width number with
    | some (_, block) => (next block).run device
    | none => (next (device.disk number)).run (device.store width number (device.disk number))
  | .write number block next, device =>
    next.run (Device.store width { device with toVolume := device.toVolume.put number block } number block)
  | .patch number change next, device =>
    next.run { device with toVolume := device.toVolume.put number (change (device.disk number)) }
  | .get next, device => (next device.memory).run device
  | .set memory next, device => next.run { device with memory := memory }

end Cache

section Volumes

variable (bypassed : Nat → Prop)

/--
What a program needs of a volume to end as required. The cache plays no part: a patched block may read as
anything.
-/
def Program.ends (post : Result → Volume Block Memory → Prop) :
    Program Block Memory Result → Volume Block Memory → Prop
  | .done result, volume => post result volume
  | .read number next, volume =>
    ∀ block, (¬bypassed number → block = volume.disk number) → (next block).ends post volume
  | .write number block next, volume => next.ends post (volume.put number block)
  | .patch number change next, volume =>
    bypassed number ∧ next.ends post (volume.put number (change (volume.disk number)))
  | .get next, volume => (next volume.memory).ends post volume
  | .set memory next, volume => next.ends post { volume with memory := memory }

variable {bypassed}

lemma Program.ends_mono {weaker : Result → Volume Block Memory → Prop}
    (implies : ∀ result volume, post result volume → weaker result volume) :
    ∀ {program : Program Block Memory Result} {volume : Volume Block Memory},
      program.ends bypassed post volume → program.ends bypassed weaker volume := by
  intro program
  induction program with
  | done result => exact fun holds => implies _ _ holds
  | read number next ih => exact fun holds block reads => ih _ (holds block reads)
  | write number block next ih => exact fun holds => ih holds
  | patch number change next ih => exact fun holds => ⟨holds.1, ih holds.2⟩
  | get next ih => exact fun holds => ih _ holds
  | set memory next ih => exact fun holds => ih holds

lemma Program.ends_bind {post : Other → Volume Block Memory → Prop} (next : Result → Program Block Memory Other) :
    ∀ {program : Program Block Memory Result} {volume : Volume Block Memory},
      (program >>= next).ends bypassed post volume ↔
        program.ends bypassed (fun result left => (next result).ends bypassed post left) volume := by
  intro program
  induction program with
  | done result => exact Iff.rfl
  | read number rest ih => exact forall₂_congr fun block _ => ih block
  | write number block _ ih => exact ih
  | patch number change rest ih => exact and_congr Iff.rfl ih
  | get _ ih => exact ih _
  | set memory _ ih => exact ih

variable {post : Other → Volume Block Memory → Prop} {volume : Volume Block Memory}

/-- A result alone ends where it starts. -/
@[simp]
theorem Program.ends_pure (result : Other) :
    (pure result : Program Block Memory Other).ends bypassed post volume ↔ post result volume := Iff.rfl

lemma Program.ends_ite {chosen : Prop} [Decidable chosen] {first second : Program Block Memory Other}
    (positive : chosen → first.ends bypassed post volume) (negative : ¬chosen → second.ends bypassed post volume) :
    (if chosen then first else second).ends bypassed post volume := by
  by_cases holds : chosen
  · rw [if_pos holds]
    exact positive holds
  · rw [if_neg holds]
    exact negative holds

lemma Program.ends_read
    (rest : ∀ block, (¬bypassed number → block = volume.disk number) → (next block).ends bypassed post volume) :
    (readBlock number >>= next).ends bypassed post volume := rest

lemma Program.ends_read_plain (plain : ¬bypassed number)
    (rest : (next (volume.disk number)).ends bypassed post volume) :
    (readBlock number >>= next).ends bypassed post volume :=
  fun block reads => by rw [reads plain]; exact rest

/-- A block that is written stands on the volume. -/
@[simp]
theorem Program.ends_write (number : Nat) (block : Block) (next : Unit → Program Block Memory Other) :
    (writeBlock number block >>= next).ends bypassed post volume ↔
      (next ()).ends bypassed post (volume.put number block) := Iff.rfl

/-- The memory is read as it stands. -/
@[simp]
theorem Program.ends_get (next : Memory → Program Block Memory Other) :
    (getMemory >>= next).ends bypassed post volume ↔ (next volume.memory).ends bypassed post volume := Iff.rfl

end Volumes

section Coherence

variable (width : Nat) (bypassed : Nat → Prop)

/-- Every copy in the cache is what the device holds, and no block has two copies. -/
structure Coherent (device : Device Block Memory) : Prop where
  /-- A copy is up to date. -/
  agrees : ∀ {slot number block}, slot < width → device.slots slot = some (number, block) → ¬bypassed number →
    block = device.disk number
  /-- A block is held by one slot. -/
  single : ∀ {slot other number block copy}, slot < width → other < width →
    device.slots slot = some (number, block) → device.slots other = some (number, copy) → slot = other

variable {width bypassed} {device : Device Block Memory}

lemma Device.find_some (found : device.find width number = some (slot, block)) :
    slot < width ∧ device.slots slot = some (number, block) := by
  obtain ⟨tried, inside, hit⟩ := exists_of_findSome?_eq_some found
  cases held : device.slots tried with
  | none => simp [held] at hit
  | some copy =>
    simp only [held] at hit
    split at hit
    · obtain ⟨rfl, rfl⟩ := hit
      exact ⟨mem_range.mp inside, by simp [held, ← ‹copy.1 = number›]⟩
    · simp at hit

lemma Device.find_none (absent : device.find width number = none)
    (inside : slot < width) : device.slots slot ≠ some (number, block) := by
  intro held
  have missed := findSome?_eq_none_iff.mp absent slot (mem_range.mpr inside)
  simp [held] at missed

lemma Coherent.update (coherent : Coherent width bypassed device)
    {turn : Nat} (alone : ∀ other copy, other < width → device.slots other = some (number, copy) → other = slot)
    (memory : Memory) : Coherent width bypassed
      { disk := update device.disk number block, memory := memory,
        slots := update device.slots slot (some (number, block)), turn := turn } := by
  constructor
  · intro at' cached copy inside held plain
    simp only [update_apply] at held ⊢
    by_cases here : at' = slot
    · simp only [here, if_true, some.injEq, Prod.mk.injEq] at held
      rw [if_pos held.1.symm, held.2]
    · rw [if_neg here] at held
      have other : cached ≠ number := fun same => here (alone _ _ inside (same ▸ held))
      rw [if_neg other]
      exact coherent.agrees inside held plain
  · intro first second cached copy again inside within held also
    simp only [update_apply] at held also
    by_cases here : first = slot <;> by_cases there : second = slot
    · rw [here, there]
    · simp only [here, there, if_true, if_false, some.injEq, Prod.mk.injEq] at held also
      exact absurd (alone _ _ within (held.1 ▸ also)) there
    · simp only [here, there, if_true, if_false, some.injEq, Prod.mk.injEq] at held also
      exact absurd (alone _ _ inside (also.1 ▸ held)) here
    · rw [if_neg here] at held
      rw [if_neg there] at also
      exact coherent.single inside within held also

lemma Coherent.stored (coherent : Coherent width bypassed device) (number : Nat)
    (block : Block) (memory : Memory) : Coherent width bypassed (Device.store width { device with
        toVolume := { disk := Function.update device.disk number block, memory := memory } }
        number block) := by
  unfold Device.store
  cases found : Device.find width
      { device with toVolume := { disk := Function.update device.disk number block, memory := memory } } number with
  | none => exact coherent.update (fun other copy inside held => absurd held (Device.find_none found inside)) memory
  | some slot =>
    obtain ⟨inside, held⟩ := Device.find_some found
    exact coherent.update (fun other copy within also => coherent.single within inside also held) memory

/-- A store changes the cache alone. -/
@[simp]
theorem Device.store_toVolume (device : Device Block Memory) (number : Nat) (block : Block) :
    (device.store width number block).toVolume = device.toVolume := by
  unfold Device.store
  split <;> rfl

/-- A program that ends as required on the volume does so behind a coherent cache, and keeps it coherent. -/
theorem Program.ends_run :
    ∀ {program : Program Block Memory Result} {device : Device Block Memory}, Coherent width bypassed device →
      program.ends bypassed post device.toVolume →
      post (program.run width device).1 (program.run width device).2.toVolume ∧
        Coherent width bypassed (program.run width device).2 := by
  intro program
  induction program with
  | done result => exact fun coherent holds => ⟨holds, coherent⟩
  | read number next ih =>
    intro device coherent holds
    unfold Program.run
    cases found : device.find width number with
    | some copy =>
      obtain ⟨inside, held⟩ := Device.find_some found
      exact ih _ coherent (holds _ fun plain => coherent.agrees inside held plain)
    | none =>
      -- What is fetched from the device is stored as it stands there.
      have stored := coherent.stored number (device.disk number) device.memory
      rw [update_eq_self] at stored
      exact ih _ stored (by rw [Device.store_toVolume]; exact holds _ fun _ => rfl)
  | write number block next ih =>
    intro device coherent holds
    exact ih (coherent.stored number block device.memory) (by rw [Device.store_toVolume]; exact holds)
  | patch number change next ih =>
    intro device coherent holds
    refine ih ⟨fun inside held plain => ?_, coherent.single⟩ holds.2
    have other : ∀ cached, ¬bypassed cached → cached ≠ number := fun cached plain same => plain (same ▸ holds.1)
    simp only [Volume.put, update_of_ne (other _ plain)]
    exact coherent.agrees inside held plain
  | get next ih => exact fun coherent holds => ih _ coherent holds
  | set memory next ih => exact fun coherent holds => ih ⟨coherent.agrees, coherent.single⟩ holds

end Coherence

end BlockDevice

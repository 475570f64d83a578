import Galio.Lib.Ring

/-! Pipes of `syscall_extra.c`: the readers receive the bytes the writers put in, in their order. -/

namespace Galio

open Function List

def pipeFdFlag : UInt32 := 0x80000000
def pipeReadFlag : UInt32 := 0x40000000
def pipeWriteFlag : UInt32 := 0x20000000
abbrev pipeBufferSize : Nat := 1024

/-- A pipe in use, without the numbers of its handles. -/
structure Pipe where
  readOpen : Bool
  writeOpen : Bool
  head : Fin pipeBufferSize
  tail : Fin pipeBufferSize
  buffer : Nat → UInt8

/-- A handle that names a pipe and carries a flag. -/
def pipeHandle (handle flag : UInt32) : Bool := handle &&& pipeFdFlag != 0 && handle &&& flag != 0

def pipeAvailableData (pipe : Pipe) : Nat := (pipe.tail + pipeBufferSize - pipe.head) % pipeBufferSize

def pipeAvailableSpace (pipe : Pipe) : Nat := pipeBufferSize - pipeAvailableData pipe - 1

/-- What a call comes to: it yields and looks again, returns −1, or returns a count. -/
inductive PipeReturn where
  | yields
  | error
  | count (bytes : Nat)

/-- The loop of `pipe_read_fd`, with the bytes it stores in the caller's buffer. -/
def readBytes : Nat → Pipe → List UInt8 × Pipe
  | 0, pipe => ([], pipe)
  | turns + 1, pipe =>
    let (bytes, after) := readBytes turns { pipe with head := pipe.head + 1 }
    (pipe.buffer pipe.head :: bytes, after)

/-- The loop of `pipe_write_fd`. -/
def writeBytes : List UInt8 → Pipe → Pipe
  | [], pipe => pipe
  | byte :: bytes, pipe => writeBytes bytes { pipe with
      buffer := update pipe.buffer pipe.tail byte
      tail := pipe.tail + 1 }

/-- `pipe_read_fd`: the value it returns, what it stores in the caller's buffer, and the pipe. -/
def pipeReadFd (pipe : Pipe) (handle : UInt32) (size : Nat) : PipeReturn × List UInt8 × Pipe :=
  if !pipeHandle handle pipeReadFlag then (.error, [], pipe)
  else if pipeAvailableData pipe = 0 ∧ pipe.writeOpen then (.yields, [], pipe)
  else if pipeAvailableData pipe = 0 ∧ !pipe.writeOpen then (.count 0, [], pipe)
  else
    let count := min size (pipeAvailableData pipe)
    (.count count, readBytes count pipe)

def pipeWriteFd (pipe : Pipe) (handle : UInt32) (data : List UInt8) : PipeReturn × Pipe :=
  if !pipeHandle handle pipeWriteFlag then (.error, pipe)
  else if pipeAvailableSpace pipe = 0 ∧ pipe.readOpen then (.yields, pipe)
  else if pipeAvailableSpace pipe = 0 ∧ !pipe.readOpen then (.error, pipe)
  else
    let count := min data.length (pipeAvailableSpace pipe)
    (.count count, writeBytes (data.take count) pipe)

/-- What happens to a pipe; `ends` stands for handles opened and closed while the pipe stays in use. -/
inductive PipeCall where
  | read (handle : UInt32) (size : Nat)
  | write (handle : UInt32) (data : List UInt8)
  | ends (readOpen writeOpen : Bool)

/-- A pipe with the bytes its writes accepted and its reads returned. -/
structure PipeTrace where
  pipe : Pipe
  accepted : List UInt8
  returned : List UInt8

/-- The bytes a call moved: of the caller's buffer, the first as many as it returns. -/
def PipeReturn.moved (buffer : List UInt8) : PipeReturn → List UInt8
  | .count bytes => buffer.take bytes
  | _ => []

/-- A call, which the caller sees by the value returned and by its own buffer only. -/
def PipeTrace.step (trace : PipeTrace) : PipeCall → PipeTrace
  | .read handle size =>
    let (value, buffer, pipe) := pipeReadFd trace.pipe handle size
    { trace with pipe := pipe, returned := trace.returned ++ value.moved buffer }
  | .write handle data =>
    let (value, pipe) := pipeWriteFd trace.pipe handle data
    { trace with pipe := pipe, accepted := trace.accepted ++ value.moved data }
  | .ends readOpen writeOpen =>
    { trace with pipe := { trace.pipe with readOpen := readOpen, writeOpen := writeOpen } }

/-- A pipe as `pipe_alloc_id` hands it out, after some calls. -/
def pipeTrace (buffer : Nat → UInt8) (calls : List PipeCall) : PipeTrace :=
  calls.foldl PipeTrace.step ⟨⟨false, false, 0, 0, buffer⟩, [], []⟩

/-- The bytes in a pipe, oldest first. -/
def Pipe.buffered (pipe : Pipe) : List UInt8 :=
  Ring.window pipeBufferSize pipe.buffer pipe.head (pipeAvailableData pipe)

variable {pipe : Pipe}

lemma buffered_length : pipe.buffered.length = pipeAvailableData pipe := by
  simp [Pipe.buffered, Ring.window]

lemma available_lt : pipeAvailableData pipe < pipeBufferSize := Nat.mod_lt _ (by decide)

lemma readBytes_eq {turns : Nat} (enough : turns ≤ pipeAvailableData pipe) :
    pipe.buffered = (readBytes turns pipe).1 ++ (readBytes turns pipe).2.buffered := by
  -- Each turn takes the oldest byte, and the rest is what the pipe holds with its head moved on.
  induction turns generalizing pipe with
  | zero => rfl
  | succ turns ih =>
    let next : Pipe := { pipe with head := pipe.head + 1 }
    have moved : (pipe.head + 1).val = (pipe.head.val + 1) % pipeBufferSize := Fin.val_add ..
    have fewer : pipeAvailableData pipe = pipeAvailableData next + 1 := by
      have head := pipe.head.isLt
      have tail := pipe.tail.isLt
      simp only [pipeAvailableData, next, pipeBufferSize] at head tail enough ⊢
      omega
    calc pipe.buffered = pipe.buffer pipe.head :: next.buffered := by
          rw [Pipe.buffered, fewer, Ring.window_pop, Nat.mod_eq_of_lt pipe.head.isLt, ← moved, Pipe.buffered]
      _ = _ := congrArg (_ :: ·) (@ih next (by omega))

lemma writeBytes_eq {bytes : List UInt8} (room : pipeAvailableData pipe + bytes.length < pipeBufferSize) :
    (writeBytes bytes pipe).buffered = pipe.buffered ++ bytes := by
  -- Each turn puts a byte behind the newest, in a cell that holds none.
  induction bytes generalizing pipe with
  | nil => exact (append_nil _).symm
  | cons byte bytes ih =>
    rw [length_cons] at room
    let next : Pipe := { pipe with buffer := update pipe.buffer pipe.tail byte, tail := pipe.tail + 1 }
    have head := pipe.head.isLt
    have tail := pipe.tail.isLt
    have more : pipeAvailableData next = pipeAvailableData pipe + 1 := by
      simp only [pipeAvailableData, next, pipeBufferSize] at head tail room ⊢
      omega
    have place : pipe.tail.val = (pipe.head + pipeAvailableData pipe) % pipeBufferSize := by
      simp only [pipeAvailableData, pipeBufferSize] at head tail ⊢
      omega
    calc (writeBytes bytes next).buffered = next.buffered ++ bytes := ih (by omega)
      _ = pipe.buffered ++ [byte] ++ bytes := by
          rw [Pipe.buffered, more]
          show Ring.window _ (update pipe.buffer pipe.tail byte) _ _ ++ _ = _
          rw [place, Ring.window_push available_lt, Pipe.buffered]
      _ = pipe.buffered ++ byte :: bytes := append_assoc ..

/-- The loop stores one byte in each turn. -/
theorem readBytes_length (turns : Nat) : (readBytes turns pipe).1.length = turns := by
  induction turns generalizing pipe with
  | zero => rfl
  | succ turns ih => exact congrArg (· + 1) ih

/-- A read takes the bytes it returns off the front. -/
theorem pipeReadFd_eq (handle : UInt32) (size : Nat) :
    pipe.buffered = (pipeReadFd pipe handle size).1.moved (pipeReadFd pipe handle size).2.1 ++
      (pipeReadFd pipe handle size).2.2.buffered := by
  unfold pipeReadFd
  split_ifs
  · rfl
  · rfl
  · rfl
  · dsimp only [PipeReturn.moved]
    rw [take_of_length_le (readBytes_length _).le]
    exact readBytes_eq (Nat.min_le_right ..)

/-- A write puts the bytes it accepts behind the others. -/
theorem pipeWriteFd_eq (handle : UInt32) (data : List UInt8) :
    (pipeWriteFd pipe handle data).2.buffered = pipe.buffered ++ (pipeWriteFd pipe handle data).1.moved data := by
  unfold pipeWriteFd
  split_ifs
  · exact (append_nil _).symm
  · exact (append_nil _).symm
  · exact (append_nil _).symm
  · apply writeBytes_eq
    have stored := @available_lt pipe
    rw [length_take, pipeAvailableSpace]
    omega

/-- What a pipe is for, in a state of it. -/
structure PipeTrace.Faithful (trace : PipeTrace) : Prop where
  fifo : trace.accepted = trace.returned ++ trace.pipe.buffered
  bounded : trace.pipe.buffered.length ≤ pipeBufferSize - 1
  ended : ∀ handle size, size ≠ 0 → (pipeReadFd trace.pipe handle size).1 = .count 0 →
    trace.pipe.buffered = [] ∧ trace.pipe.writeOpen = false

/-- A read returns zero only from an empty pipe that nobody writes to. -/
theorem pipeReadFd_ended {handle : UInt32} {size : Nat} (some : size ≠ 0)
    (none : (pipeReadFd pipe handle size).1 = .count 0) : pipe.buffered = [] ∧ pipe.writeOpen = false := by
  unfold pipeReadFd at none
  split_ifs at none with flags waits ended
  · simpa [← length_eq_zero_iff, buffered_length] using ended
  -- With a byte to read and room for it, the loop makes a turn.
  · have turns : min size (pipeAvailableData pipe) = 0 := PipeReturn.count.inj none
    cases open_ : pipe.writeOpen <;> simp_all

/-- A call keeps the bytes accepted to be those returned and those still in the pipe. -/
theorem PipeTrace.step_fifo {trace : PipeTrace} (fifo : trace.accepted = trace.returned ++ trace.pipe.buffered)
    (call : PipeCall) :
    (trace.step call).accepted = (trace.step call).returned ++ (trace.step call).pipe.buffered := by
  cases call with
  | read handle size =>
    show trace.accepted = trace.returned ++ (pipeReadFd trace.pipe handle size).1.moved _ ++ _
    rw [fifo, pipeReadFd_eq handle size, append_assoc]
    rfl
  | write handle data =>
    show trace.accepted ++ (pipeWriteFd trace.pipe handle data).1.moved data = _
    rw [fifo, append_assoc, ← pipeWriteFd_eq]
    rfl
  | ends readOpen writeOpen => exact fifo

end Galio

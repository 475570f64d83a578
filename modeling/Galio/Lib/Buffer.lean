import Mathlib.Data.Nat.Bitwise
import Mathlib.Logic.Function.Basic
import Mathlib.Tactic.IntervalCases

/-! Buffers of bytes: little-endian numbers, copies and bits in them. -/

/-- A stretch of memory, by offsets. -/
abbrev Buffer := Nat → UInt8

namespace Buffer

open Function

/-- A copy of some bytes of another buffer to an offset. -/
def put (buffer : Buffer) (start length : Nat) (source : Buffer) : Buffer :=
  fun a => if start ≤ a ∧ a < start + length then source (a - start) else buffer a

/-- The bytes of a number, lowest first. -/
def digits (value : Nat) : Buffer := fun k => UInt8.ofNat (value / 256 ^ k)

/-- A number of two bytes. -/
def get16 (buffer : Buffer) (a : Nat) : Nat := (buffer a).toNat + 256 * (buffer (a + 1)).toNat

/-- A number of four bytes. -/
def get32 (buffer : Buffer) (a : Nat) : Nat := get16 buffer a + 65536 * get16 buffer (a + 2)

/-- A number of two bytes stored. -/
def set16 (buffer : Buffer) (a value : Nat) : Buffer := buffer.put a 2 (digits value)

/-- A number of four bytes stored. -/
def set32 (buffer : Buffer) (a value : Nat) : Buffer := buffer.put a 4 (digits value)

/-- One bit, counted from the lowest one of the first byte. -/
def bit (buffer : Buffer) (k : Nat) : Bool := (buffer (k / 8)).toNat.testBit (k % 8)

/-- One bit set. -/
def setBit (buffer : Buffer) (k : Nat) : Buffer :=
  Function.update buffer (k / 8) (buffer (k / 8) ||| 1 <<< UInt8.ofNat (k % 8))

/-- One bit cleared. -/
def clearBit (buffer : Buffer) (k : Nat) : Buffer :=
  Function.update buffer (k / 8) (buffer (k / 8) &&& ~~~(1 <<< UInt8.ofNat (k % 8)))

lemma put_inside (buffer source : Buffer) (start : Nat) {length k : Nat} (inside : k < length) :
    buffer.put start length source (start + k) = source k := by
  rw [put, if_pos ⟨Nat.le_add_right _ _, by omega⟩, Nat.add_sub_cancel_left]

lemma put_outside (buffer source : Buffer) {start length a : Nat} (outside : a < start ∨ start + length ≤ a) :
    buffer.put start length source a = buffer a := if_neg (by omega)

lemma get16_lt (buffer : Buffer) (a : Nat) : get16 buffer a < 2 ^ 16 := by
  have low := (buffer a).toNat_lt
  have high := (buffer (a + 1)).toNat_lt
  simp only [get16]
  omega

lemma get32_lt (buffer : Buffer) (a : Nat) : get32 buffer a < 2 ^ 32 := by
  have low := get16_lt buffer a
  have high := get16_lt buffer (a + 2)
  simp only [get32]
  omega

lemma get16_congr {first second : Buffer} {a b : Nat} (same : ∀ k < 2, first (a + k) = second (b + k)) :
    get16 first a = get16 second b := by
  have low : first a = second b := same 0 (by omega)
  have high : first (a + 1) = second (b + 1) := same 1 (by omega)
  rw [get16, get16, low, high]

lemma get32_congr {first second : Buffer} {a b : Nat} (same : ∀ k < 4, first (a + k) = second (b + k)) :
    get32 first a = get32 second b := by
  have low : get16 first a = get16 second b := get16_congr fun k small => same k (by omega)
  have high : get16 first (a + 2) = get16 second (b + 2) := get16_congr fun k small => by
    simpa only [Nat.add_assoc] using same (2 + k) (by omega)
  rw [get32, get32, low, high]

lemma toNat_one_shiftLeft {j : Nat} (small : j < 8) : ((1 : UInt8) <<< UInt8.ofNat j).toNat = 2 ^ j := by
  interval_cases j <;> rfl

lemma testBit_complement {i j : Nat} (small : j < 8) (inside : i < 8) :
    (~~~((1 : UInt8) <<< UInt8.ofNat j)).toNat.testBit i = !decide (j = i) := by
  interval_cases j <;> interval_cases i <;> rfl

lemma bit_setBit (buffer : Buffer) (k j : Nat) : (buffer.setBit k).bit j = (decide (j = k) || buffer.bit j) := by
  have small : k % 8 < 8 := Nat.mod_lt _ (by decide)
  unfold bit setBit
  by_cases here : j / 8 = k / 8
  · rw [here, update_self, UInt8.toNat_or, toNat_one_shiftLeft small, Nat.testBit_or, Nat.testBit_two_pow,
      Bool.or_comm]
    congr 1
    exact decide_eq_decide.mpr ⟨fun same => by omega, fun same => by rw [same]⟩
  · rw [update_of_ne here]
    have other : j ≠ k := fun same => here (by rw [same])
    simp [other]

lemma bit_clearBit (buffer : Buffer) (k j : Nat) : (buffer.clearBit k).bit j =
    (!decide (j = k) && buffer.bit j) := by
  have small : k % 8 < 8 := Nat.mod_lt _ (by decide)
  unfold bit clearBit
  by_cases here : j / 8 = k / 8
  · rw [here, update_self, UInt8.toNat_and, Nat.testBit_and, testBit_complement small (Nat.mod_lt _ (by decide)),
      Bool.and_comm]
    congr 2
    exact decide_eq_decide.mpr ⟨fun same => by omega, fun same => by rw [same]⟩
  · rw [update_of_ne here]
    have other : j ≠ k := fun same => here (by rw [same])
    simp [other]

end Buffer

import Mathlib.Data.Nat.ModEq

/-! Sixteen-bit one's complement sums of bytes in network order. -/

namespace OnesComplement

open List

/-- The sum of the words of some bytes, high byte first; an odd last byte is a high one. -/
def wordSum : List UInt8 → Nat
  | [] => 0
  | [high] => high.toNat * 256
  | high :: low :: rest => high.toNat * 256 + low.toNat + wordSum rest

variable {bytes front : List UInt8} {start sum total : Nat}

lemma wordSum_append (even : front.length % 2 = 0) (rest : List UInt8) :
    wordSum (front ++ rest) = wordSum front + wordSum rest := by
  induction front using wordSum.induct with
  | case1 => simp [wordSum]
  | case2 high => simp at even
  | case3 high low front ih =>
    have shorter : front.length % 2 = 0 := by
      simp only [length_cons] at even
      omega
    rw [cons_append, cons_append, wordSum, wordSum]
    omega

/-- The carry of a sum added to its low word. -/
def fold (sum : Nat) : Nat := sum % 65536 + sum / 65536

/-- A running sum over the words of some bytes, with the carry added where there is one. -/
def accumulate (sum : Nat) : List UInt8 → Nat
  | [] => sum
  | [high] =>
    let sum := sum + high.toNat * 256
    if sum > 65535 then fold sum else sum
  | high :: low :: rest =>
    let sum := sum + (high.toNat * 256 + low.toNat)
    accumulate (if sum > 65535 then fold sum else sum) rest

/-- Carries added until there are none, with a bound on how often. -/
def foldAll : Nat → Nat → Nat
  | 0, sum => sum
  | steps + 1, sum => if sum / 65536 = 0 then sum else foldAll steps (fold sum)

/-- The complement of a running sum without carries. -/
def checksum (start : Nat) (bytes : List UInt8) : Nat :=
  let sum := accumulate start bytes
  65535 - foldAll sum sum

/-- A sum that stands for another one: the same modulo 65535, and zero only if that one is. -/
structure Stands (sum total : Nat) : Prop where
  /-- The remainders are the same. -/
  mod : sum % 65535 = total % 65535
  /-- Nothing is made of nothing only. -/
  pos : 0 < sum ↔ 0 < total

lemma Stands.fold (stands : Stands sum total) : Stands (fold sum) total := by
  obtain ⟨mod, pos⟩ := stands
  unfold OnesComplement.fold
  constructor <;> omega

lemma Stands.add (stands : Stands sum total) (word : Nat) : Stands (sum + word) (total + word) := by
  obtain ⟨mod, pos⟩ := stands
  constructor <;> omega

lemma accumulate_append (even : front.length % 2 = 0) (sum : Nat) (rest : List UInt8) :
    accumulate sum (front ++ rest) = accumulate (accumulate sum front) rest := by
  induction front using wordSum.induct generalizing sum with
  | case1 => rfl
  | case2 high => simp at even
  | case3 high low front ih =>
    have shorter : front.length % 2 = 0 := by
      simp only [length_cons] at even
      omega
    rw [cons_append, cons_append, accumulate, accumulate, ih shorter]

lemma Stands.accumulate (stands : Stands sum total) (bytes : List UInt8) :
    Stands (accumulate sum bytes) (total + wordSum bytes) := by
  induction bytes using wordSum.induct generalizing sum total with
  | case1 => exact stands
  | case2 high =>
    rw [OnesComplement.accumulate]
    have added := stands.add (high.toNat * 256)
    split
    · exact added.fold
    · exact added
  | case3 high low rest ih =>
    rw [OnesComplement.accumulate, wordSum, ← Nat.add_assoc total]
    have added := stands.add (high.toNat * 256 + low.toNat)
    split
    · exact ih added.fold
    · exact ih added

lemma Stands.foldAll {steps : Nat} (stands : Stands sum total) (enough : sum ≤ steps) :
    Stands (foldAll steps sum) total ∧ foldAll steps sum ≤ 65535 := by
  induction steps generalizing sum with
  | zero =>
    obtain rfl : sum = 0 := by omega
    exact ⟨stands, by simp [OnesComplement.foldAll]⟩
  | succ steps ih =>
    rw [OnesComplement.foldAll]
    split
    · exact ⟨stands, by omega⟩
    · apply ih stands.fold
      unfold OnesComplement.fold
      omega

variable (positive : 0 < start + wordSum bytes)
include positive

lemma checksum_spec :
    checksum start bytes < 65535 ∧ (start + wordSum bytes + checksum start bytes) % 65535 = 0 := by
  have whole : Stands (accumulate start bytes) (start + wordSum bytes) := Stands.accumulate ⟨rfl, Iff.rfl⟩ bytes
  obtain ⟨⟨mod, pos⟩, small⟩ := whole.foldAll (Nat.le_refl _)
  unfold checksum
  simp only
  omega

lemma eq_checksum_iff {word : Nat} (small : word ≤ 65535) :
    word = checksum start bytes ↔ word ≠ 65535 ∧ (start + wordSum bytes + word) % 65535 = 0 := by
  obtain ⟨bound, zero⟩ := checksum_spec positive
  omega

lemma checksum_eq_zero_iff : checksum start bytes = 0 ↔ (start + wordSum bytes) % 65535 = 0 := by
  rw [eq_comm, eq_checksum_iff positive (by omega)]
  omega

end OnesComplement

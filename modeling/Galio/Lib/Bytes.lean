import Mathlib.Tactic.Common

/-! Words as eight bytes, the lowest byte first. -/

namespace Bytes

/-- A byte of a word. -/
def get (word : BitVec 64) (k : Nat) : BitVec 8 := word.extractLsb' (8 * k) 8

/-- A word with one byte replaced. -/
def set (word : BitVec 64) (k : Nat) (byte : BitVec 8) : BitVec 64 :=
  (word &&& ~~~(0xFF#64 <<< (8 * k))) ||| (byte.setWidth 64 <<< (8 * k))

@[simp] lemma get_zero (k : Nat) : get 0#64 k = 0#8 := by
  simp [get]

lemma getLsbD_mask (n : Nat) : (0xFF#64).getLsbD n = decide (n < 8) := by
  rw [BitVec.getLsbD_ofNat, show 0xFF = 2 ^ 8 - 1 by decide, Nat.testBit_two_pow_sub_one]
  by_cases low : n < 8
  · simp [low]
    omega
  · simp [low]

lemma getLsbD_set (word : BitVec 64) (k : Nat) (byte : BitVec 8) {n : Nat} (inWord : n < 64) :
    (set word k byte).getLsbD n = if 8 * k ≤ n ∧ n < 8 * k + 8 then byte.getLsbD (n - 8 * k) else word.getLsbD n := by
  simp only [set, BitVec.getLsbD_or, BitVec.getLsbD_and, BitVec.getLsbD_not, BitVec.getLsbD_shiftLeft,
    BitVec.getLsbD_setWidth, getLsbD_mask, inWord, decide_true, Bool.true_and]
  by_cases below : n < 8 * k
  · have outside : ¬(8 * k ≤ n ∧ n < 8 * k + 8) := by omega
    simp [below, outside]
  · by_cases above : n < 8 * k + 8
    · have inside : n - 8 * k < 8 := by omega
      have shifted : n - 8 * k < 64 := by omega
      simp [below, inside, shifted, above, Nat.le_of_not_lt below]
    · have outside : ¬n - 8 * k < 8 := by omega
      rw [BitVec.getLsbD_of_ge byte _ (by omega)]
      simp [below, outside, above]

lemma get_set (word : BitVec 64) {k j : Nat} (byte : BitVec 8) (inWord : j < 8) :
    get (set word k byte) j = if j = k then byte else get word j := by
  apply BitVec.eq_of_getLsbD_eq
  intro i small
  rw [get, BitVec.getLsbD_extractLsb', getLsbD_set _ _ _ (by omega)]
  by_cases same : j = k
  · subst same
    rw [if_pos (by omega), if_pos rfl, Nat.add_sub_cancel_left]
    simp [small]
  · rw [if_neg (by omega), if_neg same, get, BitVec.getLsbD_extractLsb']

end Bytes

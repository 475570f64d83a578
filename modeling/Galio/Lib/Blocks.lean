import Mathlib.Algebra.BigOperators.Intervals
import Mathlib.Algebra.Order.BigOperators.Group.Finset

/-! Counting through a row of blocks of given sizes. -/

namespace Blocks

open Finset

variable {size : Nat → Nat}

/-- The loop that takes whole blocks off a count: the block where it stops, and what is left there. -/
def locate (positive : ∀ i, 0 < size i) (first left : Nat) : Nat × Nat :=
  if size first ≤ left then locate positive (first + 1) (left - size first) else (first, left)
termination_by left
decreasing_by
  have := positive first
  omega

variable (positive : ∀ i, 0 < size i) (first left : Nat)

lemma first_le_locate : first ≤ (locate positive first left).1 := by
  fun_induction locate positive first left with
  | case1 first left whole ih => omega
  | case2 first left part => exact le_rfl

lemma locate_le : (locate positive first left).1 ≤ first + left := by
  fun_induction locate positive first left with
  | case1 first left whole ih =>
    -- Every block takes one at least.
    have := positive first
    omega
  | case2 first left part => exact Nat.le_add_right _ _

lemma locate_snd_lt : (locate positive first left).2 < size (locate positive first left).1 := by
  fun_induction locate positive first left with
  | case1 first left whole ih => exact ih
  | case2 first left part => exact Nat.lt_of_not_le part

/-- The count is the blocks before and what is left. -/
theorem sum_locate :
    ∑ i ∈ Ico first (locate positive first left).1, size i + (locate positive first left).2 = left := by
  fun_induction locate positive first left with
  | case1 first left whole ih =>
    rw [sum_eq_sum_Ico_succ_bot (first_le_locate positive (first + 1) _), Nat.add_assoc, ih]
    omega
  | case2 first left part => simp

lemma locate_lt {last : Nat} (fewer : left < ∑ i ∈ Ico first last, size i) :
    (locate positive first left).1 < last := by
  by_contra! after
  have more := sum_le_sum_of_subset (f := size) (Ico_subset_Ico_right (a := first) after)
  have whole := sum_locate positive first left
  omega

lemma locate_sum {index rest : Nat} (start : first ≤ index) (inside : rest < size index) :
    locate positive first (∑ i ∈ Ico first index, size i + rest) = (index, rest) := by
  -- Downwards from the block the count ends in.
  induction start using Nat.decreasingInduction with
  | of_succ first before ih =>
    rw [locate, sum_eq_sum_Ico_succ_bot before, if_pos (by omega), Nat.add_assoc, Nat.add_sub_cancel_left, ih]
  | self => rw [locate, Ico_self, sum_empty, Nat.zero_add, if_neg inside.not_ge]

end Blocks

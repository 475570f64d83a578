import Mathlib.Data.Nat.ModEq
import Mathlib.Logic.Function.Basic

/-! Rings of cells: what stands in one from a place on, as cells are added and taken. -/

namespace Ring

open Function List

variable {Cell : Type} {size head count : Nat} {cells : Nat → Cell}

/-- The cells of a ring from a place on. -/
def window (size : Nat) (cells : Nat → Cell) (head count : Nat) : List Cell :=
  (range count).map fun k => cells ((head + k) % size)

lemma window_push (room : count < size) (value : Cell) :
    window size (update cells ((head + count) % size) value) head (count + 1) =
      window size cells head count ++ [value] := by
  simp only [window, range_succ, map_append, map_cons, update_self]
  congr 1
  -- Fewer than `size` cells apart, two places of the ring differ.
  refine map_congr_left fun k member => update_of_ne (fun same => ?_) ..
  have small := mem_range.mp member
  have equal := Nat.ModEq.add_left_cancel' head same
  rw [Nat.ModEq, Nat.mod_eq_of_lt (small.trans room), Nat.mod_eq_of_lt room] at equal
  omega

lemma window_pop : window size cells head (count + 1) =
    cells (head % size) :: window size cells ((head + 1) % size) count := by
  simp only [window, range_succ_eq_map, map_cons, map_map, Nat.add_zero]
  congr 1
  refine map_congr_left fun k _ => ?_
  rw [comp_apply, Nat.mod_add_mod, Nat.add_right_comm, Nat.add_assoc]

end Ring

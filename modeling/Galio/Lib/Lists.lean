import Mathlib.Data.List.Nodup
import Mathlib.Data.List.Perm.Basic

/-! Concatenations in which one index gains elements, and loops over a range that may stop. -/

namespace Lists

open List

variable {Index Value : Type}

variable {after before contribution : Index → List Value} {i j : Index} {x : Value} {indices : List Index}

section Split

variable [DecidableEq Index] {at_ : Index}

lemma flatMap_split (listed : at_ ∈ indices) (contribution : Index → List Value) :
    (indices.flatMap contribution).Perm (contribution at_ ++ (indices.erase at_).flatMap contribution) := by
  have split := (perm_cons_erase listed).flatMap_right contribution
  rwa [flatMap_cons] at split

lemma flatMap_change (distinct : indices.Nodup) (listed : at_ ∈ indices)
    (before after : Index → List Value) (others : ∀ i ∈ indices, i ≠ at_ → after i = before i) :
    ∃ rest, (indices.flatMap before).Perm (before at_ ++ rest) ∧
      (indices.flatMap after).Perm (after at_ ++ rest) := by
  have same : (indices.erase at_).flatMap after = (indices.erase at_).flatMap before := by
    refine flatMap_congr fun i member => others i (mem_of_mem_erase member) ?_
    rintro rfl
    exact distinct.not_mem_erase member
  exact ⟨_, flatMap_split listed before, same ▸ flatMap_split listed after⟩

lemma flatMap_gain {gained : List Value} (distinct : indices.Nodup)
    (listed : at_ ∈ indices) (others : ∀ i ∈ indices, i ≠ at_ → after i = before i)
    (here : (after at_).Perm (gained ++ before at_)) :
    (indices.flatMap after).Perm (gained ++ indices.flatMap before) := by
  obtain ⟨rest, old, new⟩ := flatMap_change distinct listed before after others
  refine new.trans ((here.append_right rest).trans ?_)
  rw [append_assoc]
  exact old.symm.append_left gained

lemma index_of_count_one [DecidableEq Value] (single : (indices.flatMap contribution).count x = 1)
    (first : i ∈ indices)
    (second : j ∈ indices) (here : x ∈ contribution i) (there : x ∈ contribution j) : i = j := by
  by_contra apart
  rw [(flatMap_split first contribution).count_eq, count_append] at single
  have one := count_pos_iff.mpr here
  have other : x ∈ (indices.erase i).flatMap contribution :=
    mem_flatMap.mpr ⟨j, (mem_erase_of_ne (Ne.symm apart)).mpr second, there⟩
  have two := count_pos_iff.mpr other
  omega

lemma index_unique (distinct : (indices.flatMap contribution).Nodup)
    (first : i ∈ indices) (second : j ∈ indices) (here : x ∈ contribution i)
    (there : x ∈ contribution j) : i = j := by
  classical
  have single := count_eq_one_of_mem distinct (mem_flatMap.mpr ⟨i, first, here⟩)
  exact index_of_count_one single first second here there

end Split

lemma foldlM_range {step : Value → Nat → Option Value} (holds : Nat → Value → Prop) {count : Nat}
    (keeps : ∀ i < count, ∀ x, holds i x → ∃ y, step x i = some y ∧ holds (i + 1) y) (start : holds 0 x) :
    ∃ y, (range count).foldlM step x = some y ∧ holds count y := by
  induction count with
  | zero => exact ⟨x, rfl, start⟩
  | succ count ih =>
    obtain ⟨y, run, held⟩ := ih fun i below => keeps i (Nat.lt_succ_of_lt below)
    obtain ⟨z, last, after⟩ := keeps count (Nat.lt_succ_self count) y held
    exact ⟨z, by simp [range_succ, run, last], after⟩

end Lists

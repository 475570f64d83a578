import Mathlib.Logic.Function.Basic

/-! Stretches of one memory that are taken from its top, kept apart from each other. -/

namespace Arena

variable {Index Byte : Type}

/-- Indices hold stretches, by start and size, that lie below the top and do not overlap. -/
structure Laid (extent : Index → Option (Nat × Nat)) (top : Nat) : Prop where
  inside : ∀ {i start size}, extent i = some (start, size) → start + size ≤ top
  apart : ∀ {i j start size other length}, i ≠ j → extent i = some (start, size) →
    extent j = some (other, length) → start + size ≤ other ∨ other + length ≤ start

/-- The bytes of the stretch an index holds. -/
def bytes (memory : Nat → Byte) : Option (Nat × Nat) → List Byte
  | none => []
  | some (start, size) => (List.range size).map fun k => memory (start + k)

/-- Bytes put into memory from a place on. -/
def store [Inhabited Byte] (memory : Nat → Byte) (offset : Nat) (new : List Byte) : Nat → Byte :=
  fun a => if offset ≤ a ∧ a < offset + new.length then new.getD (a - offset) default else memory a

/-- The stretch of one index is given up, cut short, or taken anew above the top. -/
theorem Laid.change {before after : Index → Option (Nat × Nat)} {low high : Nat} (laid : Laid before low)
    (i : Index) (others : ∀ j ≠ i, after j = before j) (grown : low ≤ high)
    (here : ∀ start size, after i = some (start, size) →
      (low ≤ start ∧ start + size ≤ high) ∨ ∃ old, before i = some (start, old) ∧ size ≤ old) : Laid after high := by
  -- Against another index the new stretch lies above it or inside the old one.
  have against : ∀ {j start size other length}, j ≠ i → after i = some (start, size) →
      before j = some (other, length) → start + size ≤ other ∨ other + length ≤ start := by
    intro j start size other length different held kept
    rcases here start size held with ⟨above, _⟩ | ⟨old, was, shorter⟩
    · have := laid.inside kept
      omega
    · have := laid.apart different.symm was kept
      omega
  constructor
  · intro j start size held
    by_cases same : j = i
    · subst same
      rcases here start size held with ⟨_, below⟩ | ⟨old, was, shorter⟩
      · exact below
      · have := laid.inside was
        omega
    · rw [others j same] at held
      exact Nat.le_trans (laid.inside held) grown
  · intro j k start size other length different first second
    by_cases left : j = i
    · subst left
      rw [others k different.symm] at second
      exact against different.symm first second
    · rw [others j left] at first
      by_cases right : k = i
      · subst right
        exact (against left second first).symm
      · rw [others k right] at second
        exact laid.apart different first second

section Bytes

variable [Inhabited Byte] {memory : Nat → Byte} {extent : Index → Option (Nat × Nat)} {top start size : Nat}
  {new : List Byte}

lemma store_nil (offset : Nat) : store memory offset [] = memory :=
  funext fun a => if_neg (by simp)

lemma bytes_store_of_apart {offset : Nat} (apart : start + size ≤ offset ∨ offset + new.length ≤ start) :
    bytes (store memory offset new) (some (start, size)) = bytes memory (some (start, size)) := by
  refine List.map_congr_left fun k member => ?_
  have within := List.mem_range.mp member
  exact if_neg (by omega)

lemma Laid.bytes_store_top (laid : Laid extent top) (j : Index) :
    bytes (store memory top new) (extent j) = bytes memory (extent j) := by
  rcases held : extent j with _ | ⟨start, size⟩
  · rfl
  · exact bytes_store_of_apart (.inl (laid.inside held))

lemma Laid.bytes_store_within (laid : Laid extent top) {i j : Index}
    (different : j ≠ i) (held : extent i = some (start, size)) (fits : new.length ≤ size) :
    bytes (store memory start new) (extent j) = bytes memory (extent j) := by
  rcases other : extent j with _ | ⟨place, length⟩
  · rfl
  · have := laid.apart different other held
    exact bytes_store_of_apart (by omega)

end Bytes

end Arena

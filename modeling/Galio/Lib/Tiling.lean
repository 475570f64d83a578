import Mathlib.Data.List.Basic

/-! Pieces that lie one behind the other, and what is read where all of them have been put. -/

namespace Tiling

open List

variable {Piece Value : Type}

/-- Pieces one behind the other from a position on. -/
def Tiles (start size : Piece → Nat) : Nat → List Piece → Prop
  | _, [] => True
  | position, piece :: rest => start piece = position ∧ Tiles start size (position + size piece) rest

/-- How far some pieces reach. -/
def span (size : Piece → Nat) : List Piece → Nat
  | [] => 0
  | piece :: rest => size piece + span size rest

variable {start size : Piece → Nat}

section

variable {position : Nat} {pieces : List Piece} (tiles : Tiles start size position pieces)
include tiles

lemma Tiles.inside :
    ∀ piece ∈ pieces, position ≤ start piece ∧ start piece + size piece ≤ position + span size pieces := by
  induction pieces generalizing position with
  | nil => simp
  | cons first rest ih =>
    obtain ⟨here, tail⟩ := tiles
    intro piece mem
    rw [span]
    rcases mem_cons.mp mem with rfl | later
    · omega
    · have bounds := ih tail piece later
      omega

lemma Tiles.reaches
    (nonempty : pieces ≠ []) : ∃ piece ∈ pieces, start piece + size piece = position + span size pieces := by
  induction pieces generalizing position with
  | nil => exact absurd rfl nonempty
  | cons first rest ih =>
    obtain ⟨here, tail⟩ := tiles
    by_cases alone : rest = []
    · subst alone
      exact ⟨first, mem_cons_self, by simp [span, here]⟩
    · obtain ⟨piece, mem, ends⟩ := ih tail alone
      exact ⟨piece, mem_cons_of_mem _ mem, by rw [ends, span, Nat.add_assoc]⟩

lemma Tiles.apart : pieces.Pairwise fun first second => start first + size first ≤ start second := by
  induction pieces generalizing position with
  | nil => exact List.Pairwise.nil
  | cons first rest ih =>
    obtain ⟨here, tail⟩ := tiles
    refine pairwise_cons.mpr ⟨fun piece later => ?_, ih tail⟩
    rw [here]
    exact (tail.inside piece later).1

lemma Tiles.disjoint {first second : Piece} (here : first ∈ pieces) (there : second ∈ pieces) :
    first = second ∨ start first + size first ≤ start second ∨ start second + size second ≤ start first := by
  induction pieces generalizing position with
  | nil => simp at here
  | cons piece rest ih =>
    have ordered := (pairwise_cons.mp tiles.apart).1
    rcases mem_cons.mp here with rfl | early <;> rcases mem_cons.mp there with rfl | late
    · exact .inl rfl
    · exact .inr (.inl (ordered second late))
    · exact .inr (.inr (ordered first early))
    · exact ih tiles.2 early late

lemma Tiles.read {content : Nat → Value} {values : Piece → List Value}
    (held : ∀ piece ∈ pieces, (range' (start piece) (size piece)).map content = values piece) :
    (range' position (span size pieces)).map content = pieces.flatMap values := by
  induction pieces generalizing position with
  | nil => rfl
  | cons piece rest ih =>
    obtain ⟨rfl, tail⟩ := tiles
    have later := ih tail fun other mem => held other (mem_cons_of_mem _ mem)
    rw [span, ← range'_append_1, map_append, held piece mem_cons_self, later, flatMap_cons]

end

end Tiling

import Mathlib.Data.List.Infix

/-! Drift's operators `in` and `==` on scalars, arrays of scalars and texts. -/

namespace Galio

open List

/-- A scalar; a text that is `NULL` is read as the empty one. -/
inductive Scalar where
  | integer (value : Int)
  | string (text : List UInt8)
  | boolean (value : Bool)
  | null

/-- What stands beside `in`. -/
inductive Operand where
  | scalar (value : Scalar)
  | array (elements : List Scalar)

namespace Scalar

/-- The numbers and texts that `operator_apply_relational` compares, where both operands have one type. -/
def equalEqual : Scalar → Scalar → Option Bool
  | integer left, integer right => some (left = right)
  | string left, string right => some (left = right)
  | boolean left, boolean right => some (left.toNat = right.toNat)
  -- Two nulls are compared by their text.
  | null, null => some true
  | _, _ => none

/-- The comparison of the loop of `operator_apply_membership`. -/
def isMember : Scalar → Scalar → Bool
  | integer mem, integer elem => mem = elem
  | string mem, string elem => mem = elem
  | _, _ => false

end Scalar

/-- `operator_apply_membership`; `strstr` looks for the member in the container. -/
def operatorApplyMembership : Operand → Operand → Bool
  | .array elements, .scalar mem => elements.any mem.isMember
  | .scalar (.string container), .scalar (.string mem) => mem <:+: container
  | _, _ => false

/-- The tokens of `left in right`: `operator_apply` passes the operands on as they are written. -/
def evalIn (left right : Operand) : Bool := operatorApplyMembership left right

lemma Scalar.equalEqual_iff (left right : Scalar) : left.equalEqual right = some true ↔ left = right := by
  cases left <;> cases right <;> simp [equalEqual]
  case boolean.boolean left right => cases left <;> cases right <;> decide

lemma evalIn_texts (left right : List UInt8) :
    evalIn (.scalar (.string left)) (.scalar (.string right)) = true ↔ right <:+: left := by
  simp [evalIn, operatorApplyMembership]

/-- What stands before `in` is searched: no element is ever found, and the longer text is looked for in the shorter. -/
theorem membership_agrees_iff (x : Scalar) (elements : List Scalar) (s t : List UInt8) :
    (evalIn (.scalar x) (.array elements) = true ↔ ∃ y ∈ elements, x.equalEqual y = some true) ∧
      (evalIn (.scalar (.string s)) (.scalar (.string t)) = true ↔ s <:+: t) ↔
    x ∉ elements ∧ (s = t ∨ ¬s <:+: t ∧ ¬t <:+: s) := by
  have never : evalIn (.scalar x) (.array elements) = false := by cases x <;> rfl
  have found : (∃ y ∈ elements, x.equalEqual y = some true) ↔ x ∈ elements := by
    simp only [Scalar.equalEqual_iff, exists_eq_right']
  rw [never, found, evalIn_texts]
  apply and_congr
  · simp
  · constructor
    · intro same
      by_cases part : s <:+: t
      · exact .inl (part.eq_of_length (Nat.le_antisymm part.length_le (same.mpr part).length_le))
      · exact .inr ⟨part, fun other => part (same.mp other)⟩
    · rintro (rfl | ⟨neither, nor⟩)
      · exact Iff.rfl
      · exact iff_of_false nor neither

/-- A number is not found in an array of it alone, and a letter is not found in a word. -/
theorem members_missed : evalIn (.scalar (.integer 1)) (.array [.integer 1]) = false ∧
    evalIn (.scalar (.string [97])) (.scalar (.string [97, 98])) = false := by decide

end Galio

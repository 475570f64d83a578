import Mathlib.Data.Set.Defs

/-! Drift's conditions, loops and logical operators, each with its own code for the truth of a value. -/

namespace Galio

/-- A `Value` as far as its truth goes: a float by whether it is `0.0`, an array by its length.
The texts and arrays that are `none` are `NULL`. -/
inductive Value where
  | integer (value : Int)
  | float (isZero : Bool)
  | string (text : Option (List UInt8))
  | boolean (value : Bool)
  | null
  | infinity
  | array (length : Option Nat)
  deriving DecidableEq

namespace Value

/-- What `for`, `&&` and `||` make of a value. -/
def scalarTruth : Value → Bool
  | boolean value => value
  | integer value => value ≠ 0
  | float isZero => !isZero
  | _ => false

/-- `value_is_truthy` of `intptr.c`. -/
def valueIsTruthy : Value → Bool
  | boolean value => value
  | integer value => value ≠ 0
  | float isZero => !isZero
  | string text => text.any (· ≠ [])
  | null => false
  | infinity => true
  | array length => length.any (0 < ·)

/-- `value_is_truthy` of `while.c`. -/
def whileValueIsTruthy : Value → Bool
  | boolean value => value
  | integer value => value ≠ 0
  | float isZero => !isZero
  | string text => text.any (· ≠ [])
  | array length => length.any (0 < ·)
  | infinity => true
  | _ => false

/-- `should_continue` of `interpreter_execute_for`. -/
def forShouldContinue (condition : Value) : Bool := condition.scalarTruth

/-- The bodies an `if` statement runs: that of its first truthy branch, or the one of its `else`. -/
def executeIf {Body : Type} (elseBody : Body) : List (Value × Body) → Body
  | [] => elseBody
  | (condition, body) :: branches => if condition.valueIsTruthy then body else executeIf elseBody branches

def operatorApplyTernary (condition trueValue falseValue : Value) : Value :=
  let isTruthy : Bool := match condition with
    | boolean value => value
    | integer value => value ≠ 0
    | float isZero => !isZero
    | string text => text.any (· ≠ [])
    | array length => length.isSome
    | infinity => true
    | null => false
  if isTruthy then trueValue else falseValue

inductive LogicalOp where
  | andAnd
  | orOr
  | not

/-- The operand of `OPERATOR_NOT`. -/
def notOperand : Value → Bool
  | boolean value => value
  | integer value => value ≠ 0
  | float isZero => !isZero
  | string text => text.any (0 < ·.length)
  | _ => false

/-- `operator_apply_logical`; a missing operand makes it false. -/
def operatorApplyLogical : LogicalOp → Option Value → Option Value → Value
  | .not, some left, _ => boolean (!left.notOperand)
  | .andAnd, some left, some right => boolean (left.scalarTruth && right.scalarTruth)
  | .orOr, some left, some right => boolean (left.scalarTruth || right.scalarTruth)
  | _, _, _ => boolean false

/-- Whether `interpreter_execute_unless` runs its body: `inverted.boolean_value`. -/
def unlessRunsBody (condition : Value) : Bool :=
  match operatorApplyLogical .not (some condition) none with
  | boolean inverted => inverted
  | _ => false

/-- `apply_unary_operator` for `TOKEN_BANG`. -/
def applyBang (value : Value) : Value := boolean (!value.valueIsTruthy)

/-- `v && w` and `v || w` as the evaluator computes them, both operands first. -/
def evalAnd (v w : Value) : Value := operatorApplyLogical .andAnd (some v) (some w)

@[inherit_doc evalAnd]
def evalOr (v w : Value) : Value := operatorApplyLogical .orOr (some v) (some w)

/-- The single predicate `truth` decides about all the given values, wherever their truth matters. -/
structure DecidedBy (truth : Value → Bool) (values : Set Value) : Prop where
  ifs : ∀ v ∈ values, ∀ {Body : Type} (body other : Body),
    executeIf other [(v, body)] = if truth v then body else other
  whiles : ∀ v ∈ values, v.whileValueIsTruthy = truth v
  fors : ∀ v ∈ values, v.forShouldContinue = truth v
  ternary : ∀ v ∈ values, ∀ a b, operatorApplyTernary v a b = if truth v then a else b
  unlesses : ∀ v ∈ values, v.unlessRunsBody = !truth v
  bang : ∀ v ∈ values, v.applyBang = boolean (!truth v)
  conj : ∀ v ∈ values, ∀ w ∈ values, evalAnd v w = boolean (truth v && truth w)
  disj : ∀ v ∈ values, ∀ w ∈ values, evalOr v w = boolean (truth v || truth w)
  deMorgan : ∀ v ∈ values, ∀ w ∈ values, applyBang (evalAnd v w) = evalOr (applyBang v) (applyBang w)

/-- The numbers, the booleans, `null` and what has no content: the values all of Drift agrees on. -/
def IsPlain : Value → Prop
  | infinity => False
  | string text => text.all (· = [])
  | array length => length = none
  | _ => True

lemma isPlain_of_same {v : Value} (same : v.valueIsTruthy = v.scalarTruth)
    (ternary : operatorApplyTernary v (boolean true) (boolean false) = boolean v.scalarTruth) : v.IsPlain := by
  cases v with
  | string text =>
    cases text with
    | none => rfl
    | some text => simpa [valueIsTruthy, scalarTruth, IsPlain] using same
  | array length =>
    -- An empty array is false for `if`, but `? :` only asks whether there is an array.
    cases length with
    | none => rfl
    | some length => simp [operatorApplyTernary, scalarTruth] at ternary
  | infinity => simp [valueIsTruthy, scalarTruth] at same
  | integer | float | boolean | null => trivial

lemma IsPlain.agree {v : Value} (plain : v.IsPlain) :
    v.valueIsTruthy = v.scalarTruth ∧ v.whileValueIsTruthy = v.scalarTruth ∧ v.notOperand = v.scalarTruth ∧
      ∀ a b, operatorApplyTernary v a b = if v.scalarTruth then a else b := by
  cases v with
  | string text =>
    cases text with
    | none => exact ⟨rfl, rfl, rfl, fun _ _ => rfl⟩
    | some text =>
      have empty : text = [] := by simpa [IsPlain] using plain
      subst empty
      exact ⟨rfl, rfl, rfl, fun _ _ => rfl⟩
  | array length =>
    cases plain
    exact ⟨rfl, rfl, rfl, fun _ _ => rfl⟩
  | infinity => exact plain.elim
  | integer | float | boolean | null => exact ⟨rfl, rfl, rfl, fun _ _ => rfl⟩

/-- Among some values there is one notion of truth exactly if all of them are plain. -/
theorem decidedBy_iff_isPlain (values : Set Value) :
    (∃ truth, DecidedBy truth values) ↔ ∀ v ∈ values, v.IsPlain := by
  constructor
  · rintro ⟨truth, decided⟩ v mem
    have scalar : v.scalarTruth = truth v := decided.fors v mem
    have branch := decided.ifs v mem true false
    have same : v.valueIsTruthy = v.scalarTruth := by simpa [executeIf, scalar] using branch
    apply isPlain_of_same same
    rw [decided.ternary v mem, scalar]
    cases truth v <;> rfl
  · intro plain
    have agree := fun v mem => (plain v mem).agree
    refine ⟨scalarTruth, ?_, fun v mem => (agree v mem).2.1, fun _ _ => rfl,
      fun v mem => (agree v mem).2.2.2, ?_, ?_, fun _ _ _ _ => rfl, fun _ _ _ _ => rfl, ?_⟩
    · intro v mem Body body other
      rw [executeIf, (agree v mem).1, executeIf]
    · intro v mem
      rw [unlessRunsBody, operatorApplyLogical, (agree v mem).2.2.1]
    · intro v mem
      rw [applyBang, (agree v mem).1]
    · intro v first w second
      rw [applyBang, applyBang, applyBang, (agree v first).1, (agree w second).1]
      exact congrArg boolean (Bool.not_and _ _)

/-- The text `a` is true for `while` and false for `for`, and breaks De Morgan's law. -/
theorem letter_undecided : (¬∃ truth, DecidedBy truth {string (some [97])}) ∧
    applyBang (evalAnd (string (some [97])) (string (some [97]))) = boolean true ∧
      evalOr (applyBang (string (some [97]))) (applyBang (string (some [97]))) = boolean false := by
  constructor
  · intro ⟨truth, decided⟩
    have loops := (decided.whiles _ rfl).trans (decided.fors _ rfl).symm
    exact absurd loops (by decide)
  · decide

end Value

end Galio

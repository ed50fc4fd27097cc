import Treewalk.Evaluation.Error

/-! What the operators do to evaluated operands.

Integer arithmetic wraps around at 64 bits; division truncates toward zero. Equality is defined between two
integers, two texts or two truth values only. -/
namespace Treewalk

def Value.simpleEqual? : Value → Value → Option Bool
  | .int a, .int b => some (decide (a = b))
  | .str a, .str b => some (decide (a = b))
  | .bool a, .bool b => some (decide (a = b))
  | _, _ => none

def Value.isSimple : Value → Bool
  | .int _ => true
  | .str _ => true
  | .bool _ => true
  | _ => false

theorem Value.simpleEqual?_eq_none {a b : Value} (h : a.isSimple = false ∨ b.isSimple = false) :
    a.simpleEqual? b = none := by
  unfold simpleEqual?
  split
  · rcases h with h | h <;> cases h
  · rcases h with h | h <;> cases h
  · rcases h with h | h <;> cases h
  · rfl

namespace Operator

open Evaluation

def mismatch (operator : Operator) (left right : Value) : Except Cause Value :=
  .error (.typeMismatch (.operands operator left.kind right.kind))

def operate (operator : Operator) (left right : Value) : Except Cause Value :=
  match operator, left, right with
  | add, .int a, .int b => .ok (.int (a + b))
  | add, .str a, .str b => .ok (.str (a ++ b))
  | add, .int a, .str b => .ok (.str (Value.decimal a ++ b))
  | add, .str a, .int b => .ok (.str (a ++ Value.decimal b))
  | sub, .int a, .int b => .ok (.int (a - b))
  | mul, .int a, .int b => .ok (.int (a * b))
  | div, .int a, .int b => if b = 0 then .error .divisionByZero else .ok (.int (a / b))
  | rem, .int a, .int b => if b = 0 then .error .divisionByZero else .ok (.int (a % b))
  | eq, a, b =>
      match a.simpleEqual? b with
      | some equal => .ok (.bool equal)
      | none => mismatch .eq a b
  | neq, a, b =>
      match a.simpleEqual? b with
      | some equal => .ok (.bool !equal)
      | none => mismatch .neq a b
  | lt, .int a, .int b => .ok (.bool (decide (a < b)))
  | gt, .int a, .int b => .ok (.bool (decide (b < a)))
  | lte, .int a, .int b => .ok (.bool (decide (a ≤ b)))
  | gte, .int a, .int b => .ok (.bool (decide (b ≤ a)))
  | and, .bool a, .bool b => .ok (.bool (a && b))
  | or, .bool a, .bool b => .ok (.bool (a || b))
  | operator, a, b => mismatch operator a b

/-- Pairs and functions fit no operator. -/
theorem operate_eq_mismatch {operator : Operator} {a b : Value} (h : a.isSimple = false ∨ b.isSimple = false) :
    operator.operate a b = operator.mismatch a b := by
  have hequal := Value.simpleEqual?_eq_none h
  unfold operate
  split <;> first | rfl | (rcases h with h | h <;> cases h) | rw [hequal]

/-- Operations return integers, texts and truth values only. -/
theorem operate_isSimple {operator : Operator} {a b v : Value} (h : operator.operate a b = .ok v) :
    v.isSimple = true := by
  unfold operate at h
  split at h <;> first | (cases h; rfl) | skip
  · split at h <;> cases h
    rfl
  · split at h <;> cases h
    rfl
  · split at h <;> cases h
    rfl
  · split at h <;> cases h
    rfl
  · cases h

theorem operate_error {operator : Operator} {a b : Value} {cause : Cause} (h : operator.operate a b = .error cause) :
    cause = .divisionByZero ∨ cause = .typeMismatch (.operands operator a.kind b.kind) := by
  unfold operate at h
  split at h <;> first | cases h | skip
  · split at h <;> cases h
    exact .inl rfl
  · split at h <;> cases h
    exact .inl rfl
  · split at h <;> cases h
    exact .inr rfl
  · split at h <;> cases h
    exact .inr rfl
  · exact .inr rfl

theorem operator_of_divisionByZero {operator : Operator} {a b : Value}
    (h : operator.operate a b = .error .divisionByZero) : operator = .div ∨ operator = .rem := by
  unfold operate at h
  split at h <;> first | cases h | skip
  · exact .inl rfl
  · exact .inr rfl
  · split at h <;> cases h
  · split at h <;> cases h

def apply (operator : Operator) (left right : Value) (location : Location) : Except EvalError Value :=
  (operator.operate left right).mapError fun cause => ⟨cause, location⟩

end Operator

end Treewalk

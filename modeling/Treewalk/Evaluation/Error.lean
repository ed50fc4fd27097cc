import Treewalk.Value
import Treewalk.Diagnostic.Basic

/-! Why an evaluation fails, and where. -/
namespace Treewalk

inductive Half where
  | first
  | second
deriving DecidableEq, Repr

def Half.name : Half → String
  | first => "first"
  | second => "second"

namespace Evaluation

/-- What was met in place of something else. -/
inductive Mismatch where
  | operands (operator : Operator) (left right : Value.Kind)
  | condition (found : Value.Kind)
  | callee (name : String) (found : Value.Kind)
  /-- A term that is not asked for its half. -/
  | operandTerm (half : Half) (found : Term.Kind)
  | operandValue (half : Half) (found : Value.Kind)
deriving DecidableEq, Repr

namespace Mismatch

def context : Mismatch → String
  | operands operator _ _ => "operator `" ++ operator.name ++ "` (" ++ operator.symbol ++ ")"
  | condition _ => "`if` condition (expected Bool)"
  | callee name _ => "call of `" ++ name ++ "` (expected Function)"
  | operandTerm half _ => "`" ++ half.name ++ "` (expected a Tuple or Var term)"
  | operandValue half _ => "`" ++ half.name ++ "` (expected Tuple)"

def found : Mismatch → String
  | operands _ left right => left.name ++ " and " ++ right.name
  | condition kind => kind.name
  | callee _ kind => kind.name
  | operandTerm _ kind => kind.name ++ " term"
  | operandValue _ kind => kind.name

end Mismatch

inductive Cause where
  | unboundVariable (name : String)
  | arityMismatch (expected received : Nat)
  | typeMismatch (mismatch : Mismatch)
  | divisionByZero
  | depthExceeded (limit : Nat)
deriving DecidableEq, Repr

namespace Cause

def code : Cause → ErrorCode
  | unboundVariable _ => .unboundVariable
  | arityMismatch _ _ => .arityMismatch
  | typeMismatch _ => .typeMismatch
  | divisionByZero => .divisionByZero
  | depthExceeded _ => .stackDepthExceeded

def message : Cause → String
  | unboundVariable name => "unbound variable `" ++ name ++ "`"
  | arityMismatch expected received =>
      "wrong number of arguments: expected " ++ expected.repr ++ ", received " ++ received.repr
  | typeMismatch mismatch => "type mismatch in " ++ mismatch.context ++ ": found " ++ mismatch.found
  | divisionByZero => "division by zero"
  | depthExceeded limit => "maximum evaluation depth of " ++ limit.repr ++ " exceeded"

def help? : Cause → Option String
  | unboundVariable _ => some "names are visible after their `let` and inside functions called from there"
  | depthExceeded _ => some "raise the limit with `--max-depth`"
  | _ => none

end Cause

end Evaluation

structure EvalError where
  cause : Evaluation.Cause
  location : Location
deriving DecidableEq, Repr

namespace EvalError

def diagnostic (e : EvalError) : Diagnostic :=
  { kind := .eval
    code := some e.cause.code
    message := e.cause.message
    location := some e.location
    labels := [⟨e.location, e.cause.code.description⟩]
    notes := []
    help := e.cause.help? }

end EvalError

end Treewalk

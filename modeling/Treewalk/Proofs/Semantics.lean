import Treewalk.Proofs.Nesting

/-! The meaning of terms, without a limit on nested nodes.

`Derivation t env r env' lines` is a tree that shows, rule by rule, that the term `t` gives the result `r`
in the environment `env`, leaves the environment `env'` and prints `lines`. A run that never ends has no
derivation, and no rule speaks of depth: `height`, the number of nodes one inside the other, is read off
the finished tree. -/
namespace Treewalk

def Half.of (half : Half) (a b : Value) : Value :=
  match half with
  | .first => a
  | .second => b

namespace Semantics

open Evaluation

mutual

/-- A term gives a result, leaves an environment and prints lines. Where an operand fails, the node fails
with it: the rules named `…Fails`. -/
inductive Derivation :
    Term → Environment → Except EvalError Value → Environment → List String → Type
  | int (n : Int64) (l : Location) (env : Environment) : Derivation (.int n l) env (.ok (.int n)) env []
  | str (s : String) (l : Location) (env : Environment) : Derivation (.str s l) env (.ok (.str s)) env []
  | bool (b : Bool) (l : Location) (env : Environment) : Derivation (.bool b l) env (.ok (.bool b)) env []
  | varValue {name : String} {l : Location} {env : Environment} {v : Value}
      (bound : env.lookup name = some (.value v)) : Derivation (.var name l) env (.ok v) env []
  /-- A name bound to a function runs the body in the environment at hand. -/
  | varFunction {name : String} {l : Location} {env env' : Environment} {f : Function}
      {r : Except EvalError Value} {out : List String} (bound : env.lookup name = some (.function f))
      (body : Derivation f.body env r env' out) : Derivation (.var name l) env r env' out
  | varUnbound {name : String} {l : Location} {env : Environment} (free : env.lookup name = none) :
      Derivation (.var name l) env (.error ⟨.unboundVariable name, l⟩) env []
  /-- A function literal that is not called runs its body in the environment at hand. -/
  | function {parameters : List Parameter} {body : Term} {l : Location} {env env' : Environment}
      {r : Except EvalError Value} {out : List String} (run : Derivation body env r env' out) :
      Derivation (.function parameters body l) env r env' out
  | callUnbound {name : String} {place l : Location} {arguments : List Term} {env : Environment}
      (free : env.lookup name = none) :
      Derivation (.call (.var name place) arguments l) env (.error ⟨.unboundVariable name, place⟩) env []
  | callValue {name : String} {place l : Location} {arguments : List Term} {env : Environment} {v : Value}
      (bound : env.lookup name = some (.value v)) :
      Derivation (.call (.var name place) arguments l) env
        (.error ⟨.typeMismatch (.callee name v.kind), place⟩) env []
  /-- Any other callee is handed back as it stands, and no argument is evaluated. -/
  | callOther {callee : Term} {arguments : List Term} {l : Location} {env : Environment}
      (notVar : callee.kind ≠ .var) (notFunction : callee.kind ≠ .function) :
      Derivation (.call callee arguments l) env (.ok (.function ⟨[], callee⟩)) env []
  /-- The arity is checked before any argument is evaluated. -/
  | callArity {callee : Term} {arguments : List Term} {l : Location} {env : Environment} {f : Function}
      (callable : Callable env callee f) (arity : f.arity ≠ arguments.length) :
      Derivation (.call callee arguments l) env
        (.error ⟨.arityMismatch f.arity arguments.length, l⟩) env []
  | callArgumentFails {callee : Term} {arguments : List Term} {l : Location} {env env' : Environment}
      {f : Function} {e : EvalError} {out : List String} (callable : Callable env callee f)
      (arity : f.arity = arguments.length) (values : Arguments arguments env (.error e) env' out) :
      Derivation (.call callee arguments l) env (.error e) env' out
  /-- The body runs in a copy of the environment that the arguments leave; the copy is given up. -/
  | callBody {callee : Term} {arguments : List Term} {l : Location} {env env₁ env₂ : Environment}
      {f : Function} {vs : List Value} {r : Except EvalError Value} {out₁ out₂ : List String}
      (callable : Callable env callee f) (arity : f.arity = arguments.length)
      (values : Arguments arguments env (.ok vs) env₁ out₁)
      (body : Derivation f.body (bodyScope env₁ f vs) r env₂ out₂) :
      Derivation (.call callee arguments l) env r env₁ (out₁ ++ out₂)
  /-- A function literal is bound as it stands. -/
  | letFunction {name : Parameter} {parameters : List Parameter} {body next : Term} {place l : Location}
      {env env' : Environment} {r : Except EvalError Value} {out : List String}
      (rest : Derivation next (env.bind name.name (.function ⟨parameters, body⟩)) r env' out) :
      Derivation (.letIn name (.function parameters body place) next l) env r env' out
  | letValue {name : Parameter} {value next : Term} {l : Location} {env env₁ env₂ : Environment} {v : Value}
      {r : Except EvalError Value} {out₁ out₂ : List String} (notFunction : value.kind ≠ .function)
      (head : Derivation value env (.ok v) env₁ out₁)
      (rest : Derivation next (env₁.bind name.name (.value v)) r env₂ out₂) :
      Derivation (.letIn name value next l) env r env₂ (out₁ ++ out₂)
  | letFails {name : Parameter} {value next : Term} {l : Location} {env env' : Environment} {e : EvalError}
      {out : List String} (notFunction : value.kind ≠ .function)
      (head : Derivation value env (.error e) env' out) :
      Derivation (.letIn name value next l) env (.error e) env' out
  | condTrue {condition whenTrue whenFalse : Term} {l : Location} {env env₁ env₂ : Environment}
      {r : Except EvalError Value} {out₁ out₂ : List String}
      (test : Derivation condition env (.ok (.bool true)) env₁ out₁)
      (branch : Derivation whenTrue env₁ r env₂ out₂) :
      Derivation (.cond condition whenTrue whenFalse l) env r env₂ (out₁ ++ out₂)
  | condFalse {condition whenTrue whenFalse : Term} {l : Location} {env env₁ env₂ : Environment}
      {r : Except EvalError Value} {out₁ out₂ : List String}
      (test : Derivation condition env (.ok (.bool false)) env₁ out₁)
      (branch : Derivation whenFalse env₁ r env₂ out₂) :
      Derivation (.cond condition whenTrue whenFalse l) env r env₂ (out₁ ++ out₂)
  | condMismatch {condition whenTrue whenFalse : Term} {l : Location} {env env' : Environment} {v : Value}
      {out : List String} (test : Derivation condition env (.ok v) env' out) (notBool : v.kind ≠ .bool) :
      Derivation (.cond condition whenTrue whenFalse l) env
        (.error ⟨.typeMismatch (.condition v.kind), condition.location⟩) env' out
  | condFails {condition whenTrue whenFalse : Term} {l : Location} {env env' : Environment} {e : EvalError}
      {out : List String} (test : Derivation condition env (.error e) env' out) :
      Derivation (.cond condition whenTrue whenFalse l) env (.error e) env' out
  /-- Both operands are evaluated, the left one first, whatever the operator. -/
  | binary {operator : Operator} {left right : Term} {l : Location} {env env₁ env₂ : Environment}
      {a b : Value} {out₁ out₂ : List String} (first : Derivation left env (.ok a) env₁ out₁)
      (second : Derivation right env₁ (.ok b) env₂ out₂) :
      Derivation (.binary operator left right l) env (operator.apply a b l) env₂ (out₁ ++ out₂)
  | binaryLeftFails {operator : Operator} {left right : Term} {l : Location} {env env' : Environment}
      {e : EvalError} {out : List String} (first : Derivation left env (.error e) env' out) :
      Derivation (.binary operator left right l) env (.error e) env' out
  | binaryRightFails {operator : Operator} {left right : Term} {l : Location} {env env₁ env₂ : Environment}
      {a : Value} {e : EvalError} {out₁ out₂ : List String} (first : Derivation left env (.ok a) env₁ out₁)
      (second : Derivation right env₁ (.error e) env₂ out₂) :
      Derivation (.binary operator left right l) env (.error e) env₂ (out₁ ++ out₂)
  | tuple {left right : Term} {l : Location} {env env₁ env₂ : Environment} {a b : Value}
      {out₁ out₂ : List String} (first : Derivation left env (.ok a) env₁ out₁)
      (second : Derivation right env₁ (.ok b) env₂ out₂) :
      Derivation (.tuple left right l) env (.ok (.tuple a b)) env₂ (out₁ ++ out₂)
  | tupleFirstFails {left right : Term} {l : Location} {env env' : Environment} {e : EvalError}
      {out : List String} (first : Derivation left env (.error e) env' out) :
      Derivation (.tuple left right l) env (.error e) env' out
  | tupleSecondFails {left right : Term} {l : Location} {env env₁ env₂ : Environment} {a : Value}
      {e : EvalError} {out₁ out₂ : List String} (first : Derivation left env (.ok a) env₁ out₁)
      (second : Derivation right env₁ (.error e) env₂ out₂) :
      Derivation (.tuple left right l) env (.error e) env₂ (out₁ ++ out₂)
  | first {operand : Term} {l : Location} {env env' : Environment} {r : Except EvalError Value}
      {out : List String} (half : Projection .first operand env r env' out) :
      Derivation (.first operand l) env r env' out
  | second {operand : Term} {l : Location} {env env' : Environment} {r : Except EvalError Value}
      {out : List String} (half : Projection .second operand env r env' out) :
      Derivation (.second operand l) env r env' out
  | print {operand : Term} {l : Location} {env env' : Environment} {v : Value} {out : List String}
      (run : Derivation operand env (.ok v) env' out) :
      Derivation (.print operand l) env (.ok v) env' (out ++ [v.text])
  | printFails {operand : Term} {l : Location} {env env' : Environment} {e : EvalError} {out : List String}
      (run : Derivation operand env (.error e) env' out) :
      Derivation (.print operand l) env (.error e) env' out

/-- A half of a pair is asked for. Only a pair or a name may be asked; everything else is refused unseen. -/
inductive Projection :
    Half → Term → Environment → Except EvalError Value → Environment → List String → Type
  | refused {half : Half} {operand : Term} {env : Environment} (notTuple : operand.kind ≠ .tuple)
      (notVar : operand.kind ≠ .var) :
      Projection half operand env
        (.error ⟨.typeMismatch (.operandTerm half operand.kind), operand.location⟩) env []
  | pair {half : Half} {operand : Term} {env env' : Environment} {a b : Value} {out : List String}
      (allowed : operand.kind = .tuple ∨ operand.kind = .var)
      (run : Derivation operand env (.ok (.tuple a b)) env' out) :
      Projection half operand env (.ok (half.of a b)) env' out
  | mismatch {half : Half} {operand : Term} {env env' : Environment} {v : Value} {out : List String}
      (allowed : operand.kind = .tuple ∨ operand.kind = .var)
      (run : Derivation operand env (.ok v) env' out) (notPair : v.kind ≠ .tuple) :
      Projection half operand env
        (.error ⟨.typeMismatch (.operandValue half v.kind), operand.location⟩) env' out
  | fails {half : Half} {operand : Term} {env env' : Environment} {e : EvalError} {out : List String}
      (allowed : operand.kind = .tuple ∨ operand.kind = .var)
      (run : Derivation operand env (.error e) env' out) :
      Projection half operand env (.error e) env' out

/-- Arguments are evaluated from left to right, up to the first that fails. -/
inductive Arguments :
    List Term → Environment → Except EvalError (List Value) → Environment → List String → Type
  | nil (env : Environment) : Arguments [] env (.ok []) env []
  | cons {t : Term} {rest : List Term} {env env₁ env₂ : Environment} {v : Value} {vs : List Value}
      {out₁ out₂ : List String} (head : Derivation t env (.ok v) env₁ out₁)
      (tail : Arguments rest env₁ (.ok vs) env₂ out₂) :
      Arguments (t :: rest) env (.ok (v :: vs)) env₂ (out₁ ++ out₂)
  | headFails {t : Term} {rest : List Term} {env env' : Environment} {e : EvalError} {out : List String}
      (head : Derivation t env (.error e) env' out) : Arguments (t :: rest) env (.error e) env' out
  | tailFails {t : Term} {rest : List Term} {env env₁ env₂ : Environment} {v : Value} {e : EvalError}
      {out₁ out₂ : List String} (head : Derivation t env (.ok v) env₁ out₁)
      (tail : Arguments rest env₁ (.error e) env₂ out₂) :
      Arguments (t :: rest) env (.error e) env₂ (out₁ ++ out₂)

end

mutual

/-- Number of nodes one inside the other. A rule without an operand to evaluate is a single node. -/
def Derivation.height {t : Term} {env env' : Environment} {r : Except EvalError Value} {out : List String} :
    Derivation t env r env' out → Nat
  | .int .. => 1
  | .str .. => 1
  | .bool .. => 1
  | .varValue _ => 1
  | .varFunction _ body => 1 + body.height
  | .varUnbound _ => 1
  | .function run => 1 + run.height
  | .callUnbound _ => 1
  | .callValue _ => 1
  | .callOther _ _ => 1
  | .callArity _ _ => 1
  | .callArgumentFails _ _ values => 1 + values.height
  | .callBody _ _ values body => 1 + max values.height body.height
  | .letFunction rest => 1 + rest.height
  | .letValue _ head rest => 1 + max head.height rest.height
  | .letFails _ head => 1 + head.height
  | .condTrue test branch => 1 + max test.height branch.height
  | .condFalse test branch => 1 + max test.height branch.height
  | .condMismatch test _ => 1 + test.height
  | .condFails test => 1 + test.height
  | .binary first second => 1 + max first.height second.height
  | .binaryLeftFails first => 1 + first.height
  | .binaryRightFails first second => 1 + max first.height second.height
  | .tuple first second => 1 + max first.height second.height
  | .tupleFirstFails first => 1 + first.height
  | .tupleSecondFails first second => 1 + max first.height second.height
  | .first half => 1 + half.height
  | .second half => 1 + half.height
  | .print run => 1 + run.height
  | .printFails run => 1 + run.height

def Projection.height {half : Half} {t : Term} {env env' : Environment} {r : Except EvalError Value}
    {out : List String} : Projection half t env r env' out → Nat
  | .refused _ _ => 0
  | .pair _ run => run.height
  | .mismatch _ run _ => run.height
  | .fails _ run => run.height

def Arguments.height {ts : List Term} {env env' : Environment} {r : Except EvalError (List Value)}
    {out : List String} : Arguments ts env r env' out → Nat
  | .nil _ => 0
  | .cons head tail => max head.height tail.height
  | .headFails head => head.height
  | .tailFails head tail => max head.height tail.height

end

end Semantics

end Treewalk

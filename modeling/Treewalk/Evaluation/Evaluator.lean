import Treewalk.Environment
import Treewalk.Printer
import Treewalk.Evaluation.Operate

/-! Running terms.

`step` says what one node does, given what its subterms do. `nested` counts the nodes under way, one inside
the other, and refuses a node beyond the limit; `eval` closes the loop. What was bound and printed before a
failure stays.

Calls are dynamically scoped: a body sees the caller's names. A function literal that is not called, and a
name bound to one, run the body in place. -/
namespace Treewalk

namespace Evaluation

/-- What a run changes: the names in scope, the lines printed and the number of nodes under way. -/
structure State where
  environment : Environment
  printer : Printer
  depth : Nat

end Evaluation

/-- A computation on a state that may fail; the state it has reached survives a failure. -/
abbrev Evaluation := EStateM EvalError Evaluation.State

namespace Evaluation

def fail {α : Type} (cause : Cause) (location : Location) : Evaluation α := throw ⟨cause, location⟩

def lookup (name : String) : Evaluation (Option Binding) := do
  let s ← get
  return s.environment.lookup name

def define (name : String) (binding : Binding) : Evaluation Unit :=
  modify fun s => { s with environment := s.environment.bind name binding }

def println (line : String) : Evaluation Unit :=
  modify fun s => { s with printer := s.printer.println line }

@[simp] theorem fail_run {α : Type} (cause : Cause) (location : Location) (s : State) :
    (fail cause location : Evaluation α) s = .error ⟨cause, location⟩ s := rfl

@[simp] theorem lookup_run (name : String) (s : State) :
    lookup name s = .ok (s.environment.lookup name) s := rfl

@[simp] theorem define_run (name : String) (binding : Binding) (s : State) :
    define name binding s = .ok () { s with environment := s.environment.bind name binding } := rfl

@[simp] theorem println_run (line : String) (s : State) :
    println line s = .ok () { s with printer := s.printer.println line } := rfl

/-- Runs a computation in a copy of the environment with further names; the copy is given up afterwards,
also after a failure. -/
def inFork {α : Type} (values : List (String × Value)) (run : Evaluation α) : Evaluation α := fun s =>
  match run { s with environment := s.environment.fork values } with
  | .ok a s' => .ok a { s' with environment := s.environment }
  | .error e s' => .error e { s' with environment := s.environment }

def evalAll (eval : Term → Evaluation Value) : List Term → Evaluation (List Value)
  | [] => return []
  | t :: rest => do
      let v ← eval t
      let vs ← evalAll eval rest
      return v :: vs

/-- Calls a function. Its arity is checked before any argument is evaluated, and its body runs in a copy
of the environment that the arguments leave. -/
def call (eval : Term → Evaluation Value) (f : Function) (arguments : List Term) (location : Location) :
    Evaluation Value :=
  if f.arity = arguments.length then do
    let values ← evalAll eval arguments
    inFork ((f.parameters.map (·.name)).zip values) (eval f.body)
  else fail (.arityMismatch f.arity arguments.length) location

/-- A call node. A callee that is neither a name nor a function literal is handed back as it stands. -/
def callTerm (eval : Term → Evaluation Value) (callee : Term) (arguments : List Term)
    (location : Location) : Evaluation Value :=
  match callee with
  | .var name place => do
      match ← lookup name with
      | some (.function f) => call eval f arguments location
      | some (.value v) => fail (.typeMismatch (.callee name v.kind)) place
      | none => fail (.unboundVariable name) place
  | .function parameters body _ => call eval ⟨parameters, body⟩ arguments location
  | other => return .function ⟨[], other⟩

def isProjectable : Term → Bool
  | .tuple .. => true
  | .var .. => true
  | _ => false

def project (eval : Term → Evaluation Value) (half : Half) (operand : Term) : Evaluation Value :=
  if isProjectable operand then do
    match ← eval operand with
    | .tuple a b =>
        match half with
        | .first => return a
        | .second => return b
    | other => fail (.typeMismatch (.operandValue half other.kind)) operand.location
  else fail (.typeMismatch (.operandTerm half operand.kind)) operand.location

def evalVar (eval : Term → Evaluation Value) (name : String) (location : Location) : Evaluation Value := do
  match ← lookup name with
  | some (.value v) => return v
  | some (.function f) => eval f.body
  | none => fail (.unboundVariable name) location

/-- What a name is bound to: a function literal stays as it is, everything else is evaluated. -/
def evalBinding (eval : Term → Evaluation Value) : Term → Evaluation Binding
  | .function parameters body _ => return .function ⟨parameters, body⟩
  | other => do
      let v ← eval other
      return .value v

/-- One node, given what subterms and bodies do. Both operands are always evaluated. -/
def step (eval : Term → Evaluation Value) : Term → Evaluation Value
  | .int n _ => return .int n
  | .str s _ => return .str s
  | .bool b _ => return .bool b
  | .var name location => evalVar eval name location
  | .function _ body _ => eval body
  | .call callee arguments location => callTerm eval callee arguments location
  | .letIn name value next _ => do
      let binding ← evalBinding eval value
      define name.name binding
      eval next
  | .cond condition whenTrue whenFalse _ => do
      match ← eval condition with
      | .bool true => eval whenTrue
      | .bool false => eval whenFalse
      | other => fail (.typeMismatch (.condition other.kind)) condition.location
  | .binary operator left right location => do
      let a ← eval left
      let b ← eval right
      match operator.operate a b with
      | .ok v => return v
      | .error cause => fail cause location
  | .tuple first second _ => do
      let a ← eval first
      let b ← eval second
      return .tuple a b
  | .first operand _ => project eval .first operand
  | .second operand _ => project eval .second operand
  | .print operand _ => do
      let v ← eval operand
      println v.text
      return v

/-- Runs a node inside those under way. At the limit it is refused; otherwise it counts until it ends, in a
failure too. -/
def nested {α : Type} (limit : Nat) (location : Location) (run : Evaluation α) : Evaluation α := fun s =>
  if s.depth < limit then
    match run { s with depth := s.depth + 1 } with
    | .ok a s' => .ok a { s' with depth := s'.depth - 1 }
    | .error e s' => .error e { s' with depth := s'.depth - 1 }
  else .error ⟨.depthExceeded limit, location⟩ s

def evalWithin (limit : Nat) : Nat → Term → Evaluation Value
  | 0, t => fail (.depthExceeded limit) t.location
  | room + 1, t => nested limit t.location (step (evalWithin limit room) t)

@[simp] theorem evalWithin_zero (limit : Nat) (t : Term) :
    evalWithin limit 0 t = fail (.depthExceeded limit) t.location := rfl

@[simp] theorem evalWithin_succ (limit room : Nat) (t : Term) :
    evalWithin limit (room + 1) t = nested limit t.location (step (evalWithin limit room) t) := rfl

/-- Evaluates a term. What the nodes under way leave of the limit bounds the recursion. -/
def eval (limit : Nat) (t : Term) : Evaluation Value := fun s => evalWithin limit (limit - s.depth) t s

end Evaluation

structure Evaluator where
  limit : Nat
  printer : Printer
  depth : Nat

namespace Evaluator

def defaultLimit : Nat := 1000000

def buffered (limit : Nat) : Evaluator := ⟨limit, .fresh, 0⟩

def onTerminal (limit : Nat) : Evaluator := ⟨limit, .terminal, 0⟩

def evaluate (evaluator : Evaluator) (t : Term) (env : Environment) :
    Except EvalError Value × Environment × Evaluator :=
  match Evaluation.eval evaluator.limit t ⟨env, evaluator.printer, evaluator.depth⟩ with
  | .ok v s => (.ok v, s.environment, ⟨evaluator.limit, s.printer, s.depth⟩)
  | .error e s => (.error e, s.environment, ⟨evaluator.limit, s.printer, s.depth⟩)

/-- The result of running a program from the empty environment, with no node under way. -/
def run (evaluator : Evaluator) (p : Program) : Except EvalError Value × Evaluator :=
  let (result, _, evaluator) := { evaluator with depth := 0 }.evaluate p.expression .empty
  (result, evaluator)

end Evaluator

end Treewalk

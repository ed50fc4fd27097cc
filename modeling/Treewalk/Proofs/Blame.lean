import Treewalk.Proofs.Subterms

/-! Errors point at the node that is at fault.

An error travels unchanged through all the nodes under way, so its location is that of a node of the term or of a
function that was bound at the start, and the node is of the kind that the cause of the error speaks of. -/
namespace Treewalk.Evaluation

/-- The node `n` is one that a failure may be put down to. Some failures are found by the node around `n`, which then is
in reach as well. -/
inductive AtFault (limit : Nat) (reach : Term → Prop) : Term → Cause → Prop
  | unbound {name : String} {l : Location} : AtFault limit reach (.var name l) (.unboundVariable name)
  | arity {callee : Term} {arguments : List Term} {l : Location} {expected : Nat}
      (differs : expected ≠ arguments.length) :
      AtFault limit reach (.call callee arguments l) (.arityMismatch expected arguments.length)
  | division {operator : Operator} {left right : Term} {l : Location} (divides : operator = .div ∨ operator = .rem) :
      AtFault limit reach (.binary operator left right l) .divisionByZero
  | operands {operator : Operator} {left right : Term} {l : Location} {a b : Value.Kind} :
      AtFault limit reach (.binary operator left right l) (.typeMismatch (.operands operator a b))
  | condition {n whenTrue whenFalse : Term} {l : Location} {found : Value.Kind}
      (tested : reach (.cond n whenTrue whenFalse l)) : AtFault limit reach n (.typeMismatch (.condition found))
  | operandTerm {m n : Term} {half : Half} (asked : reach m) (asks : AsksFor m half n) :
      AtFault limit reach n (.typeMismatch (.operandTerm half n.kind))
  | operandValue {m n : Term} {half : Half} {found : Value.Kind} (asked : reach m) (asks : AsksFor m half n) :
      AtFault limit reach n (.typeMismatch (.operandValue half found))
  | callee {name : String} {place l : Location} {arguments : List Term} {found : Value.Kind}
      (called : reach (.call (.var name place) arguments l)) :
      AtFault limit reach (.var name place) (.typeMismatch (.callee name found))
  | depth {n : Term} : AtFault limit reach n (.depthExceeded limit)

/-- A node in reach is at fault, and the error carries its location. -/
def Blames (limit : Nat) (reach : Term → Prop) (e : EvalError) : Prop :=
  ∃ n, reach n ∧ e.location = n.location ∧ AtFault limit reach n e.cause

theorem AsksFor.mem_children {t operand : Term} {half : Half} (h : AsksFor t half operand) : operand ∈ t.children := by
  cases h <;> exact List.mem_cons_self

theorem blames_operation {limit : Nat} {reach : Term → Prop} {operator : Operator} {left right : Term} {l : Location}
    {a b : Value} {cause : Cause} (h : reach (.binary operator left right l))
    (failed : operator.operate a b = .error cause) : Blames limit reach ⟨cause, l⟩ := by
  refine ⟨_, h, rfl, ?_⟩
  rcases Operator.operate_error failed with rfl | rfl
  · exact .division (Operator.operator_of_divisionByZero failed)
  · exact .operands

theorem Raises.blames {limit d : Nat} {reach : Term → Prop} {env : Environment} {t : Term} {e : EvalError}
    (hraises : Raises limit d env t e) (h : t.MadeOf reach) : Blames limit reach e := by
  have hself : reach t := h.self
  have hchild : ∀ u ∈ t.children, reach u := fun u hu => (h.child hu).self
  cases hraises with
  | depth full => exact ⟨t, hself, rfl, .depth⟩
  | unbound free => exact ⟨_, hself, rfl, .unbound⟩
  | unboundCallee free => exact ⟨_, hchild _ List.mem_cons_self, rfl, .unbound⟩
  | calleeValue bound => exact ⟨_, hchild _ List.mem_cons_self, rfl, .callee hself⟩
  | arity callable differs => exact ⟨_, hself, rfl, .arity differs⟩
  | condition notBool => exact ⟨_, hchild _ List.mem_cons_self, rfl, .condition hself⟩
  | operation failed => exact blames_operation hself failed
  | operandTerm asks refused => exact ⟨_, hchild _ asks.mem_children, rfl, .operandTerm hself asks⟩
  | operandValue asks notPair => exact ⟨_, hchild _ asks.mem_children, rfl, .operandValue hself asks⟩

/-- Runs of code that is in reach, which bind none but functions in reach. -/
def blaming (limit : Nat) (reach : Term → Prop) : Invariant limit Unit where
  admits _ _ env t := env.MadeOf reach ∧ t.MadeOf reach
  becomes _ env env' := env.MadeOf reach → env'.MadeOf reach
  value := .any
  error := Blames limit reach
  becomes_refl _ _ h := h
  becomes_trans h h' := fun henv => h' (h henv)
  admits_later h hbecomes := ⟨hbecomes h.1, h.2⟩
  operand h hu := ⟨h.1, h.2.child (Term.operands_subset_children _ hu)⟩
  forced h hf := ⟨h.1, h.1 _ _ hf⟩
  called {_ _ _ _ _ _ _ f vs} h hc _ hbecomes _ _ :=
    ⟨(), (hbecomes h.1).bodyScope f vs, hc.madeOf h.1 (h.2.child List.mem_cons_self)⟩
  boundFunction {_ _ env name parameters body next place l} h := by
    have hbind : env.MadeOf reach → (env.bind name.name (.function ⟨parameters, body⟩)).MadeOf reach :=
      fun henv => henv.bindLiteral h.2
    exact ⟨hbind, hbind h.1, h.2.child (by simp [Term.children])⟩
  boundValue {_ _ env name term next l v} h _ _ := by
    have hbind : env.MadeOf reach → (env.bind name.name (.value v)).MadeOf reach := fun henv => henv.bindValue _ v
    exact ⟨hbind, hbind h.1, h.2.child (by simp [Term.children])⟩
  held _ _ := trivial
  handedBack _ _ _ := trivial
  raised h hraises := hraises.blames h.2

end Evaluation

/-- The location of an error is that of a node which the term holds or a function that was bound, and which is at fault.
Functions inside values hold no such node. -/
theorem Evaluator.evaluate_error_at_fault (e : Evaluator) (t : Term) (env : Environment) (err : EvalError)
    (h : (e.evaluate t env).1 = .error err) :
    ∃ n, Evaluation.InReach env t n ∧ err.location = n.location ∧
      Evaluation.AtFault e.limit (Evaluation.InReach env t) n err.cause := by
  have hadmits := Evaluation.madeOf_inReach env t
  obtain ⟨-, -, herror⟩ := (Evaluation.blaming e.limit (Evaluation.InReach env t)).evaluate_upholds (k := ()) hadmits
  exact herror err h

/-- The body of `f` asks for a half of what it is given, a function that would divide by zero if it ran. The error points
into the body of `f`. -/
theorem Evaluator.evaluate_error_at_fault_in_body :
    let here : Location := ⟨⟨1, 5⟩, "here"⟩
    let inside : Location := ⟨⟨7, 9⟩, "inside"⟩
    let hidden : Location := ⟨⟨3, 4⟩, "hidden"⟩
    let quotient := Term.binary .div (.int 1 hidden) (.int 0 hidden) hidden
    let env := (Environment.empty.bind "f" (.function ⟨[⟨"n", here⟩], .first (.var "n" inside) here⟩)).bind "g"
      (.value (.function ⟨[], quotient⟩))
    let t := Term.call (.var "f" here) [.var "g" here] here
    let err : EvalError := ⟨.typeMismatch (.operandValue .first .function), inside⟩
    ((buffered 9).evaluate t env).1 = .error err ∧
      ∃ n, Evaluation.InReach env t n ∧ err.location = n.location ∧
        Evaluation.AtFault 9 (Evaluation.InReach env t) n err.cause := by
  intro here inside hidden quotient env t err
  have hrun : ((buffered 9).evaluate t env).1 = .error err := rfl
  exact ⟨hrun, evaluate_error_at_fault (buffered 9) t env err hrun⟩

end Treewalk

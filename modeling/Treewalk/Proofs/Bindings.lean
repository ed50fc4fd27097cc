import Treewalk.Proofs.Runs

/-! The bindings that an evaluation makes.

Names are bound in place, so that an evaluation leaves the environment that it found with further bindings made on top,
one after the other. The trail of a term lists them: those of the nodes that it enters in the environment at hand, up to
the first failure. What a called body binds is not on it, since the body works on a copy. -/
namespace Treewalk

namespace Environment

def bindAll (env : Environment) (bindings : List (String × Binding)) : Environment :=
  bindings.foldl (fun env entry => env.bind entry.1 entry.2) env

@[simp] theorem bindAll_nil (env : Environment) : env.bindAll [] = env := rfl

@[simp] theorem bindAll_cons (env : Environment) (entry : String × Binding) (rest : List (String × Binding)) :
    env.bindAll (entry :: rest) = (env.bind entry.1 entry.2).bindAll rest := rfl

@[simp] theorem bindAll_append (env : Environment) (xs ys : List (String × Binding)) :
    env.bindAll (xs ++ ys) = (env.bindAll xs).bindAll ys := List.foldl_append

def valueBindings (values : List (String × Value)) : List (String × Binding) :=
  values.map fun pair => (pair.1, .value pair.2)

theorem fork_eq_bindAll (env : Environment) (values : List (String × Value)) :
    env.fork values = env.bindAll (valueBindings values) := by
  simp only [fork, bindAll, valueBindings, List.foldl_map]

end Environment

namespace Evaluation

/-- From each state, the bindings made on the environment at hand, oldest first. -/
abbrev Trail := State → List (String × Binding)

def Trail.none : Trail := fun _ => []

/-- The trail of a computation and, if it succeeds, of what comes next. -/
def Trail.andThen {α : Type} (trail : Trail) (m : Evaluation α) (next : α → Trail) : Trail := fun s =>
  trail s ++ match m s with
    | .ok a s' => next a s'
    | .error _ _ => []

/-! ### Trails of nodes, given those of the terms that are evaluated -/

section Steps

variable (eval : Term → Evaluation Value) (trail : Term → Trail)

def trailAll : List Term → Trail
  | [] => .none
  | t :: rest => (trail t).andThen (eval t) fun _ => trailAll rest

/-- Of a call, the arguments alone leave bindings. -/
def trailCall (f : Function) (arguments : List Term) : Trail :=
  if f.arity = arguments.length then trailAll eval trail arguments else .none

def trailCallTerm (callee : Term) (arguments : List Term) : Trail :=
  match callee with
  | .var name _ => fun s =>
      match s.environment.lookup name with
      | some (.function f) => trailCall eval trail f arguments s
      | _ => []
  | .function parameters body _ => trailCall eval trail ⟨parameters, body⟩ arguments
  | _ => .none

def trailProject (operand : Term) : Trail := if isProjectable operand then trail operand else .none

/-- A name that stands for a function runs the body in place. -/
def trailVar (name : String) : Trail := fun s =>
  match s.environment.lookup name with
  | some (.function f) => trail f.body s
  | _ => []

def trailBinding : Term → Trail
  | .function .. => .none
  | other => trail other

/-- A binding form adds its own binding behind those of its value and in front of what comes next. -/
def trailStep : Term → Trail
  | .int .. => .none
  | .str .. => .none
  | .bool .. => .none
  | .var name _ => trailVar trail name
  | .function _ body _ => trail body
  | .call callee arguments _ => trailCallTerm eval trail callee arguments
  | .letIn name value next _ =>
      (trailBinding trail value).andThen (evalBinding eval value) fun binding s =>
        (name.name, binding) :: trail next { s with environment := s.environment.bind name.name binding }
  | .cond condition whenTrue whenFalse _ =>
      (trail condition).andThen (eval condition) fun v =>
        match v with
        | .bool true => trail whenTrue
        | .bool false => trail whenFalse
        | _ => .none
  | .binary _ left right _ => trailAll eval trail [left, right]
  | .tuple left right _ => trailAll eval trail [left, right]
  | .first operand _ => trailProject trail operand
  | .second operand _ => trailProject trail operand
  | .print operand _ => trail operand

end Steps

def trailNested (limit : Nat) (trail : Trail) : Trail := fun s =>
  if s.depth < limit then trail { s with depth := s.depth + 1 } else []

def trailWithin (limit : Nat) : Nat → Term → Trail
  | 0, _ => .none
  | room + 1, t => trailNested limit (trailStep (evalWithin limit room) (trailWithin limit room) t)

def trail (limit : Nat) (t : Term) : Trail := fun s => trailWithin limit (limit - s.depth) t s

/-! ### What a trail leads to -/

section Made

variable {α β : Type}

def environmentLeft : EStateM.Result EvalError State α → Environment
  | .ok _ s => s.environment
  | .error _ s => s.environment

/-- A computation makes the bindings of a trail and changes the environment in no other way. -/
def Makes (m : Evaluation α) (trail : Trail) : Prop :=
  ∀ s, environmentLeft (m s) = s.environment.bindAll (trail s)

theorem Makes.pure (a : α) : Makes (Pure.pure a) .none := fun _ => rfl

theorem Makes.fail (cause : Cause) (location : Location) : Makes (fail cause location : Evaluation α) .none :=
  fun _ => rfl

theorem Makes.println (line : String) : Makes (println line) .none := fun _ => rfl

theorem Makes.define {m : Evaluation α} {trail : Trail} (name : String) (binding : Binding) (hm : Makes m trail) :
    Makes (define name binding >>= fun _ => m)
      fun s => (name, binding) :: trail { s with environment := s.environment.bind name binding } :=
  fun s => hm { s with environment := s.environment.bind name binding }

theorem Makes.bind {m : Evaluation α} {f : α → Evaluation β} {trail : Trail} {next : α → Trail} (hm : Makes m trail)
    (hf : ∀ a, Makes (f a) (next a)) : Makes (m >>= f) (trail.andThen m next) := by
  intro s
  have hs := hm s
  rw [bind_run, Trail.andThen, Environment.bindAll_append, ← hs]
  cases m s with
  | error e s' => rfl
  | ok a s' => exact hf a s'

theorem Makes.last {m : Evaluation α} {f : α → Evaluation β} {trail : Trail} (hm : Makes m trail)
    (hf : ∀ a, Makes (f a) .none) : Makes (m >>= f) trail := by
  have hnone : trail.andThen m (fun _ => .none) = trail := by
    funext s
    unfold Trail.andThen
    cases m s <;> exact List.append_nil _
  exact hnone ▸ Makes.bind hm hf

theorem Makes.inFork (values : List (String × Value)) (m : Evaluation α) : Makes (inFork values m) .none := by
  intro s
  unfold Evaluation.inFork
  cases m { s with environment := s.environment.fork values } <;> rfl

theorem Makes.nested {m : Evaluation α} {trail : Trail} (limit : Nat) (location : Location) (hm : Makes m trail) :
    Makes (nested limit location m) (trailNested limit trail) := by
  intro s
  unfold Evaluation.nested trailNested
  split
  · rw [← hm { s with depth := s.depth + 1 }]
    cases m { s with depth := s.depth + 1 } <;> rfl
  · rfl

end Made

section Steps

variable {eval : Term → Evaluation Value} {trail : Term → Trail} (he : ∀ t, Makes (eval t) (trail t))

include he

theorem evalAll_makes (ts : List Term) : Makes (evalAll eval ts) (trailAll eval trail ts) := by
  induction ts with
  | nil => exact .pure []
  | cons t rest ih => exact .bind (he t) fun v => .last ih fun vs => .pure (v :: vs)

theorem call_makes (f : Function) (arguments : List Term) (location : Location) :
    Makes (call eval f arguments location) (trailCall eval trail f arguments) := by
  unfold call trailCall
  split
  · exact .last (evalAll_makes he arguments) fun values => .inFork _ (eval f.body)
  · exact .fail _ _

theorem callTerm_makes (callee : Term) (arguments : List Term) (location : Location) :
    Makes (callTerm eval callee arguments location) (trailCallTerm eval trail callee arguments) := by
  cases callee with
  | var name place =>
    intro s
    cases hb : s.environment.lookup name with
    | none => simp [callTerm, trailCallTerm, hb, environmentLeft]
    | some binding =>
      cases binding with
      | value v => simp [callTerm, trailCallTerm, hb, environmentLeft]
      | function f => simpa [callTerm, trailCallTerm, hb] using call_makes he f arguments location s
  | function parameters body place => exact call_makes he ⟨parameters, body⟩ arguments location
  | _ => exact .pure _

theorem project_makes (half : Half) (operand : Term) :
    Makes (project eval half operand) (trailProject trail operand) := by
  unfold project trailProject
  split
  · refine .last (he operand) fun v => ?_
    split
    · cases half <;> exact .pure _
    · exact .fail _ _
  · exact .fail _ _

theorem evalVar_makes (name : String) (location : Location) :
    Makes (evalVar eval name location) (trailVar trail name) := by
  intro s
  cases hb : s.environment.lookup name with
  | none => simp [evalVar, trailVar, hb, environmentLeft]
  | some binding =>
    cases binding with
    | value v => simp [evalVar, trailVar, hb, environmentLeft]
    | function f => simpa [evalVar, trailVar, hb] using he f.body s

theorem evalBinding_makes (value : Term) : Makes (evalBinding eval value) (trailBinding trail value) := by
  cases value with
  | function parameters body place => exact .pure _
  | _ => exact .last (he _) fun v => .pure _

/-- A node makes the bindings of its trail if the terms that it evaluates do. -/
theorem step_makes (t : Term) : Makes (step eval t) (trailStep eval trail t) := by
  cases t with
  | int n l => exact .pure _
  | str s l => exact .pure _
  | bool b l => exact .pure _
  | var name l => exact evalVar_makes he name l
  | function parameters body l => exact he body
  | call callee arguments l => exact callTerm_makes he callee arguments l
  | letIn name value next l => exact .bind (evalBinding_makes he value) fun binding => .define _ _ (he next)
  | cond condition whenTrue whenFalse l =>
    refine .bind (he condition) fun v => ?_
    cases v with
    | bool b =>
      cases b with
      | true => exact he whenTrue
      | false => exact he whenFalse
    | _ => exact .fail _ _
  | binary operator left right l =>
    refine .bind (he left) fun a => .bind (he right) fun b => ?_
    split
    · exact .pure _
    · exact .fail _ _
  | tuple left right l => exact .bind (he left) fun a => .bind (he right) fun b => .pure _
  | first operand l => exact project_makes he .first operand
  | second operand l => exact project_makes he .second operand
  | print operand l => exact .last (he operand) fun v => .last (.println _) fun _ => .pure v

end Steps

theorem evalWithin_makes (limit room : Nat) (t : Term) :
    Makes (evalWithin limit room t) (trailWithin limit room t) := by
  induction room generalizing t with
  | zero => exact .fail _ _
  | succ room ih => exact .nested limit t.location (step_makes ih t)

theorem eval_makes (limit : Nat) (t : Term) : Makes (eval limit t) (trail limit t) :=
  fun s => evalWithin_makes limit (limit - s.depth) t s

end Evaluation

namespace Evaluator

/-- The bindings that an evaluation makes in the environment at hand, oldest first. -/
def bindings (e : Evaluator) (t : Term) (env : Environment) : List (String × Binding) :=
  Evaluation.trail e.limit t ⟨env, e.printer, e.depth⟩

/-- However an evaluation ends, it leaves the environment that it found with its bindings made. -/
theorem evaluate_environment (e : Evaluator) (t : Term) (env : Environment) :
    (e.evaluate t env).2.1 = env.bindAll (e.bindings t env) := by
  have hrun := Evaluation.eval_makes e.limit t ⟨env, e.printer, e.depth⟩
  rw [bindings, ← hrun, evaluate]
  cases Evaluation.eval e.limit t ⟨env, e.printer, e.depth⟩ <;> rfl

end Evaluator

end Treewalk

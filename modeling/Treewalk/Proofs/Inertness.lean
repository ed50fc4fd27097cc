import Treewalk.Proofs.Lockstep

/-! Functions inside values are inert: no run enters, compares or prints what they hold.

Two environments may hold other functions inside their values, as long as they bind the same names to the same callable
functions. Runs do not tell them apart. -/
namespace Treewalk

/-- What is left of a function without its parameters and its body. -/
def Function.blank : Function := ⟨[], .bool false .unknown⟩

def Value.hollow (v : Value) : Value := v.mapFunctions fun _ => .blank

/-- Callable functions stay as they are. -/
def Binding.hollow (b : Binding) : Binding := b.map id Value.hollow

/-- The environments bind the same names, to the same callable functions or to values that differ in what functions
inside them hold and in nothing else. -/
def Environment.AlikeHollow (env env' : Environment) : Prop := env.AlikeThrough Binding.hollow env'

namespace Evaluation

def upToCarried : Correspondence where
  place := Eq
  read := Eq
  given := Eq
  carried _ _ := True
  term := Eq
  environment := Environment.AlikeHollow

theorem result_iff_hollow {v w : Value} : upToCarried.Result v w ↔ v.hollow = w.hollow :=
  Correspondence.Result.iff_mapFunctions fun _ _ => iff_of_true trivial rfl

theorem callee_iff_eq {f g : Function} : upToCarried.Callee f g ↔ f = g := by
  rw [Correspondence.Callee.iff_map (fun _ _ => Iff.rfl) fun _ _ => Iff.rfl]
  exact Eq.congr f.map_id g.map_id

theorem bound_iff_hollow {b b' : Binding} : upToCarried.Bound b b' ↔ b.hollow = b'.hollow :=
  Correspondence.Bound.iff_map (fun _ _ => callee_iff_eq) fun _ _ => result_iff_hollow

/-- Functions inside values have no part in evaluation. -/
def hollowSimulation : Simulation where
  toCorrespondence := upToCarried
  node := by
    rintro t _ rfl
    exact .refl (fun _ => rfl) (fun _ _ _ => rfl) (fun _ => rfl) fun _ _ => rfl
  handedBack _ := trivial
  lookup := by
    rintro env env' x _ h rfl
    exact Correspondence.lookup_of_alikeThrough (fun _ _ => bound_iff_hollow) h x
  bind := by
    rintro env env' p _ b b' h rfl hb
    exact h.bind p.name (bound_iff_hollow.1 hb)

theorem map_hollow_of_outcome {r r' : Except EvalError Value} (h : upToCarried.Outcome r r') :
    r.map Value.hollow = r'.map Value.hollow := by
  cases h with
  | ok result => exact congrArg Except.ok (result_iff_hollow.1 result)
  | error cause hplace => exact congrArg Except.error (cause.error_eq (fun _ _ hread => hread) hplace)

end Evaluation

/-- In environments that differ in what functions inside values hold, a term gives values that differ in nothing else or
fails with the same error. It leaves environments that differ in nothing else, the same output and the same depth. -/
theorem Evaluator.evaluate_ignores_carried_functions (e : Evaluator) (t : Term) (env env' : Environment)
    (h : env.AlikeHollow env') :
    (e.evaluate t env).1.map Value.hollow = (e.evaluate t env').1.map Value.hollow ∧
    (e.evaluate t env).2.1.AlikeHollow (e.evaluate t env').2.1 ∧
    (e.evaluate t env).2.2 = (e.evaluate t env').2.2 := by
  obtain ⟨houtcome, hleft, hevaluator⟩ := Evaluation.hollowSimulation.evaluate_related e (Eq.refl t) h
  exact ⟨Evaluation.map_hollow_of_outcome houtcome, hleft, hevaluator⟩

/-- A pair carries a function, is printed and taken apart, and then the function is called in vain. -/
theorem Evaluator.evaluate_ignores_carried_functions_of_pair :
    let l := Location.unknown
    let pair (f : Function) : Binding := .value (.tuple (.function f) (.int 1))
    let env := Environment.empty.bind "pair" (pair ⟨[], .print (.str "run" l) l⟩)
    let env' := Environment.empty.bind "pair" (pair ⟨[⟨"n", l⟩], .var "n" l⟩)
    let call := Term.letIn ⟨"f", l⟩ (.first (.var "pair" l) l) (.call (.var "f" l) [] l) l
    let t := Term.letIn ⟨"shown", l⟩ (.print (.var "pair" l) l) call l
    let e := buffered 5
    env.AlikeHollow env' ∧
      (e.evaluate t env).1 = .error ⟨.typeMismatch (.callee "f" .function), l⟩ ∧
      (e.evaluate t env).2.2.printer = .buffer "(<#closure>,1)\n" ∧
      (e.evaluate t env).1.map Value.hollow = (e.evaluate t env').1.map Value.hollow ∧
      (e.evaluate t env).2.1.AlikeHollow (e.evaluate t env').2.1 ∧
      (e.evaluate t env).2.2 = (e.evaluate t env').2.2 := by
  intro l pair env env' call t e
  have hempty : Environment.empty.AlikeHollow Environment.empty := fun _ => rfl
  have hpair : env.AlikeHollow env' := hempty.bind "pair" rfl
  exact ⟨hpair, rfl, rfl, evaluate_ignores_carried_functions e t env env' hpair⟩

end Treewalk

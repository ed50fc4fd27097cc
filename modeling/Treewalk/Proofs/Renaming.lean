import Mathlib.Data.List.Nodup
import Mathlib.Logic.Embedding.Basic
import Treewalk.Proofs.Lockstep

/-! No name is special: a run does the same under other names, as long as different names stay different.

Names are changed wherever they stand: in references, in bindings, in parameters, as keys of an environment and inside
functions, callable or carried by values. String literals and locations stay as they are. -/
namespace Treewalk

def Parameter.renamed (ρ : String → String) (p : Parameter) : Parameter := ⟨ρ p.name, p.location⟩

namespace Term

mutual

def renamed (ρ : String → String) : Term → Term
  | int n l => int n l
  | str s l => str s l
  | bool b l => bool b l
  | var name l => var (ρ name) l
  | function parameters body l => function (parameters.map (Parameter.renamed ρ)) (renamed ρ body) l
  | call callee arguments l => call (renamed ρ callee) (renamedAll ρ arguments) l
  | letIn name value next l => letIn (name.renamed ρ) (renamed ρ value) (renamed ρ next) l
  | cond condition whenTrue whenFalse l => cond (renamed ρ condition) (renamed ρ whenTrue) (renamed ρ whenFalse) l
  | binary operator left right l => binary operator (renamed ρ left) (renamed ρ right) l
  | tuple a b l => tuple (renamed ρ a) (renamed ρ b) l
  | first operand l => first (renamed ρ operand) l
  | second operand l => second (renamed ρ operand) l
  | print operand l => print (renamed ρ operand) l

def renamedAll (ρ : String → String) : List Term → List Term
  | [] => []
  | t :: rest => renamed ρ t :: renamedAll ρ rest

end

theorem renamedAll_eq_map (ρ : String → String) (ts : List Term) : renamedAll ρ ts = ts.map (renamed ρ) := by
  induction ts with
  | nil => rfl
  | cons t rest ih => rw [renamedAll, ih, List.map_cons]

end Term

def Function.renamed (ρ : String → String) (f : Function) : Function := f.map (Parameter.renamed ρ) (Term.renamed ρ)

def Value.renamed (ρ : String → String) (v : Value) : Value := v.mapFunctions (Function.renamed ρ)

def Binding.renamed (ρ : String → String) (b : Binding) : Binding := b.map (Function.renamed ρ) (Value.renamed ρ)

namespace Environment

def renamedEntry (ρ : String → String) (entry : String × Binding) : String × Binding :=
  (ρ entry.1, entry.2.renamed ρ)

theorem keys_renamed (ρ : String → String) (entries : List (String × Binding)) :
    keys (entries.map (renamedEntry ρ)) = (keys entries).map ρ := by
  rw [keys, keys, List.map_map, List.map_map]
  rfl

/-- Every entry under its new name, in its old place. -/
def renamed (ρ : String ↪ String) (env : Environment) : Environment where
  entries := env.entries.map (renamedEntry ρ)
  nodup := by
    rw [keys_renamed]
    exact List.Nodup.map ρ.injective env.nodup

variable (ρ : String ↪ String)

theorem find?_renamed (name : String) (entries : List (String × Binding)) :
    find? (ρ name) (entries.map (renamedEntry ρ)) = (find? name entries).map (Binding.renamed ρ) := by
  induction entries with
  | nil => rfl
  | cons entry rest ih =>
    obtain ⟨other, binding⟩ := entry
    by_cases h : other = name
    · simp [find?, renamedEntry, h]
    · simp [find?, renamedEntry, h, ih]

theorem put_renamed (name : String) (b : Binding) (entries : List (String × Binding)) :
    put (ρ name) (b.renamed ρ) (entries.map (renamedEntry ρ)) = (put name b entries).map (renamedEntry ρ) := by
  induction entries with
  | nil => rfl
  | cons entry rest ih =>
    obtain ⟨other, binding⟩ := entry
    by_cases h : other = name
    · simp [put, renamedEntry, h]
    · simp [put, renamedEntry, h, ih]

theorem lookup_renamed (env : Environment) (name : String) :
    (env.renamed ρ).lookup (ρ name) = (env.lookup name).map (Binding.renamed ρ) :=
  find?_renamed ρ name env.entries

theorem bind_renamed (env : Environment) (name : String) (b : Binding) :
    (env.bind name b).renamed ρ = (env.renamed ρ).bind (ρ name) (b.renamed ρ) := by
  simp only [renamed, bind, put_renamed]

end Environment

namespace Evaluation

def Cause.renamed (ρ : String → String) : Cause → Cause
  | unboundVariable name => unboundVariable (ρ name)
  | typeMismatch (.callee name kind) => typeMismatch (.callee (ρ name) kind)
  | other => other

theorem Cause.renamed_of_nameless (ρ : String → String) {cause : Cause} (h : cause.name? = none) :
    cause.renamed ρ = cause := by
  cases cause with
  | unboundVariable name => cases h
  | typeMismatch mismatch =>
    cases mismatch with
    | callee name kind => cases h
    | _ => rfl
  | _ => rfl

def underNames (ρ : String ↪ String) : Correspondence where
  place := Eq
  read x y := ρ x = y
  given p q := p.renamed ρ = q
  carried f g := f.renamed ρ = g
  term t u := t.renamed ρ = u
  environment env env' := env.renamed ρ = env'

variable {ρ : String ↪ String}

theorem callee_iff_renamed {f g : Function} : (underNames ρ).Callee f g ↔ f.renamed ρ = g := by
  rw [Correspondence.Callee.iff_map (fun _ _ => Iff.rfl) fun _ _ => Iff.rfl]
  exact Eq.congr_right g.map_id

theorem result_iff_renamed {v w : Value} : (underNames ρ).Result v w ↔ v.renamed ρ = w := by
  rw [Correspondence.Result.iff_mapFunctions fun _ _ => Iff.rfl]
  exact Eq.congr_right w.mapFunctions_id

theorem bound_iff_renamed {b b' : Binding} : (underNames ρ).Bound b b' ↔ b.renamed ρ = b' := by
  rw [Correspondence.Bound.iff_map (fun _ _ => callee_iff_renamed) fun _ _ => result_iff_renamed]
  exact Eq.congr_right b'.map_id

theorem node_renamed (t : Term) : (underNames ρ).Node t (t.renamed ρ) := by
  cases t with
  | int n l => exact .int rfl
  | str s l => exact .str rfl
  | bool b l => exact .bool rfl
  | var name l => exact .var rfl rfl
  | function parameters body l => exact .function (callee_iff_renamed.2 rfl) rfl
  | call callee arguments l =>
    have harguments : List.Forall₂ (underNames ρ).term arguments (Term.renamedAll ρ arguments) := by
      rw [Term.renamedAll_eq_map]
      exact List.forall₂_map_right_iff.2 (List.forall₂_same.2 fun _ _ => rfl)
    exact .call rfl harguments rfl
  | letIn name value next l => exact .letIn rfl rfl rfl rfl
  | cond condition whenTrue whenFalse l => exact .cond rfl rfl rfl rfl
  | binary operator left right l => exact .binary rfl rfl rfl
  | tuple a b l => exact .tuple rfl rfl rfl
  | first operand l => exact .first rfl rfl
  | second operand l => exact .second rfl rfl
  | print operand l => exact .print rfl rfl

theorem lookup_underNames (env : Environment) (x : String) :
    Option.Rel (underNames ρ).Bound (env.lookup x) ((env.renamed ρ).lookup (ρ x)) := by
  rw [Environment.lookup_renamed]
  cases env.lookup x with
  | none => exact .none
  | some b => exact .some (bound_iff_renamed.2 rfl)

/-- New names have no part in evaluation. -/
def renamingSimulation (ρ : String ↪ String) : Simulation where
  toCorrespondence := underNames ρ
  node := by
    rintro t _ rfl
    exact node_renamed t
  handedBack := by
    rintro t _ rfl
    rfl
  lookup := by
    rintro env _ x _ rfl rfl
    exact lookup_underNames env x
  bind := by
    rintro env _ p _ b b' rfl rfl hb
    obtain rfl := bound_iff_renamed.1 hb
    exact Environment.bind_renamed ρ env p.name b

theorem failure_renamed {cause cause' : Cause} (h : (underNames ρ).Failure cause cause') :
    cause.renamed ρ = cause' := by
  cases h with
  | unbound name => exact congrArg Cause.unboundVariable name
  | callee name => exact congrArg (fun x => Cause.typeMismatch (.callee x _)) name
  | nameless hnameless => exact Cause.renamed_of_nameless ρ hnameless

def renamedResult (ρ : String → String) : Except EvalError Value → Except EvalError Value
  | .ok v => .ok (v.renamed ρ)
  | .error e => .error ⟨e.cause.renamed ρ, e.location⟩

theorem renamedResult_of_outcome {r r' : Except EvalError Value} (h : (underNames ρ).Outcome r r') :
    renamedResult ρ r = r' := by
  cases h with
  | ok result => exact congrArg Except.ok (result_iff_renamed.1 result)
  | error cause hplace => exact congrArg Except.error (congrArg₂ EvalError.mk (failure_renamed cause) hplace)

end Evaluation

/-- A term under new names, in an environment under the same new names, has the same result but for the names in it. It
leaves the same environment under the new names, and the evaluator with the same output and depth. -/
theorem Evaluator.evaluate_renamed (ρ : String ↪ String) (e : Evaluator) (t : Term) (env : Environment) :
    e.evaluate (t.renamed ρ) (env.renamed ρ) =
      (Evaluation.renamedResult ρ (e.evaluate t env).1, (e.evaluate t env).2.1.renamed ρ, (e.evaluate t env).2.2) := by
  obtain ⟨houtcome, hleft, hevaluator⟩ := (Evaluation.renamingSimulation ρ).evaluate_related e
    (Eq.refl (t.renamed ρ)) (Eq.refl (env.renamed ρ))
  rw [Evaluation.renamedResult_of_outcome houtcome, hevaluator]
  exact Prod.ext rfl (Prod.ext hleft.symm rfl)

end Treewalk

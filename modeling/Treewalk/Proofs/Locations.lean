import Treewalk.Proofs.Lockstep

/-! Locations are carried along for reports only: programs that differ in nothing else run alike. -/
namespace Treewalk

def Parameter.unlocated (p : Parameter) : Parameter := ⟨p.name, .unknown⟩

namespace Term

mutual

def unlocated : Term → Term
  | int n _ => int n .unknown
  | str s _ => str s .unknown
  | bool b _ => bool b .unknown
  | var name _ => var name .unknown
  | function parameters body _ => function (parameters.map Parameter.unlocated) (unlocated body) .unknown
  | call callee arguments _ => call (unlocated callee) (unlocatedAll arguments) .unknown
  | letIn name value next _ => letIn name.unlocated (unlocated value) (unlocated next) .unknown
  | cond condition whenTrue whenFalse _ =>
      cond (unlocated condition) (unlocated whenTrue) (unlocated whenFalse) .unknown
  | binary operator left right _ => binary operator (unlocated left) (unlocated right) .unknown
  | tuple a b _ => tuple (unlocated a) (unlocated b) .unknown
  | first operand _ => first (unlocated operand) .unknown
  | second operand _ => second (unlocated operand) .unknown
  | print operand _ => print (unlocated operand) .unknown

def unlocatedAll : List Term → List Term
  | [] => []
  | t :: rest => unlocated t :: unlocatedAll rest

end

theorem unlocatedAll_eq_map (ts : List Term) : unlocatedAll ts = ts.map unlocated := by
  induction ts with
  | nil => rfl
  | cons t rest ih => rw [unlocatedAll, ih, List.map_cons]

theorem kind_unlocated (t : Term) : t.unlocated.kind = t.kind := by cases t <;> rfl

/-- Two nodes of one kind, whatever they hold. -/
inductive SameKind : Term → Term → Prop
  | int {n n' : Int64} {l l' : Location} : SameKind (.int n l) (.int n' l')
  | str {s s' : String} {l l' : Location} : SameKind (.str s l) (.str s' l')
  | bool {b b' : Bool} {l l' : Location} : SameKind (.bool b l) (.bool b' l')
  | var {x x' : String} {l l' : Location} : SameKind (.var x l) (.var x' l')
  | function {ps ps' : List Parameter} {body body' : Term} {l l' : Location} :
      SameKind (.function ps body l) (.function ps' body' l')
  | call {callee callee' : Term} {arguments arguments' : List Term} {l l' : Location} :
      SameKind (.call callee arguments l) (.call callee' arguments' l')
  | letIn {name name' : Parameter} {value value' next next' : Term} {l l' : Location} :
      SameKind (.letIn name value next l) (.letIn name' value' next' l')
  | cond {condition condition' whenTrue whenTrue' whenFalse whenFalse' : Term} {l l' : Location} :
      SameKind (.cond condition whenTrue whenFalse l) (.cond condition' whenTrue' whenFalse' l')
  | binary {operator operator' : Operator} {left left' right right' : Term} {l l' : Location} :
      SameKind (.binary operator left right l) (.binary operator' left' right' l')
  | tuple {a a' b b' : Term} {l l' : Location} : SameKind (.tuple a b l) (.tuple a' b' l')
  | first {operand operand' : Term} {l l' : Location} : SameKind (.first operand l) (.first operand' l')
  | second {operand operand' : Term} {l l' : Location} : SameKind (.second operand l) (.second operand' l')
  | print {operand operand' : Term} {l l' : Location} : SameKind (.print operand l) (.print operand' l')

theorem sameKind_of_kind_eq {t u : Term} (h : t.kind = u.kind) : SameKind t u := by
  cases t <;> cases u <;> first | constructor | cases h

end Term

def Function.unlocated (f : Function) : Function := ⟨f.parameters.map Parameter.unlocated, f.body.unlocated⟩

def Value.unlocated : Value → Value
  | int n => int n
  | str s => str s
  | bool b => bool b
  | tuple a b => tuple a.unlocated b.unlocated
  | function f => function f.unlocated

def Binding.unlocated : Binding → Binding
  | function f => function f.unlocated
  | value v => value v.unlocated

/-- The two environments bind the same names, and alike up to locations. -/
def Environment.AlikeUnlocated (env env' : Environment) : Prop :=
  ∀ name, (env.lookup name).map Binding.unlocated = (env'.lookup name).map Binding.unlocated

namespace Evaluation

def upToLocations : Correspondence where
  place _ _ := True
  read := Eq
  given p q := p.name = q.name
  carried f g := f.unlocated = g.unlocated
  term t u := t.unlocated = u.unlocated
  environment := Environment.AlikeUnlocated

theorem callee_iff_unlocated {f g : Function} : upToLocations.Callee f g ↔ f.unlocated = g.unlocated := by
  have hgiven : ∀ p q : Parameter, p.name = q.name ↔ p.unlocated = q.unlocated := by
    simp only [Parameter.unlocated, Parameter.mk.injEq, and_true, implies_true]
  exact Correspondence.Callee.iff_map hgiven fun _ _ => Iff.rfl

theorem unlocated_eq_mapFunctions (v : Value) : v.unlocated = v.mapFunctions Function.unlocated := by
  induction v with
  | tuple a b iha ihb => rw [Value.unlocated, iha, ihb, Value.mapFunctions]
  | _ => rfl

theorem result_iff_unlocated {v w : Value} : upToLocations.Result v w ↔ v.unlocated = w.unlocated := by
  rw [unlocated_eq_mapFunctions, unlocated_eq_mapFunctions]
  exact Correspondence.Result.iff_mapFunctions fun _ _ => Iff.rfl

theorem bound_iff_unlocated {b b' : Binding} : upToLocations.Bound b b' ↔ b.unlocated = b'.unlocated := by
  have hmap : ∀ b : Binding, b.unlocated = b.map Function.unlocated Value.unlocated := by
    intro b
    cases b <;> rfl
  rw [hmap, hmap]
  exact Correspondence.Bound.iff_map (fun _ _ => callee_iff_unlocated) fun _ _ => result_iff_unlocated

theorem arguments_unlocated {ts us : List Term} (h : Term.unlocatedAll ts = Term.unlocatedAll us) :
    List.Forall₂ upToLocations.term ts us := by
  rw [Term.unlocatedAll_eq_map, Term.unlocatedAll_eq_map] at h
  exact Correspondence.forall₂_iff_map_eq.2 h

theorem node_of_unlocated {t u : Term} (h : t.unlocated = u.unlocated) : upToLocations.Node t u := by
  -- Taking locations away keeps the kind of a node, so the two are of one kind.
  have hkind : t.kind = u.kind := by rw [← t.kind_unlocated, h, u.kind_unlocated]
  cases Term.sameKind_of_kind_eq hkind with
  | int =>
    cases h
    exact .int trivial
  | str =>
    cases h
    exact .str trivial
  | bool =>
    cases h
    exact .bool trivial
  | var => exact .var (Term.var.inj h).1 trivial
  | function =>
    obtain ⟨hparameters, hbody, -⟩ := Term.function.inj h
    exact .function (callee_iff_unlocated.2 (congrArg₂ Function.mk hparameters hbody)) trivial
  | call =>
    obtain ⟨hcallee, harguments, -⟩ := Term.call.inj h
    exact .call hcallee (arguments_unlocated harguments) trivial
  | letIn =>
    obtain ⟨hname, hvalue, hnext, -⟩ := Term.letIn.inj h
    exact .letIn (Parameter.mk.inj hname).1 hvalue hnext trivial
  | cond =>
    obtain ⟨hcondition, hTrue, hFalse, -⟩ := Term.cond.inj h
    exact .cond hcondition hTrue hFalse trivial
  | binary =>
    obtain ⟨rfl, hleft, hright, -⟩ := Term.binary.inj h
    exact .binary hleft hright trivial
  | tuple =>
    obtain ⟨hfirst, hsecond, -⟩ := Term.tuple.inj h
    exact .tuple hfirst hsecond trivial
  | first => exact .first (Term.first.inj h).1 trivial
  | second => exact .second (Term.second.inj h).1 trivial
  | print => exact .print (Term.print.inj h).1 trivial

theorem lookup_alike {env env' : Environment} (h : env.AlikeUnlocated env') (x : String) :
    Option.Rel upToLocations.Bound (env.lookup x) (env'.lookup x) :=
  Correspondence.lookup_of_alikeThrough (fun _ _ => bound_iff_unlocated) h x

theorem bind_alike {env env' : Environment} (h : env.AlikeUnlocated env') (x : String) {b b' : Binding}
    (hb : upToLocations.Bound b b') : (env.bind x b).AlikeUnlocated (env'.bind x b') :=
  Environment.AlikeThrough.bind h x (bound_iff_unlocated.1 hb)

/-- Locations have no part in evaluation. -/
def unlocatedSimulation : Simulation where
  toCorrespondence := upToLocations
  node := node_of_unlocated
  handedBack h := congrArg (Function.mk []) h
  lookup := by
    rintro env env' x _ h rfl
    exact lookup_alike h x
  bind := by
    intro env env' p q b b' h hname hb
    rw [← hname]
    exact bind_alike h p.name hb

theorem failure_eq {cause cause' : Cause} (h : upToLocations.Failure cause cause') : cause = cause' :=
  h.eq fun _ _ hname => hname

end Evaluation

/-- The result of an evaluation without any location: the value, or what went wrong. -/
def Evaluation.unlocatedResult : Except EvalError Value → Except Evaluation.Cause Value
  | .ok v => .ok v.unlocated
  | .error e => .error e.cause

/-- Terms that are equal up to locations, in environments that are, have the same result up to locations. They leave
environments that are equal up to locations, the same output and the same depth. -/
theorem Evaluator.evaluate_eq_up_to_locations (e : Evaluator) (t u : Term) (env env' : Environment)
    (h : t.unlocated = u.unlocated) (henv : env.AlikeUnlocated env') :
    Evaluation.unlocatedResult (e.evaluate t env).1 = Evaluation.unlocatedResult (e.evaluate u env').1 ∧
    (e.evaluate t env).2.1.AlikeUnlocated (e.evaluate u env').2.1 ∧
    (e.evaluate t env).2.2 = (e.evaluate u env').2.2 := by
  obtain ⟨houtcome, hleft, hevaluator⟩ := Evaluation.unlocatedSimulation.evaluate_related e h henv
  refine ⟨?_, hleft, hevaluator⟩
  generalize (e.evaluate t env).1 = r at houtcome ⊢
  generalize (e.evaluate u env').1 = r' at houtcome ⊢
  cases houtcome with
  | ok hresult => exact congrArg Except.ok (Evaluation.result_iff_unlocated.1 hresult)
  | error hcause _ => exact congrArg Except.error (Evaluation.failure_eq hcause)

/-- A function of the environment and its call, written at two places. -/
theorem Evaluator.evaluate_eq_up_to_locations_of_call :
    let here : Location := ⟨⟨1, 5⟩, "here"⟩
    let there : Location := ⟨⟨7, 9⟩, "there"⟩
    let double (l : Location) : Binding := .function ⟨[⟨"n", l⟩], .binary .add (.var "n" l) (.var "n" l) l⟩
    let t (l : Location) : Term := .print (.call (.var "double" l) [.str "ab" l] l) l
    let first := (buffered 10).evaluate (t here) (Environment.empty.bind "double" (double here))
    let second := (buffered 10).evaluate (t there) (Environment.empty.bind "double" (double there))
    t here ≠ t there ∧ first.2.2.printer = .buffer "abab\n" ∧
      Evaluation.unlocatedResult first.1 = Evaluation.unlocatedResult second.1 ∧
      first.2.1.AlikeUnlocated second.2.1 ∧ first.2.2 = second.2.2 := by
  intro here there double t first second
  have hempty : Environment.empty.AlikeUnlocated Environment.empty := fun _ => rfl
  have hdouble : Evaluation.upToLocations.Bound (double here) (double there) := Evaluation.bound_iff_unlocated.2 rfl
  have hrun := evaluate_eq_up_to_locations (buffered 10) (t here) (t there) _ _ rfl
    (Evaluation.bind_alike hempty "double" hdouble)
  exact ⟨by decide, rfl, hrun⟩

end Treewalk

import Mathlib.Data.List.Forall2
import Treewalk.Proofs.Nesting

/-! Two runs side by side.

A `Correspondence` says which terms, names, places and environments of one run answer to which of the other. It is a
`Simulation` if related terms are alike node by node and if reading and binding names respect it. Related terms then
run in step: they end alike, print the same lines and leave related environments. -/
namespace Treewalk

/-- The value with other functions in place of those that it carries. -/
def Value.mapFunctions (φ : Function → Function) : Value → Value
  | int n => int n
  | str s => str s
  | bool b => bool b
  | tuple a b => tuple (a.mapFunctions φ) (b.mapFunctions φ)
  | function f => function (φ f)

theorem Value.mapFunctions_id (v : Value) : v.mapFunctions id = v := by
  induction v with
  | tuple a b iha ihb => rw [mapFunctions, iha, ihb]
  | _ => rfl

def Function.map (π : Parameter → Parameter) (τ : Term → Term) (f : Function) : Function :=
  ⟨f.parameters.map π, τ f.body⟩

theorem Function.map_id (f : Function) : f.map id id = f :=
  congrArg (Function.mk · f.body) (List.map_id f.parameters)

def Binding.map (φ : Function → Function) (χ : Value → Value) : Binding → Binding
  | function f => function (φ f)
  | value v => value (χ v)

theorem Binding.map_id (b : Binding) : b.map id id = b := by cases b <;> rfl

/-- The two environments bind the same names, and alike as far as a view of bindings shows. -/
def Environment.AlikeThrough {β : Type} (view : Binding → β) (env env' : Environment) : Prop :=
  ∀ name, (env.lookup name).map view = (env'.lookup name).map view

theorem Environment.AlikeThrough.bind {β : Type} {view : Binding → β} {env env' : Environment}
    (h : env.AlikeThrough view env') (x : String) {b b' : Binding} (hb : view b = view b') :
    (env.bind x b).AlikeThrough view (env'.bind x b') := by
  intro name
  rw [lookup_bind, lookup_bind]
  split
  · exact congrArg some hb
  · exact h name

namespace Evaluation

/-- What answers to what in two runs. -/
structure Correspondence where
  place : Location → Location → Prop
  /-- Names that stand for something. -/
  read : String → String → Prop
  /-- Names that are given to something. -/
  given : Parameter → Parameter → Prop
  /-- Functions inside values, which are carried along and never run. -/
  carried : Function → Function → Prop
  term : Term → Term → Prop
  environment : Environment → Environment → Prop

def Cause.name? : Cause → Option String
  | unboundVariable name => some name
  | typeMismatch (.callee name _) => some name
  | _ => none

namespace Correspondence

variable (C : Correspondence)

structure Callee (f g : Function) : Prop where
  parameters : List.Forall₂ C.given f.parameters g.parameters
  body : C.term f.body g.body

/-- Nodes of one kind with the same contents and related parts. -/
inductive Node : Term → Term → Prop
  | int {n : Int64} {l m : Location} (hplace : C.place l m) : Node (.int n l) (.int n m)
  | str {s : String} {l m : Location} (hplace : C.place l m) : Node (.str s l) (.str s m)
  | bool {b : Bool} {l m : Location} (hplace : C.place l m) : Node (.bool b l) (.bool b m)
  | var {x y : String} {l m : Location} (hname : C.read x y) (hplace : C.place l m) : Node (.var x l) (.var y m)
  | function {ps qs : List Parameter} {body body' : Term} {l m : Location} (hcallee : C.Callee ⟨ps, body⟩ ⟨qs, body'⟩)
      (hplace : C.place l m) : Node (.function ps body l) (.function qs body' m)
  | call {callee callee' : Term} {arguments arguments' : List Term} {l m : Location} (hcallee : C.term callee callee')
      (harguments : List.Forall₂ C.term arguments arguments') (hplace : C.place l m) :
      Node (.call callee arguments l) (.call callee' arguments' m)
  | letIn {name name' : Parameter} {value value' next next' : Term} {l m : Location}
      (hname : C.given name name') (hvalue : C.term value value') (hnext : C.term next next')
      (hplace : C.place l m) : Node (.letIn name value next l) (.letIn name' value' next' m)
  | cond {condition condition' whenTrue whenTrue' whenFalse whenFalse' : Term} {l m : Location}
      (hcondition : C.term condition condition') (hTrue : C.term whenTrue whenTrue')
      (hFalse : C.term whenFalse whenFalse') (hplace : C.place l m) :
      Node (.cond condition whenTrue whenFalse l) (.cond condition' whenTrue' whenFalse' m)
  | binary {operator : Operator} {left left' right right' : Term} {l m : Location} (hleft : C.term left left')
      (hright : C.term right right') (hplace : C.place l m) :
      Node (.binary operator left right l) (.binary operator left' right' m)
  | tuple {a a' b b' : Term} {l m : Location} (hfirst : C.term a a') (hsecond : C.term b b') (hplace : C.place l m) :
      Node (.tuple a b l) (.tuple a' b' m)
  | first {operand operand' : Term} {l m : Location} (hoperand : C.term operand operand') (hplace : C.place l m) :
      Node (.first operand l) (.first operand' m)
  | second {operand operand' : Term} {l m : Location} (hoperand : C.term operand operand') (hplace : C.place l m) :
      Node (.second operand l) (.second operand' m)
  | print {operand operand' : Term} {l m : Location} (hoperand : C.term operand operand') (hplace : C.place l m) :
      Node (.print operand l) (.print operand' m)

inductive Result : Value → Value → Prop
  | int (n : Int64) : Result (.int n) (.int n)
  | str (s : String) : Result (.str s) (.str s)
  | bool (b : Bool) : Result (.bool b) (.bool b)
  | tuple {a a' b b' : Value} (first : Result a a') (second : Result b b') : Result (.tuple a b) (.tuple a' b')
  | function {f g : Function} (carried : C.carried f g) : Result (.function f) (.function g)

inductive Bound : Binding → Binding → Prop
  | function {f g : Function} (callee : C.Callee f g) : Bound (.function f) (.function g)
  | value {v w : Value} (result : C.Result v w) : Bound (.value v) (.value w)

/-- Failures of one kind. Names that they speak of are related, and everything else is the same. -/
inductive Failure : Cause → Cause → Prop
  | unbound {x y : String} (name : C.read x y) : Failure (.unboundVariable x) (.unboundVariable y)
  | callee {x y : String} {kind : Value.Kind} (name : C.read x y) :
      Failure (.typeMismatch (.callee x kind)) (.typeMismatch (.callee y kind))
  | nameless {cause : Cause} (nameless : cause.name? = none) : Failure cause cause

structure Abreast (s s' : State) : Prop where
  environment : C.environment s.environment s'.environment
  printer : s.printer = s'.printer
  depth : s.depth = s'.depth

variable {α β γ δ : Type}

inductive Agree (R : α → β → Prop) : EStateM.Result EvalError State α → EStateM.Result EvalError State β → Prop
  | ok {a : α} {b : β} {s s' : State} (result : R a b) (state : C.Abreast s s') : Agree R (.ok a s) (.ok b s')
  | error {e e' : EvalError} {s s' : State} (cause : C.Failure e.cause e'.cause)
      (hplace : C.place e.location e'.location) (state : C.Abreast s s') : Agree R (.error e s) (.error e' s')

inductive Outcome : Except EvalError Value → Except EvalError Value → Prop
  | ok {v w : Value} (result : C.Result v w) : Outcome (.ok v) (.ok w)
  | error {e e' : EvalError} (cause : C.Failure e.cause e'.cause) (hplace : C.place e.location e'.location) :
      Outcome (.error e) (.error e')

/-- Two computations end alike from any states from which they may go on together. -/
def InStep (R : α → β → Prop) (m : Evaluation α) (m' : Evaluation β) : Prop :=
  ∀ s s', C.Abreast s s' → C.Agree R (m s) (m' s')

variable {C} {R : α → β → Prop} {Q : γ → δ → Prop}

theorem Result.kind_eq {v w : Value} (h : C.Result v w) : v.kind = w.kind := by cases h <;> rfl

theorem Result.text_eq {v w : Value} (h : C.Result v w) : v.text = w.text := by
  induction h with
  | tuple _ _ hfirst hsecond => rw [Value.text, Value.text, hfirst, hsecond]
  | _ => rfl

theorem Result.eq_or_not_simple {v w : Value} (h : C.Result v w) :
    v = w ∨ v.isSimple = false ∧ w.isSimple = false := by
  cases h with
  | tuple _ _ => exact .inr ⟨rfl, rfl⟩
  | function _ => exact .inr ⟨rfl, rfl⟩
  | _ => exact .inl rfl

theorem Result.of_isSimple {v : Value} (h : v.isSimple = true) : C.Result v v := by
  cases v with
  | int n => exact .int n
  | str s => exact .str s
  | bool b => exact .bool b
  | tuple a b => cases h
  | function f => cases h

theorem Result.refl (h : ∀ f, C.carried f f) (v : Value) : C.Result v v := by
  induction v with
  | int n => exact .int n
  | str s => exact .str s
  | bool b => exact .bool b
  | tuple a b hfirst hsecond => exact .tuple hfirst hsecond
  | function f => exact .function (h f)

theorem Result.eq {v w : Value} (hresult : C.Result v w) (h : ∀ f g, C.carried f g → f = g) : v = w := by
  induction hresult with
  | tuple _ _ hfirst hsecond => rw [hfirst, hsecond]
  | function carried => rw [h _ _ carried]
  | _ => rfl

/-- Values answer to each other if they are equal once their functions are seen as the two sides see them. -/
theorem Result.iff_mapFunctions {φ ψ : Function → Function} (h : ∀ f g, C.carried f g ↔ φ f = ψ g) {v w : Value} :
    C.Result v w ↔ v.mapFunctions φ = w.mapFunctions ψ := by
  constructor
  · intro hresult
    induction hresult with
    | tuple _ _ hfirst hsecond => exact congrArg₂ Value.tuple hfirst hsecond
    | function hcarried => exact congrArg Value.function ((h _ _).1 hcarried)
    | _ => rfl
  · intro heq
    induction v generalizing w with
    | int n =>
      cases w with
      | int m =>
        cases heq
        exact .int n
      | _ => cases heq
    | str s =>
      cases w with
      | str m =>
        cases heq
        exact .str s
      | _ => cases heq
    | bool b =>
      cases w with
      | bool m =>
        cases heq
        exact .bool b
      | _ => cases heq
    | tuple a b iha ihb =>
      cases w with
      | tuple c d =>
        obtain ⟨hfirst, hsecond⟩ := Value.tuple.inj heq
        exact .tuple (iha hfirst) (ihb hsecond)
      | _ => cases heq
    | function f =>
      cases w with
      | function g => exact .function ((h f g).2 (Value.function.inj heq))
      | _ => cases heq

theorem Failure.eq {cause cause' : Cause} (hfailure : C.Failure cause cause') (h : ∀ x y, C.read x y → x = y) :
    cause = cause' := by
  cases hfailure with
  | unbound name => rw [h _ _ name]
  | callee name => rw [h _ _ name]
  | nameless _ => rfl

theorem Failure.error_eq {e e' : EvalError} (hfailure : C.Failure e.cause e'.cause) (h : ∀ x y, C.read x y → x = y)
    (hplace : e.location = e'.location) : e = e' :=
  congrArg₂ EvalError.mk (hfailure.eq h) hplace

/-- Operators see nothing of what may differ between related values. -/
theorem Result.operate_eq {a a' b b' : Value} (ha : C.Result a a') (hb : C.Result b b') (operator : Operator) :
    operator.operate a b = operator.operate a' b' := by
  have hmismatch : operator.mismatch a b = operator.mismatch a' b' := by
    rw [Operator.mismatch, Operator.mismatch, ha.kind_eq, hb.kind_eq]
  rcases ha.eq_or_not_simple with rfl | ⟨hsa, hsa'⟩
  · rcases hb.eq_or_not_simple with rfl | ⟨hsb, hsb'⟩
    · rfl
    · rw [Operator.operate_eq_mismatch (.inr hsb), Operator.operate_eq_mismatch (.inr hsb'), hmismatch]
  · rw [Operator.operate_eq_mismatch (.inl hsa), Operator.operate_eq_mismatch (.inl hsa'), hmismatch]

theorem Callee.arity_eq {f g : Function} (h : C.Callee f g) : f.arity = g.arity := h.parameters.length_eq

theorem forall₂_iff_map_eq {f : α → γ} {g : β → γ} {as : List α} {bs : List β} :
    List.Forall₂ (fun a b => f a = g b) as bs ↔ as.map f = bs.map g := by
  rw [← List.forall₂_eq_eq_eq, List.forall₂_map_left_iff, List.forall₂_map_right_iff]

theorem Callee.iff_map {π π' : Parameter → Parameter} {τ τ' : Term → Term} (hgiven : ∀ p q, C.given p q ↔ π p = π' q)
    (hterm : ∀ t u, C.term t u ↔ τ t = τ' u) {f g : Function} : C.Callee f g ↔ f.map π τ = g.map π' τ' := by
  constructor
  · rintro ⟨hparameters, hbody⟩
    have hmap : f.parameters.map π = g.parameters.map π' :=
      forall₂_iff_map_eq.1 (hparameters.imp fun p q => (hgiven p q).1)
    exact congrArg₂ Function.mk hmap ((hterm _ _).1 hbody)
  · intro h
    obtain ⟨hparameters, hbody⟩ := Function.mk.inj h
    exact ⟨(forall₂_iff_map_eq.2 hparameters).imp fun p q => (hgiven p q).2, (hterm _ _).2 hbody⟩

theorem Bound.iff_map {φ φ' : Function → Function} {χ χ' : Value → Value} (hcallee : ∀ f g, C.Callee f g ↔ φ f = φ' g)
    (hresult : ∀ v w, C.Result v w ↔ χ v = χ' w) {b b' : Binding} : C.Bound b b' ↔ b.map φ χ = b'.map φ' χ' := by
  constructor
  · rintro (callee | result)
    · exact congrArg Binding.function ((hcallee _ _).1 callee)
    · exact congrArg Binding.value ((hresult _ _).1 result)
  · intro h
    cases b with
    | function f =>
      cases b' with
      | function g => exact .function ((hcallee f g).2 (Binding.function.inj h))
      | value w => cases h
    | value v =>
      cases b' with
      | function g => cases h
      | value w => exact .value ((hresult v w).2 (Binding.value.inj h))

theorem Callee.eq {f g : Function} (hcallee : C.Callee f g) (hgiven : ∀ p q, C.given p q → p = q)
    (hterm : ∀ t u, C.term t u → t = u) : f = g := by
  have hparameters : List.Forall₂ Eq f.parameters g.parameters := hcallee.parameters.imp hgiven
  rw [List.forall₂_eq_eq_eq] at hparameters
  exact congrArg₂ Function.mk hparameters (hterm _ _ hcallee.body)

theorem Node.refl {t : Term} (hplace : ∀ l, C.place l l) (hread : ∀ x l, t = .var x l → C.read x x)
    (hgiven : ∀ p, C.given p p) (hchildren : ∀ u ∈ t.children, C.term u u) : C.Node t t := by
  cases t with
  | int n l => exact .int (hplace l)
  | str s l => exact .str (hplace l)
  | bool b l => exact .bool (hplace l)
  | var x l => exact .var (hread x l rfl) (hplace l)
  | function parameters body l =>
    exact .function ⟨List.forall₂_same.2 fun p _ => hgiven p, hchildren body List.mem_cons_self⟩ (hplace l)
  | call callee arguments l =>
    simp only [Term.children, List.forall_mem_cons] at hchildren
    exact .call hchildren.1 (List.forall₂_same.2 hchildren.2) (hplace l)
  | letIn name value next l =>
    simp only [Term.children, List.forall_mem_cons] at hchildren
    exact .letIn (hgiven name) hchildren.1 hchildren.2.1 (hplace l)
  | cond condition whenTrue whenFalse l =>
    simp only [Term.children, List.forall_mem_cons] at hchildren
    exact .cond hchildren.1 hchildren.2.1 hchildren.2.2.1 (hplace l)
  | binary operator left right l =>
    simp only [Term.children, List.forall_mem_cons] at hchildren
    exact .binary hchildren.1 hchildren.2.1 (hplace l)
  | tuple a b l =>
    simp only [Term.children, List.forall_mem_cons] at hchildren
    exact .tuple hchildren.1 hchildren.2.1 (hplace l)
  | first operand l => exact .first (hchildren operand List.mem_cons_self) (hplace l)
  | second operand l => exact .second (hchildren operand List.mem_cons_self) (hplace l)
  | print operand l => exact .print (hchildren operand List.mem_cons_self) (hplace l)

/-- Environments that look alike have related bindings if the view shows all that the correspondence asks for. -/
theorem lookup_of_alikeThrough {ε : Type} {view : Binding → ε} (hview : ∀ b b', C.Bound b b' ↔ view b = view b')
    {env env' : Environment} (h : env.AlikeThrough view env') (x : String) :
    Option.Rel C.Bound (env.lookup x) (env'.lookup x) := by
  have hx := h x
  cases hb : env.lookup x with
  | none =>
    cases hb' : env'.lookup x with
    | none => exact .none
    | some b' => simp [hb, hb'] at hx
  | some b =>
    cases hb' : env'.lookup x with
    | none => simp [hb, hb'] at hx
    | some b' =>
      rw [hb, hb'] at hx
      exact .some ((hview b b').2 (Option.some.inj hx))

theorem Node.kind_eq {t u : Term} (h : C.Node t u) : t.kind = u.kind := by cases h <;> rfl

theorem Node.location {t u : Term} (h : C.Node t u) : C.place t.location u.location := by cases h <;> assumption

theorem Node.isProjectable_eq {t u : Term} (h : C.Node t u) : isProjectable t = isProjectable u := by cases h <;> rfl

namespace InStep

theorem pure {a : α} {b : β} (h : R a b) : C.InStep R (Pure.pure a) (Pure.pure b) := fun _ _ hs => .ok h hs

theorem fail {cause cause' : Cause} {l m : Location} (h : C.Failure cause cause') (hplace : C.place l m) :
    C.InStep R (Evaluation.fail cause l) (Evaluation.fail cause' m) :=
  fun _ _ hs => .error h hplace hs

theorem bind {m : Evaluation α} {m' : Evaluation β} {f : α → Evaluation γ} {f' : β → Evaluation δ}
    (hm : C.InStep R m m') (hf : ∀ a b, R a b → C.InStep Q (f a) (f' b)) : C.InStep Q (m >>= f) (m' >>= f') := by
  intro s s' hs
  have hends := hm s s' hs
  rw [bind_run, bind_run]
  generalize m s = r at hends ⊢
  generalize m' s' = r' at hends ⊢
  cases hends with
  | ok result state => exact hf _ _ result _ _ state
  | error cause hplace state => exact .error cause hplace state

theorem println {line line' : String} (h : line = line') :
    C.InStep (fun _ _ => True) (Evaluation.println line) (Evaluation.println line') := by
  intro s s' hs
  have hprinter : s.printer.println line = s'.printer.println line' := by rw [h, hs.printer]
  exact .ok trivial ⟨hs.environment, hprinter, hs.depth⟩

theorem nested (limit : Nat) {l m : Location} {run : Evaluation α} {run' : Evaluation β} (hplace : C.place l m)
    (h : C.InStep R run run') : C.InStep R (Evaluation.nested limit l run) (Evaluation.nested limit m run') := by
  intro s s' hs
  have hends := h { s with depth := s.depth + 1 } { s' with depth := s'.depth + 1 }
    ⟨hs.environment, hs.printer, congrArg (· + 1) hs.depth⟩
  unfold Evaluation.nested
  by_cases hd : s.depth < limit
  · rw [if_pos hd, if_pos (hs.depth ▸ hd)]
    generalize run { s with depth := s.depth + 1 } = r at hends ⊢
    generalize run' { s' with depth := s'.depth + 1 } = r' at hends ⊢
    cases hends with
    | ok result state => exact .ok result ⟨state.environment, state.printer, congrArg (· - 1) state.depth⟩
    | error cause hplace' state =>
      exact .error cause hplace' ⟨state.environment, state.printer, congrArg (· - 1) state.depth⟩
  · rw [if_neg hd, if_neg (hs.depth ▸ hd)]
    exact .error (.nameless rfl) hplace hs

end InStep

end Correspondence

/-- A correspondence that runs respect. -/
structure Simulation extends Correspondence where
  node {t u : Term} : term t u → toCorrespondence.Node t u
  handedBack {t u : Term} : term t u → carried ⟨[], t⟩ ⟨[], u⟩
  lookup {env env' : Environment} {x y : String} : environment env env' → read x y →
    Option.Rel toCorrespondence.Bound (env.lookup x) (env'.lookup y)
  bind {env env' : Environment} {p q : Parameter} {b b' : Binding} : environment env env' → given p q →
    toCorrespondence.Bound b b' → environment (env.bind p.name b) (env'.bind q.name b')

namespace Simulation

open Correspondence (InStep Result Callee Bound Node)

variable {S : Simulation} {α β : Type}

theorem fork_related {env env' : Environment} {f g : Function} {vs ws : List Value} (henv : S.environment env env')
    (hcallee : S.Callee f g) (hvs : List.Forall₂ S.Result vs ws) :
    S.environment (bodyScope env f vs) (bodyScope env' g ws) := by
  obtain ⟨ps, body⟩ := f
  obtain ⟨qs, body'⟩ := g
  have hparameters : List.Forall₂ S.given ps qs := hcallee.parameters
  clear hcallee
  unfold bodyScope
  -- Pairs of a name and a value are bound one after the other, so both environments grow by related bindings.
  induction hparameters generalizing env env' vs ws with
  | nil => exact henv
  | cons hname _ ih =>
    cases hvs with
    | nil => exact henv
    | cons hv hvs => exact ih (S.bind henv hname (.value hv)) hvs

theorem lookup_inStep {x y : String} (h : S.read x y) :
    S.InStep (Option.Rel S.Bound) (Evaluation.lookup x) (Evaluation.lookup y) :=
  fun _ _ hs => .ok (S.lookup hs.environment h) hs

theorem define_inStep {p q : Parameter} {b b' : Binding} (h : S.given p q) (hbound : S.Bound b b') :
    S.InStep (fun _ _ => True) (define p.name b) (define q.name b') :=
  fun _ _ hs => .ok trivial ⟨S.bind hs.environment h hbound, hs.printer, hs.depth⟩

theorem inFork_inStep {R : α → β → Prop} {f g : Function} {vs ws : List Value} {m : Evaluation α} {m' : Evaluation β}
    (hcallee : S.Callee f g) (hvs : List.Forall₂ S.Result vs ws) (h : S.InStep R m m') :
    S.InStep R (inFork ((f.parameters.map (·.name)).zip vs) m) (inFork ((g.parameters.map (·.name)).zip ws) m') := by
  intro s s' hs
  have hends := h { s with environment := bodyScope s.environment f vs }
    { s' with environment := bodyScope s'.environment g ws }
    ⟨fork_related hs.environment hcallee hvs, hs.printer, hs.depth⟩
  unfold bodyScope at hends
  unfold inFork
  generalize m _ = r at hends ⊢
  generalize m' _ = r' at hends ⊢
  cases hends with
  | ok result state => exact .ok result ⟨hs.environment, state.printer, state.depth⟩
  | error cause hplace state => exact .error cause hplace ⟨hs.environment, state.printer, state.depth⟩

section Steps

variable {eval : Term → Evaluation Value} (he : ∀ t u, S.term t u → S.InStep S.Result (eval t) (eval u))

include he

theorem evalAll_inStep {ts us : List Term} (h : List.Forall₂ S.term ts us) :
    S.InStep (List.Forall₂ S.Result) (evalAll eval ts) (evalAll eval us) := by
  induction h with
  | nil => exact .pure .nil
  | cons hhead _ ih =>
    refine .bind (he _ _ hhead) fun v w hv => ?_
    refine .bind ih fun vs ws hvs => ?_
    exact .pure (.cons hv hvs)

theorem call_inStep {f g : Function} {arguments arguments' : List Term} {l m : Location} (hcallee : S.Callee f g)
    (harguments : List.Forall₂ S.term arguments arguments') (hplace : S.place l m) :
    S.InStep S.Result (call eval f arguments l) (call eval g arguments' m) := by
  unfold call
  rw [hcallee.arity_eq, harguments.length_eq]
  split
  · refine .bind (evalAll_inStep he harguments) fun vs ws hvs => ?_
    exact inFork_inStep hcallee hvs (he _ _ hcallee.body)
  · exact .fail (.nameless rfl) hplace

theorem callTerm_inStep {callee callee' : Term} {arguments arguments' : List Term} {l m : Location}
    (hcallee : S.term callee callee') (harguments : List.Forall₂ S.term arguments arguments') (hplace : S.place l m) :
    S.InStep S.Result (callTerm eval callee arguments l) (callTerm eval callee' arguments' m) := by
  have hback := S.handedBack hcallee
  cases S.node hcallee with
  | var hname hplace' =>
    refine .bind (lookup_inStep hname) fun _ _ hbinding => ?_
    cases hbinding with
    | none => exact .fail (.unbound hname) hplace'
    | some hbound =>
      cases hbound with
      | function hfunction => exact call_inStep he hfunction harguments hplace
      | value hresult =>
        simp only [hresult.kind_eq]
        exact .fail (.callee hname) hplace'
  | function hliteral _ => exact call_inStep he hliteral harguments hplace
  | _ => exact .pure (.function hback)

theorem project_inStep (half : Half) {operand operand' : Term} (h : S.term operand operand') :
    S.InStep S.Result (project eval half operand) (project eval half operand') := by
  have hnode := S.node h
  unfold project
  rw [hnode.isProjectable_eq]
  split
  · refine .bind (he _ _ h) fun v w hv => ?_
    cases hv with
    | tuple hfirst hsecond =>
      cases half with
      | first => exact .pure hfirst
      | second => exact .pure hsecond
    | _ => exact .fail (.nameless rfl) hnode.location
  · rw [hnode.kind_eq]
    exact .fail (.nameless rfl) hnode.location

theorem evalVar_inStep {x y : String} {l m : Location} (hname : S.read x y) (hplace : S.place l m) :
    S.InStep S.Result (evalVar eval x l) (evalVar eval y m) := by
  refine .bind (lookup_inStep hname) fun _ _ hbinding => ?_
  cases hbinding with
  | none => exact .fail (.unbound hname) hplace
  | some hbound =>
    cases hbound with
    | function hcallee => exact he _ _ hcallee.body
    | value hresult => exact .pure hresult

theorem evalBinding_inStep {value value' : Term} (h : S.term value value') :
    S.InStep S.Bound (evalBinding eval value) (evalBinding eval value') := by
  have hvalue : S.InStep S.Bound (eval value >>= fun v => pure (.value v)) (eval value' >>= fun v => pure (.value v)) :=
    .bind (he _ _ h) fun v w hv => .pure (.value hv)
  cases S.node h with
  | function hcallee _ => exact .pure (.function hcallee)
  | _ => exact hvalue

theorem step_inStep {t u : Term} (h : S.term t u) : S.InStep S.Result (step eval t) (step eval u) := by
  cases S.node h with
  | int _ => exact .pure (.int _)
  | str _ => exact .pure (.str _)
  | bool _ => exact .pure (.bool _)
  | var hname hplace => exact evalVar_inStep he hname hplace
  | function hcallee _ => exact he _ _ hcallee.body
  | call hcallee harguments hplace => exact callTerm_inStep he hcallee harguments hplace
  | letIn hname hvalue hnext _ =>
    refine .bind (evalBinding_inStep he hvalue) fun b b' hbound => ?_
    exact .bind (define_inStep hname hbound) fun _ _ _ => he _ _ hnext
  | cond hcondition hTrue hFalse _ =>
    refine .bind (he _ _ hcondition) fun v w hv => ?_
    cases hv with
    | bool b =>
      cases b with
      | true => exact he _ _ hTrue
      | false => exact he _ _ hFalse
    | _ => exact .fail (.nameless rfl) (S.node hcondition).location
  | @binary operator left left' right right' l m hleft hright hplace =>
    refine .bind (he _ _ hleft) fun a a' ha => .bind (he _ _ hright) fun b b' hb => ?_
    rw [ha.operate_eq hb]
    cases ho : operator.operate a' b' with
    | ok v => exact .pure (.of_isSimple (Operator.operate_isSimple ho))
    | error cause =>
      have hnameless : cause.name? = none := by rcases Operator.operate_error ho with rfl | rfl <;> rfl
      exact .fail (.nameless hnameless) hplace
  | tuple hfirst hsecond _ =>
    refine .bind (he _ _ hfirst) fun a a' ha => .bind (he _ _ hsecond) fun b b' hb => ?_
    exact .pure (.tuple ha hb)
  | first hoperand _ => exact project_inStep he .first hoperand
  | second hoperand _ => exact project_inStep he .second hoperand
  | print hoperand _ =>
    refine .bind (he _ _ hoperand) fun v w hv => ?_
    exact .bind (.println hv.text_eq) fun _ _ _ => .pure hv

end Steps

theorem evalWithin_inStep (limit room : Nat) {t u : Term} (h : S.term t u) :
    S.InStep S.Result (evalWithin limit room t) (evalWithin limit room u) := by
  induction room generalizing t u with
  | zero => exact .fail (.nameless rfl) (S.node h).location
  | succ room ih => exact .nested limit (S.node h).location (step_inStep (fun _ _ => ih) h)

theorem eval_inStep (S : Simulation) (limit : Nat) {t u : Term} (h : S.term t u) :
    S.InStep S.Result (eval limit t) (eval limit u) := by
  intro s s' hs
  unfold eval
  rw [hs.depth]
  exact evalWithin_inStep limit _ h s s' hs

/-- Related terms in related environments give results that are alike, leave related environments and bring the
evaluator into the same state. -/
theorem evaluate_related (S : Simulation) (e : Evaluator) {t u : Term} {env env' : Environment} (h : S.term t u)
    (henv : S.environment env env') :
    S.Outcome (e.evaluate t env).1 (e.evaluate u env').1 ∧
    S.environment (e.evaluate t env).2.1 (e.evaluate u env').2.1 ∧
    (e.evaluate t env).2.2 = (e.evaluate u env').2.2 := by
  have hends := S.eval_inStep e.limit h ⟨env, e.printer, e.depth⟩ ⟨env', e.printer, e.depth⟩ ⟨henv, rfl, rfl⟩
  unfold Evaluator.evaluate
  generalize eval e.limit t _ = r at hends ⊢
  generalize eval e.limit u _ = r' at hends ⊢
  cases hends with
  | ok result state => exact ⟨.ok result, state.environment, by simp [state.printer, state.depth]⟩
  | error cause hplace state => exact ⟨.error cause hplace, state.environment, by simp [state.printer, state.depth]⟩

end Simulation

end Evaluation

end Treewalk

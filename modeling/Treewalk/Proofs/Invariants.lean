import Treewalk.Proofs.Nesting

/-! What every run keeps, whether it succeeds or fails.

An `Invariant` says which terms may be evaluated in which environments, and what that does to environments, values
and errors. Its laws speak of one node at a time; `Invariant.eval_upholds` is the induction that carries them to whole
runs, so that a property of runs is a matter of stating its laws. -/
namespace Treewalk

/-- The subterms that a node evaluates in the environment at hand. Callees, function literals that are bound and
terms behind a binding are not among them. -/
def Term.operands : Term → List Term
  | .function _ body _ => [body]
  | .call _ arguments _ => arguments
  | .letIn _ (.function ..) _ _ => []
  | .letIn _ value _ _ => [value]
  | .cond condition whenTrue whenFalse _ => [condition, whenTrue, whenFalse]
  | .binary _ left right _ => [left, right]
  | .tuple a b _ => [a, b]
  | .first operand _ => [operand]
  | .second operand _ => [operand]
  | .print operand _ => [operand]
  | _ => []

theorem Term.operands_letIn {name : Parameter} {value next : Term} {l : Location} (h : value.kind ≠ .function) :
    (Term.letIn name value next l).operands = [value] := by
  cases value <;> first | rfl | exact absurd rfl h

theorem Term.operands_subset_children (t : Term) : t.operands ⊆ t.children := by
  intro u hu
  cases t with
  | call callee arguments l => exact List.mem_cons_of_mem callee hu
  | letIn name value next l =>
    cases value with
    | function parameters body place => cases hu
    | _ => exact List.mem_cons.2 (.inl (List.mem_singleton.1 hu))
  | _ => exact hu

namespace Evaluation

inductive AsksFor : Term → Half → Term → Prop
  | first {operand : Term} {l : Location} : AsksFor (.first operand l) .first operand
  | second {operand : Term} {l : Location} : AsksFor (.second operand l) .second operand

/-- An error that a node raises itself, in the environment from which it starts. -/
inductive Raises (limit depth : Nat) (env : Environment) : Term → EvalError → Prop
  | depth {t : Term} (full : limit ≤ depth) : Raises limit depth env t ⟨.depthExceeded limit, t.location⟩
  | unbound {name : String} {l : Location} (free : env.lookup name = none) :
      Raises limit depth env (.var name l) ⟨.unboundVariable name, l⟩
  | unboundCallee {name : String} {place l : Location} {arguments : List Term} (free : env.lookup name = none) :
      Raises limit depth env (.call (.var name place) arguments l) ⟨.unboundVariable name, place⟩
  | calleeValue {name : String} {place l : Location} {arguments : List Term} {v : Value}
      (bound : env.lookup name = some (.value v)) :
      Raises limit depth env (.call (.var name place) arguments l) ⟨.typeMismatch (.callee name v.kind), place⟩
  | arity {callee : Term} {arguments : List Term} {l : Location} {f : Function} (callable : Callable env callee f)
      (differs : f.arity ≠ arguments.length) :
      Raises limit depth env (.call callee arguments l) ⟨.arityMismatch f.arity arguments.length, l⟩
  | condition {condition whenTrue whenFalse : Term} {l : Location} {v : Value} (notBool : v.kind ≠ .bool) :
      Raises limit depth env (.cond condition whenTrue whenFalse l)
        ⟨.typeMismatch (.condition v.kind), condition.location⟩
  | operation {operator : Operator} {left right : Term} {l : Location} {a b : Value} {cause : Cause}
      (failed : operator.operate a b = .error cause) :
      Raises limit depth env (.binary operator left right l) ⟨cause, l⟩
  | operandTerm {t operand : Term} {half : Half} (asks : AsksFor t half operand)
      (refused : isProjectable operand = false) :
      Raises limit depth env t ⟨.typeMismatch (.operandTerm half operand.kind), operand.location⟩
  | operandValue {t operand : Term} {half : Half} {v : Value} (asks : AsksFor t half operand)
      (notPair : v.kind ≠ .tuple) :
      Raises limit depth env t ⟨.typeMismatch (.operandValue half v.kind), operand.location⟩

/-- A property of values that simple values have, and pairs if both halves have it. -/
structure Hereditary where
  holds : Value → Prop
  simple {v : Value} : v.isSimple = true → holds v
  tuple {a b : Value} : holds (.tuple a b) ↔ holds a ∧ holds b

def Hereditary.any : Hereditary := ⟨fun _ => True, fun _ => trivial, and_self_iff.symm⟩

/-- A property of runs, with what each kind of node has to contribute to it. A run has a licence, which says what it may
do to its environment; the body of a call has one of its own, since the copy on which it works is given up. -/
structure Invariant (limit : Nat) (Licence : Type) where
  /-- The term may be evaluated in the environment, with so many nodes under way. -/
  admits : Licence → Nat → Environment → Term → Prop
  /-- A run may turn the one environment into the other. -/
  becomes : Licence → Environment → Environment → Prop
  value : Hereditary
  error : EvalError → Prop
  becomes_refl (k : Licence) (env : Environment) : becomes k env env
  becomes_trans {k : Licence} {env₁ env₂ env₃ : Environment} :
    becomes k env₁ env₂ → becomes k env₂ env₃ → becomes k env₁ env₃
  admits_later {k : Licence} {d : Nat} {env env' : Environment} {t : Term} :
    admits k d env t → becomes k env env' → admits k d env' t
  operand {k : Licence} {d : Nat} {env : Environment} {t t' : Term} :
    admits k d env t → t' ∈ t.operands → admits k (d + 1) env t'
  forced {k : Licence} {d : Nat} {env : Environment} {name : String} {l : Location} {f : Function} :
    admits k d env (.var name l) → env.lookup name = some (.function f) → admits k (d + 1) env f.body
  /-- The function is found in the one environment, and its body runs on top of what the arguments made of it. -/
  called {k : Licence} {d : Nat} {env env' : Environment} {callee : Term} {arguments : List Term} {l : Location}
    {f : Function} {vs : List Value} : admits k d env (.call callee arguments l) → Callable env callee f →
    f.arity = arguments.length → becomes k env env' → vs.length = arguments.length → (∀ v ∈ vs, value.holds v) →
    ∃ k', admits k' (d + 1) (bodyScope env' f vs) f.body
  boundFunction {k : Licence} {d : Nat} {env : Environment} {name : Parameter} {parameters : List Parameter}
    {body next : Term} {place l : Location} : admits k d env (.letIn name (.function parameters body place) next l) →
    becomes k env (env.bind name.name (.function ⟨parameters, body⟩)) ∧
      admits k (d + 1) (env.bind name.name (.function ⟨parameters, body⟩)) next
  boundValue {k : Licence} {d : Nat} {env : Environment} {name : Parameter} {term next : Term} {l : Location}
    {v : Value} : admits k d env (.letIn name term next l) → term.kind ≠ .function → value.holds v →
    becomes k env (env.bind name.name (.value v)) ∧ admits k (d + 1) (env.bind name.name (.value v)) next
  held {k : Licence} {d : Nat} {env : Environment} {name : String} {l : Location} {v : Value} :
    admits k d env (.var name l) → env.lookup name = some (.value v) → value.holds v
  handedBack {k : Licence} {d : Nat} {env : Environment} {callee : Term} {arguments : List Term} {l : Location} :
    admits k d env (.call callee arguments l) → callee.kind ≠ .var → callee.kind ≠ .function →
    value.holds (.function ⟨[], callee⟩)
  raised {k : Licence} {d : Nat} {env : Environment} {t : Term} {e : EvalError} :
    admits k d env t → Raises limit d env t e → error e

namespace Invariant

variable {limit : Nat} {Licence : Type} {I : Invariant limit Licence} {k : Licence} {α β : Type}

def Upholds (I : Invariant limit Licence) (k : Licence) (P : α → Prop) (s : State) :
    EStateM.Result EvalError State α → Prop
  | .ok a s' => I.becomes k s.environment s'.environment ∧ s'.depth = s.depth ∧ P a
  | .error e s' => I.becomes k s.environment s'.environment ∧ I.error e

theorem Upholds.pure {P : α → Prop} {a : α} (h : P a) (s : State) : I.Upholds k P s ((Pure.pure a : Evaluation α) s) :=
  ⟨I.becomes_refl _ _, rfl, h⟩

theorem Upholds.fail {P : α → Prop} {cause : Cause} {location : Location} (h : I.error ⟨cause, location⟩) (s : State) :
    I.Upholds k P s ((Evaluation.fail cause location : Evaluation α) s) :=
  ⟨I.becomes_refl _ _, h⟩

theorem Upholds.of_becomes {P : α → Prop} {s s' : State} {r : EStateM.Result EvalError State α}
    (h : I.Upholds k P s' r) (hbecomes : I.becomes k s.environment s'.environment) (hdepth : s'.depth = s.depth) :
    I.Upholds k P s r := by
  cases r with
  | error e s'' => exact ⟨I.becomes_trans hbecomes h.1, h.2⟩
  | ok a s'' => exact ⟨I.becomes_trans hbecomes h.1, h.2.1.trans hdepth, h.2.2⟩

theorem Upholds.bind {P : α → Prop} {Q : β → Prop} {s : State} {m : Evaluation α} {f : α → Evaluation β}
    (hm : I.Upholds k P s (m s))
    (hf : ∀ a s', I.becomes k s.environment s'.environment → s'.depth = s.depth → P a → I.Upholds k Q s' (f a s')) :
    I.Upholds k Q s ((m >>= f) s) := by
  rw [bind_run]
  cases hr : m s with
  | error e s' =>
    rw [hr] at hm
    exact hm
  | ok a s' =>
    rw [hr] at hm
    obtain ⟨hbecomes, hdepth, ha⟩ := hm
    exact .of_becomes (hf a s' hbecomes hdepth ha) hbecomes hdepth

theorem Upholds.inFork {P : α → Prop} {k' : Licence} {s : State} {values : List (String × Value)} {m : Evaluation α}
    (h : I.Upholds k' P { s with environment := s.environment.fork values }
      (m { s with environment := s.environment.fork values })) :
    I.Upholds k P s (Evaluation.inFork values m s) := by
  unfold Evaluation.inFork
  cases hr : m { s with environment := s.environment.fork values } with
  | error e s' =>
    rw [hr] at h
    exact ⟨I.becomes_refl _ _, h.2⟩
  | ok a s' =>
    rw [hr] at h
    exact ⟨I.becomes_refl _ _, h.2.1, h.2.2⟩

section Steps

variable {eval : Term → Evaluation Value} {d : Nat}
  (he : ∀ k t s, s.depth = d + 1 → I.admits k (d + 1) s.environment t → I.Upholds k I.value.holds s (eval t s))

include he

theorem evalAll_upholds (ts : List Term) (s : State) (hs : s.depth = d + 1)
    (h : ∀ t ∈ ts, I.admits k (d + 1) s.environment t) :
    I.Upholds k (fun vs => vs.length = ts.length ∧ ∀ v ∈ vs, I.value.holds v) s (evalAll eval ts s) := by
  induction ts generalizing s with
  | nil => exact .pure ⟨rfl, by simp⟩ s
  | cons t rest ih =>
    obtain ⟨ht, hrest⟩ := List.forall_mem_cons.1 h
    refine .bind (he k t s hs ht) fun v s₁ hbecomes hdepth hv => ?_
    have hadmits : ∀ u ∈ rest, I.admits k (d + 1) s₁.environment u := fun u hu => I.admits_later (hrest u hu) hbecomes
    refine .bind (ih s₁ (hdepth.trans hs) hadmits) fun vs s₂ _ _ hvs => ?_
    exact .pure ⟨by simp [hvs.1], List.forall_mem_cons.2 ⟨hv, hvs.2⟩⟩ s₂

theorem call_upholds {callee : Term} {arguments : List Term} {l : Location} {f : Function} (s : State)
    (hs : s.depth = d + 1) (h : I.admits k d s.environment (.call callee arguments l))
    (hc : Callable s.environment callee f) : I.Upholds k I.value.holds s (call eval f arguments l s) := by
  unfold call
  split
  · rename_i arity
    have hoperands : ∀ t ∈ arguments, I.admits k (d + 1) s.environment t := fun t ht => I.operand h ht
    refine .bind (evalAll_upholds he arguments s hs hoperands) fun vs s' hbecomes hdepth hvs => ?_
    obtain ⟨k', hbody⟩ := I.called h hc arity hbecomes hvs.1 hvs.2
    exact .inFork (he k' f.body _ (hdepth.trans hs) hbody)
  · rename_i arity
    exact .fail (I.raised h (.arity hc arity)) s

theorem callTerm_upholds {callee : Term} {arguments : List Term} {l : Location} (s : State) (hs : s.depth = d + 1)
    (h : I.admits k d s.environment (.call callee arguments l)) :
    I.Upholds k I.value.holds s (callTerm eval callee arguments l s) := by
  by_cases hc : ∃ f, Callable s.environment callee f
  · obtain ⟨f, hc⟩ := hc
    rw [callTerm_callable hc]
    exact call_upholds he s hs h hc
  · by_cases hv : callee.kind = .var
    · cases callee with
      | var name place =>
        cases hb : s.environment.lookup name with
        | none => simpa [callTerm, hb] using Upholds.fail (I.raised h (.unboundCallee hb)) s
        | some binding =>
          cases binding with
          | function f => exact absurd ⟨f, .named hb⟩ hc
          | value v => simpa [callTerm, hb] using Upholds.fail (I.raised h (.calleeValue hb)) s
      | _ => cases hv
    · have hf : callee.kind ≠ .function := by
        intro hf
        cases callee <;> first | exact hc ⟨_, .literal⟩ | cases hf
      rw [callTerm_other hv hf]
      exact .pure (I.handedBack h hv hf) s

theorem project_upholds {t operand : Term} {half : Half} (asks : AsksFor t half operand) (s : State)
    (hs : s.depth = d + 1) (h : I.admits k d s.environment t) :
    I.Upholds k I.value.holds s (project eval half operand s) := by
  have hmem : operand ∈ t.operands := by cases asks <;> simp [Term.operands]
  unfold project
  split
  · refine .bind (he k operand s hs (I.operand h hmem)) fun v s' hbecomes _ hv => ?_
    cases v with
    | tuple a b =>
      obtain ⟨ha, hb⟩ := I.value.tuple.1 hv
      cases half with
      | first => exact .pure ha s'
      | second => exact .pure hb s'
    | _ =>
      refine .fail (I.raised (I.admits_later h hbecomes) (.operandValue asks ?_)) s'
      nofun
  · rename_i hno
    exact .fail (I.raised h (.operandTerm asks (by simpa using hno))) s

theorem evalVar_upholds {name : String} {l : Location} (s : State) (hs : s.depth = d + 1)
    (h : I.admits k d s.environment (.var name l)) : I.Upholds k I.value.holds s (evalVar eval name l s) := by
  cases hb : s.environment.lookup name with
  | none => simpa [evalVar, hb] using Upholds.fail (I.raised h (.unbound hb)) s
  | some binding =>
    cases binding with
    | value v => simpa [evalVar, hb] using Upholds.pure (I.held h hb) s
    | function f => simpa [evalVar, hb] using he k f.body s hs (I.forced h hb)

theorem letIn_upholds {name : Parameter} {value next : Term} {l : Location} (s : State) (hs : s.depth = d + 1)
    (h : I.admits k d s.environment (.letIn name value next l)) :
    I.Upholds k I.value.holds s (step eval (.letIn name value next l) s) := by
  by_cases hf : value.kind = .function
  · cases value with
    | function parameters body place =>
      obtain ⟨hbecomes, hnext⟩ := I.boundFunction h
      have hrest := he k next
        { s with environment := s.environment.bind name.name (.function ⟨parameters, body⟩) } hs hnext
      simp only [step, evalBinding, bind_run, pure_run, define_run]
      exact .of_becomes hrest hbecomes rfl
    | _ => cases hf
  · have hvalue : I.admits k (d + 1) s.environment value := I.operand h (by simp [Term.operands_letIn hf])
    have hbinding : I.Upholds k (fun binding => ∃ v, binding = .value v ∧ I.value.holds v) s
        (evalBinding eval value s) := by
      rw [evalBinding_other hf]
      exact .bind (he k value s hs hvalue) fun v s' _ _ hv => .pure ⟨v, rfl, hv⟩ s'
    refine .bind hbinding ?_
    rintro _ s' hbecomes hdepth ⟨v, rfl, hv⟩
    obtain ⟨hbecomes', hnext⟩ := I.boundValue (I.admits_later h hbecomes) hf hv
    have hrest := he k next { s' with environment := s'.environment.bind name.name (.value v) } (hdepth.trans hs) hnext
    rw [bind_run, define_run]
    exact .of_becomes hrest hbecomes' rfl

theorem step_upholds (t : Term) (s : State) (hs : s.depth = d + 1) (h : I.admits k d s.environment t) :
    I.Upholds k I.value.holds s (step eval t s) := by
  cases t with
  | int n l => exact .pure (I.value.simple rfl) s
  | str v l => exact .pure (I.value.simple rfl) s
  | bool b l => exact .pure (I.value.simple rfl) s
  | var name l => exact evalVar_upholds he s hs h
  | function parameters body l => exact he k body s hs (I.operand h (by simp [Term.operands]))
  | call callee arguments l => exact callTerm_upholds he s hs h
  | letIn name value next l => exact letIn_upholds he s hs h
  | cond condition whenTrue whenFalse l =>
    refine .bind (he k condition s hs (I.operand h (by simp [Term.operands]))) fun v s' hbecomes hdepth _ => ?_
    have hlater := I.admits_later h hbecomes
    cases v with
    | bool b =>
      cases b with
      | true => exact he k whenTrue s' (hdepth.trans hs) (I.operand hlater (by simp [Term.operands]))
      | false => exact he k whenFalse s' (hdepth.trans hs) (I.operand hlater (by simp [Term.operands]))
    | _ =>
      refine .fail (I.raised hlater (.condition ?_)) s'
      nofun
  | binary operator left right l =>
    refine .bind (he k left s hs (I.operand h (by simp [Term.operands]))) fun a s₁ hbecomes hdepth _ => ?_
    have hlater := I.admits_later h hbecomes
    have hright : I.admits k (d + 1) s₁.environment right := I.operand hlater (by simp [Term.operands])
    refine .bind (he k right s₁ (hdepth.trans hs) hright) fun b s₂ hbecomes' _ _ => ?_
    cases ho : operator.operate a b with
    | ok v => exact .pure (I.value.simple (Operator.operate_isSimple ho)) s₂
    | error cause => exact .fail (I.raised (I.admits_later hlater hbecomes') (.operation ho)) s₂
  | tuple left right l =>
    refine .bind (he k left s hs (I.operand h (by simp [Term.operands]))) fun a s₁ hbecomes hdepth ha => ?_
    have hlater := I.admits_later h hbecomes
    have hright : I.admits k (d + 1) s₁.environment right := I.operand hlater (by simp [Term.operands])
    exact .bind (he k right s₁ (hdepth.trans hs) hright) fun b s₂ _ _ hb => .pure (I.value.tuple.2 ⟨ha, hb⟩) s₂
  | first operand l => exact project_upholds he .first s hs h
  | second operand l => exact project_upholds he .second s hs h
  | print operand l =>
    refine .bind (he k operand s hs (I.operand h (by simp [Term.operands]))) fun v s' _ _ hv => ?_
    exact ⟨I.becomes_refl _ _, rfl, hv⟩

end Steps

theorem nested_upholds {P : α → Prop} {t : Term} {m : Evaluation α} (s : State)
    (h : I.admits k s.depth s.environment t)
    (hm : I.Upholds k P { s with depth := s.depth + 1 } (m { s with depth := s.depth + 1 })) :
    I.Upholds k P s (nested limit t.location m s) := by
  unfold nested
  split
  · cases hr : m { s with depth := s.depth + 1 } with
    | error e s' =>
      rw [hr] at hm
      exact hm
    | ok a s' =>
      rw [hr] at hm
      obtain ⟨hbecomes, hdepth, ha⟩ := hm
      refine ⟨hbecomes, ?_, ha⟩
      simp [hdepth]
  · rename_i hfull
    exact ⟨I.becomes_refl _ _, I.raised h (.depth (Nat.le_of_not_lt hfull))⟩

theorem evalWithin_upholds (room : Nat) (k : Licence) (t : Term) (s : State) (hroom : limit ≤ s.depth + room)
    (h : I.admits k s.depth s.environment t) : I.Upholds k I.value.holds s (evalWithin limit room t s) := by
  -- The bound of the recursion runs out only where the limit refuses the node as well.
  induction room generalizing k t s with
  | zero => exact .fail (I.raised h (.depth hroom)) s
  | succ room ih =>
    have hstep : I.Upholds k I.value.holds { s with depth := s.depth + 1 }
        (step (evalWithin limit room) t { s with depth := s.depth + 1 }) := by
      refine step_upholds ?_ t _ rfl h
      intro k' t' s' hs' h'
      exact ih k' t' s' (by omega) (hs' ▸ h')
    rw [evalWithin_succ]
    exact nested_upholds s h hstep

theorem eval_upholds (I : Invariant limit Licence) (k : Licence) (t : Term) (s : State)
    (h : I.admits k s.depth s.environment t) : I.Upholds k I.value.holds s (eval limit t s) :=
  evalWithin_upholds (limit - s.depth) k t s (by omega) h

theorem evaluate_upholds {e : Evaluator} (I : Invariant e.limit Licence) {t : Term} {env : Environment}
    (h : I.admits k e.depth env t) :
    I.becomes k env (e.evaluate t env).2.1 ∧ (∀ v, (e.evaluate t env).1 = .ok v → I.value.holds v) ∧
      ∀ err, (e.evaluate t env).1 = .error err → I.error err := by
  have hrun := I.eval_upholds k t ⟨env, e.printer, e.depth⟩ h
  cases hr : eval e.limit t ⟨env, e.printer, e.depth⟩ with
  | ok v s =>
    rw [hr] at hrun
    rw [Evaluator.evaluate_reply (r := .ok v) hr]
    refine ⟨hrun.1, fun w hw => ?_, fun err herr => ?_⟩
    · cases hw
      exact hrun.2.2
    · cases herr
  | error err s =>
    rw [hr] at hrun
    rw [Evaluator.evaluate_reply (r := .error err) hr]
    refine ⟨hrun.1, fun w hw => ?_, fun err' herr => ?_⟩
    · cases hw
    · cases herr
      exact hrun.2

end Invariant

end Evaluation

end Treewalk

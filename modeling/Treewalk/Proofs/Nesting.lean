import Treewalk.Proofs.Runs

/-! Which evaluations a node opens inside its own, and what the counter of nodes under way shows meanwhile.

`Opens eval t s t' s'` lists the places where the node `t`, run from the state `s`, evaluates the term `t'`
from the state `s'`; `step_congr` says that the list is complete. All of them stand at the depth of the node,
so that `eval` is the solution of its own recursive equation, `eval_eq`: the bound of the recursion is never
what ends a run. -/
namespace Treewalk.Evaluation

/-- The function that a callee stands for: the one its name is bound to, or the literal itself. -/
inductive Callable (env : Environment) : Term → Function → Prop
  | named {name : String} {place : Location} {f : Function}
      (bound : env.lookup name = some (.function f)) : Callable env (.var name place) f
  | literal {parameters : List Parameter} {body : Term} {place : Location} :
      Callable env (.function parameters body place) ⟨parameters, body⟩

def bodyScope (env : Environment) (f : Function) (values : List Value) : Environment :=
  env.fork ((f.parameters.map (·.name)).zip values)

/-- The node `t`, run from `s`, evaluates the subterm or body `t'` from `s'`. -/
inductive Opens (eval : Term → Evaluation Value) : Term → State → Term → State → Prop
  | forced {name : String} {l : Location} {f : Function} {s : State}
      (bound : s.environment.lookup name = some (.function f)) : Opens eval (.var name l) s f.body s
  | body {parameters : List Parameter} {body : Term} {l : Location} {s : State} :
      Opens eval (.function parameters body l) s body s
  | argument {callee t : Term} {before after : List Term} {l : Location} {f : Function} {s s' : State}
      {vs : List Value} (callable : Callable s.environment callee f)
      (arity : f.arity = (before ++ t :: after).length) (done : evalAll eval before s = .ok vs s') :
      Opens eval (.call callee (before ++ t :: after) l) s t s'
  | called {callee : Term} {arguments : List Term} {l : Location} {f : Function} {s s' : State}
      {vs : List Value} (callable : Callable s.environment callee f) (arity : f.arity = arguments.length)
      (done : evalAll eval arguments s = .ok vs s') :
      Opens eval (.call callee arguments l) s f.body
        { s' with environment := bodyScope s'.environment f vs }
  | bound {name : Parameter} {value next : Term} {l : Location} {s : State}
      (notFunction : value.kind ≠ .function) : Opens eval (.letIn name value next l) s value s
  | next {name : Parameter} {value next : Term} {l : Location} {s s' : State} {binding : Binding}
      (done : evalBinding eval value s = .ok binding s') :
      Opens eval (.letIn name value next l) s next
        { s' with environment := s'.environment.bind name.name binding }
  | condition {condition whenTrue whenFalse : Term} {l : Location} {s : State} :
      Opens eval (.cond condition whenTrue whenFalse l) s condition s
  | whenTrue {condition whenTrue whenFalse : Term} {l : Location} {s s' : State}
      (done : eval condition s = .ok (.bool true) s') :
      Opens eval (.cond condition whenTrue whenFalse l) s whenTrue s'
  | whenFalse {condition whenTrue whenFalse : Term} {l : Location} {s s' : State}
      (done : eval condition s = .ok (.bool false) s') :
      Opens eval (.cond condition whenTrue whenFalse l) s whenFalse s'
  | left {operator : Operator} {left right : Term} {l : Location} {s : State} :
      Opens eval (.binary operator left right l) s left s
  | right {operator : Operator} {left right : Term} {l : Location} {s s' : State} {v : Value}
      (done : eval left s = .ok v s') : Opens eval (.binary operator left right l) s right s'
  | tupleFirst {left right : Term} {l : Location} {s : State} : Opens eval (.tuple left right l) s left s
  | tupleSecond {left right : Term} {l : Location} {s s' : State} {v : Value}
      (done : eval left s = .ok v s') : Opens eval (.tuple left right l) s right s'
  | firstOf {operand : Term} {l : Location} {s : State} (allowed : isProjectable operand = true) :
      Opens eval (.first operand l) s operand s
  | secondOf {operand : Term} {l : Location} {s : State} (allowed : isProjectable operand = true) :
      Opens eval (.second operand l) s operand s
  | printed {operand : Term} {l : Location} {s : State} : Opens eval (.print operand l) s operand s

theorem callTerm_callable {eval : Term → Evaluation Value} {callee : Term} {f : Function} {s : State}
    (h : Callable s.environment callee f) (arguments : List Term) (l : Location) :
    callTerm eval callee arguments l s = call eval f arguments l s := by
  cases h with
  | named bound => simp [callTerm, bound]
  | literal => rfl

theorem callTerm_other {eval : Term → Evaluation Value} {callee : Term} (hv : callee.kind ≠ .var)
    (hf : callee.kind ≠ .function) (arguments : List Term) (l : Location) :
    callTerm eval callee arguments l = pure (.function ⟨[], callee⟩) := by
  cases callee <;> first | rfl | exact absurd rfl hv | exact absurd rfl hf

/-- Without a function to call, no evaluation is opened. -/
theorem callTerm_not_callable {eval eval' : Term → Evaluation Value} {callee : Term} {s : State}
    (h : ¬ ∃ f, Callable s.environment callee f) (arguments : List Term) (l : Location) :
    callTerm eval' callee arguments l s = callTerm eval callee arguments l s := by
  cases callee with
  | var name place =>
    cases hb : s.environment.lookup name with
    | none => simp [callTerm, hb]
    | some binding =>
      cases binding with
      | value v => simp [callTerm, hb]
      | function f => exact absurd ⟨f, .named hb⟩ h
  | function parameters body place => exact absurd ⟨_, .literal⟩ h
  | _ => rfl

theorem evalBinding_other {eval : Term → Evaluation Value} {value : Term} (hf : value.kind ≠ .function) :
    evalBinding eval value = eval value >>= fun v => pure (.value v) := by
  cases value <;> first | rfl | exact absurd rfl hf

section Agreement

variable {eval eval' : Term → Evaluation Value}

theorem evalAll_congr (ts : List Term) (s : State)
    (h : ∀ before t after vs s', ts = before ++ t :: after → evalAll eval before s = .ok vs s' →
      eval' t s' = eval t s') :
    evalAll eval' ts s = evalAll eval ts s := by
  induction ts generalizing s with
  | nil => rfl
  | cons t rest ih =>
    have hhead : eval' t s = eval t s := h [] t rest [] s rfl rfl
    simp only [evalAll, bind_run, hhead]
    cases hv : eval t s with
    | error e s₁ => rfl
    | ok v s₁ =>
      have htail : evalAll eval' rest s₁ = evalAll eval rest s₁ := by
        apply ih
        intro before u after vs s' hsplit hdone
        refine h (t :: before) u after (v :: vs) s' (by simp [hsplit]) ?_
        simp [evalAll, hv, hdone]
      simp only [htail]

theorem call_congr {callee : Term} {f : Function} (arguments : List Term) (l : Location) (s : State)
    (hc : Callable s.environment callee f)
    (h : ∀ t' s', Opens eval (.call callee arguments l) s t' s' → eval' t' s' = eval t' s') :
    call eval' f arguments l s = call eval f arguments l s := by
  unfold call
  split
  · rename_i arity
    have hall : evalAll eval' arguments s = evalAll eval arguments s := by
      apply evalAll_congr
      intro before t after vs s' hsplit hdone
      subst hsplit
      exact h t s' (.argument hc arity hdone)
    simp only [bind_run, hall]
    cases hvs : evalAll eval arguments s with
    | error e s' => rfl
    | ok vs s' =>
      have hbody := h _ _ (.called hc arity hvs)
      simp only [inFork]
      rw [bodyScope] at hbody
      rw [hbody]
  · rfl

theorem project_congr (half : Half) (operand : Term) (s : State)
    (h : isProjectable operand = true → eval' operand s = eval operand s) :
    project eval' half operand s = project eval half operand s := by
  unfold project
  split
  · rename_i allowed
    simp only [bind_run, h allowed]
  · rfl

/-- What a node does hangs on the evaluations that it opens and on no other. -/
theorem step_congr (t : Term) (s : State) (h : ∀ t' s', Opens eval t s t' s' → eval' t' s' = eval t' s') :
    step eval' t s = step eval t s := by
  cases t with
  | int n l => rfl
  | str v l => rfl
  | bool b l => rfl
  | var name l =>
    cases hb : s.environment.lookup name with
    | none => simp [step, evalVar, hb]
    | some binding =>
      cases binding with
      | value v => simp [step, evalVar, hb]
      | function f => simpa [step, evalVar, hb] using h _ _ (.forced hb)
  | function parameters body l => exact h _ _ .body
  | call callee arguments l =>
    simp only [step]
    by_cases hc : ∃ f, Callable s.environment callee f
    · obtain ⟨f, hc⟩ := hc
      rw [callTerm_callable hc, callTerm_callable hc]
      exact call_congr arguments l s hc h
    · exact callTerm_not_callable hc arguments l
  | letIn name value next l =>
    have hvalue : evalBinding eval' value s = evalBinding eval value s := by
      by_cases hf : value.kind = .function
      · cases value <;> first | rfl | cases hf
      · simp only [evalBinding_other hf, bind_run, h _ _ (.bound hf)]
    simp only [step, bind_run, hvalue]
    cases hb : evalBinding eval value s with
    | error e s' => rfl
    | ok binding s' => simpa using h _ _ (.next hb)
  | cond condition whenTrue whenFalse l =>
    simp only [step, bind_run, h _ _ .condition]
    cases hv : eval condition s with
    | error e s' => rfl
    | ok v s' =>
      cases v with
      | bool b =>
        cases b with
        | true => exact h _ _ (.whenTrue hv)
        | false => exact h _ _ (.whenFalse hv)
      | _ => rfl
  | binary operator left right l =>
    simp only [step, bind_run, h _ _ .left]
    cases hv : eval left s with
    | error e s' => rfl
    | ok v s' => simp only [h _ _ (.right hv)]
  | tuple left right l =>
    simp only [step, bind_run, h _ _ .tupleFirst]
    cases hv : eval left s with
    | error e s' => rfl
    | ok v s' => simp only [h _ _ (.tupleSecond hv)]
  | first operand l => exact project_congr .first operand s fun allowed => h _ _ (.firstOf allowed)
  | second operand l => exact project_congr .second operand s fun allowed => h _ _ (.secondOf allowed)
  | print operand l => simp only [step, bind_run, h _ _ .printed]

end Agreement

theorem Steady.depth_eq {α : Type} {m : Evaluation α} (hm : Steady m) {s s' : State}
    {r : Except EvalError α} (h : m s = reply r s') : s'.depth = s.depth := by
  obtain ⟨r', env, lines, hrun⟩ := hm s.environment s.depth
  have hs := h.symm.trans (hrun s.printer)
  cases r <;> cases r' <;> simp_all

theorem Steady.depth_of_ok {α : Type} {m : Evaluation α} (hm : Steady m) {a : α} {s s' : State}
    (h : m s = .ok a s') : s'.depth = s.depth := hm.depth_eq (r := .ok a) h

theorem Opens.depth_eq {eval : Term → Evaluation Value} (he : ∀ t, Steady (eval t)) {t t' : Term}
    {s s' : State} (h : Opens eval t s t' s') : s'.depth = s.depth := by
  cases h with
  | argument _ _ done => exact (evalAll_steady he _).depth_of_ok done
  | called _ _ done =>
    have hdepth := (evalAll_steady he _).depth_of_ok done
    exact hdepth
  | next done =>
    have hdepth := (evalBinding_steady he _).depth_of_ok done
    exact hdepth
  | whenTrue done => exact (he _).depth_of_ok done
  | whenFalse done => exact (he _).depth_of_ok done
  | right done => exact (he _).depth_of_ok done
  | tupleSecond done => exact (he _).depth_of_ok done
  | _ => rfl

/-- The recursive equation of evaluation. -/
theorem eval_eq (limit : Nat) (t : Term) : eval limit t = nested limit t.location (step (eval limit) t) := by
  funext s
  by_cases hd : s.depth < limit
  · obtain ⟨room, hroom⟩ : ∃ room, limit - s.depth = room + 1 := ⟨limit - s.depth - 1, by omega⟩
    have hstep : step (eval limit) t { s with depth := s.depth + 1 } =
        step (evalWithin limit room) t { s with depth := s.depth + 1 } := by
      apply step_congr
      intro t' s' h
      have hs : s'.depth = s.depth + 1 := h.depth_eq (evalWithin_steady limit room)
      have hleft : limit - s'.depth = room := by omega
      rw [eval, hleft]
    rw [eval, hroom, evalWithin_succ]
    simp only [nested, hd, if_true, hstep]
  · have hzero : limit - s.depth = 0 := by omega
    rw [eval, hzero, evalWithin_zero]
    simp [nested, hd]

/-- While `t` is evaluated from `s`, the counter of nodes under way shows `n`. It changes in two places only,
when a node is entered and when it is left. The values are integers, so that going below zero would show. -/
inductive Shows (limit : Nat) : Term → State → Int → Prop
  | before {t : Term} {s : State} : Shows limit t s s.depth
  | entered {t : Term} {s : State} (room : s.depth < limit) : Shows limit t s (s.depth + 1)
  | inside {t t' : Term} {s s' : State} {n : Int} (room : s.depth < limit)
      (opens : Opens (eval limit) t { s with depth := s.depth + 1 } t' s') (shown : Shows limit t' s' n) :
      Shows limit t s n
  | ended {t : Term} {s s' : State} {r : Except EvalError Value} (room : s.depth < limit)
      (done : step (eval limit) t { s with depth := s.depth + 1 } = reply r s') : Shows limit t s s'.depth
  | left {t : Term} {s s' : State} {r : Except EvalError Value} (room : s.depth < limit)
      (done : step (eval limit) t { s with depth := s.depth + 1 } = reply r s') :
      Shows limit t s (s'.depth - 1)

/-- Within an evaluation the counter stays between its value on entry and the limit. -/
theorem Shows.bounds {limit : Nat} {t : Term} {s : State} {n : Int} (h : Shows limit t s n)
    (hs : s.depth ≤ limit) : s.depth ≤ n ∧ n ≤ limit := by
  induction h with
  | before => omega
  | entered room => omega
  | @inside t t' s s' n room opens shown ih =>
    have hdepth : s'.depth = s.depth + 1 := opens.depth_eq (eval_steady limit)
    have hn := ih (by omega)
    omega
  | @ended t s s' r room done =>
    have hdepth : s'.depth = s.depth + 1 := (step_steady (eval_steady limit) t).depth_eq done
    omega
  | @left t s s' r room done =>
    have hdepth : s'.depth = s.depth + 1 := (step_steady (eval_steady limit) t).depth_eq done
    omega

end Treewalk.Evaluation

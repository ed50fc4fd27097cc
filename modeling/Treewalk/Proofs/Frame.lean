import Treewalk.Proofs.Invariants

/-! What an evaluation leaves alone.

Bindings extend the environment in place, so what a term may change are the names that it binds itself and those that
a function it runs in place binds. A call changes nothing beyond what its arguments do. -/
namespace Treewalk

namespace Term

mutual

/-- The names that the bindings of a term give, those inside callees apart. -/
def letNames : Term → List String
  | int .. => []
  | str .. => []
  | bool .. => []
  | var .. => []
  | function _ body _ => letNames body
  | call _ arguments _ => letNamesAll arguments
  | letIn name value next _ => name.name :: letNames value ++ letNames next
  | cond condition whenTrue whenFalse _ => letNames condition ++ letNames whenTrue ++ letNames whenFalse
  | binary _ left right _ => letNames left ++ letNames right
  | tuple a b _ => letNames a ++ letNames b
  | first operand _ => letNames operand
  | second operand _ => letNames operand
  | print operand _ => letNames operand

def letNamesAll : List Term → List String
  | [] => []
  | t :: rest => letNames t ++ letNamesAll rest

end

theorem letNames_subset_letNamesAll {t : Term} {ts : List Term} (h : t ∈ ts) : t.letNames ⊆ letNamesAll ts := by
  induction ts with
  | nil => cases h
  | cons head rest ih =>
    rcases List.mem_cons.1 h with rfl | h
    · exact List.subset_append_left _ _
    · exact List.subset_append_of_subset_right _ (ih h)

theorem letNames_subset_of_operand {t u : Term} (h : u ∈ t.operands) : u.letNames ⊆ t.letNames := by
  intro x hx
  cases t with
  | call callee arguments l => exact letNames_subset_letNamesAll h hx
  | letIn name value next l =>
    have hchild := operands_subset_children _ h
    simp only [children, List.mem_cons, List.not_mem_nil, or_false] at hchild
    rcases hchild with rfl | rfl <;> simp [letNames, hx]
  | cond condition whenTrue whenFalse l =>
    simp only [operands, List.mem_cons, List.not_mem_nil, or_false] at h
    rcases h with rfl | rfl | rfl <;> simp [letNames, hx]
  | binary operator left right l =>
    simp only [operands, List.mem_cons, List.not_mem_nil, or_false] at h
    rcases h with rfl | rfl <;> simp [letNames, hx]
  | tuple a b l =>
    simp only [operands, List.mem_cons, List.not_mem_nil, or_false] at h
    rcases h with rfl | rfl <;> simp [letNames, hx]
  | function parameters body l =>
    obtain rfl := List.mem_singleton.1 h
    exact hx
  | first operand l =>
    obtain rfl := List.mem_singleton.1 h
    exact hx
  | second operand l =>
    obtain rfl := List.mem_singleton.1 h
    exact hx
  | print operand l =>
    obtain rfl := List.mem_singleton.1 h
    exact hx
  | _ => cases h

end Term

namespace Environment

def Confined (names : String → Prop) (env : Environment) : Prop :=
  ∀ name f, env.lookup name = some (.function f) → ∀ x ∈ f.body.letNames, names x

/-- An environment that comes from another by binding some of the given names. -/
structure ChangedAt (names : String → Prop) (env env' : Environment) : Prop where
  kept : ∀ x, env.contains x = true → env'.contains x = true
  only : ∀ x, env'.lookup x ≠ env.lookup x → names x
  confined : Confined names env → Confined names env'

variable {names : String → Prop}

theorem ChangedAt.refl (env : Environment) : ChangedAt names env env :=
  ⟨fun _ h => h, fun _ h => absurd rfl h, fun h => h⟩

theorem ChangedAt.trans {env₁ env₂ env₃ : Environment} (h : ChangedAt names env₁ env₂)
    (h' : ChangedAt names env₂ env₃) : ChangedAt names env₁ env₃ := by
  refine ⟨fun x hx => h'.kept x (h.kept x hx), fun x hx => ?_, fun hc => h'.confined (h.confined hc)⟩
  by_cases hsame : env₃.lookup x = env₂.lookup x
  · exact h.only x (hsame ▸ hx)
  · exact h'.only x hsame

theorem ChangedAt.bind {env : Environment} {name : String} {binding : Binding} (hname : names name)
    (hbinding : ∀ f, binding = .function f → ∀ x ∈ f.body.letNames, names x) :
    ChangedAt names env (env.bind name binding) := by
  constructor
  · intro x hx
    exact contains_bind.2 (.inr hx)
  · intro x hx
    by_cases h : name = x
    · exact h ▸ hname
    · simp [h] at hx
  · intro hc other f hf x hx
    rw [lookup_bind] at hf
    split at hf
    · exact hbinding f (Option.some.inj hf) x hx
    · exact hc other f hf x hx

end Environment

namespace Evaluation

open Environment

/-- Runs with a licence to change some names. The body of a call may do as it pleases. -/
def frame (limit : Nat) : Invariant limit (String → Prop) where
  admits names _ env t := Confined names env ∧ ∀ x ∈ t.letNames, names x
  becomes names := ChangedAt names
  value := .any
  error _ := True
  becomes_refl _ := ChangedAt.refl
  becomes_trans := ChangedAt.trans
  admits_later h hbecomes := ⟨hbecomes.confined h.1, h.2⟩
  operand h hu := ⟨h.1, fun x hx => h.2 x (Term.letNames_subset_of_operand hu hx)⟩
  forced h hf := ⟨h.1, h.1 _ _ hf⟩
  called _ _ _ _ _ _ := ⟨fun _ => True, fun _ _ _ _ _ => trivial, fun _ _ => trivial⟩
  boundFunction {names _ env name parameters body next _ _} h := by
    have hchange : ChangedAt names env (env.bind name.name (.function ⟨parameters, body⟩)) := by
      refine .bind (h.2 _ (by simp [Term.letNames])) ?_
      rintro f hf x hx
      cases hf
      exact h.2 x (by simp [Term.letNames, hx])
    exact ⟨hchange, hchange.confined h.1, fun x hx => h.2 x (by simp [Term.letNames, hx])⟩
  boundValue {names _ env name term next _ v} h _ _ := by
    have hchange : ChangedAt names env (env.bind name.name (.value v)) :=
      .bind (h.2 _ (by simp [Term.letNames])) fun f hf => by cases hf
    exact ⟨hchange, hchange.confined h.1, fun x hx => h.2 x (by simp [Term.letNames, hx])⟩
  held _ _ := trivial
  handedBack _ _ _ := trivial
  raised _ _ := trivial

theorem eval_full {limit : Nat} {s : State} (h : limit ≤ s.depth) (t : Term) :
    eval limit t s = .error ⟨.depthExceeded limit, t.location⟩ s := by
  rw [eval_eq]
  simp [nested, Nat.not_lt.2 h]

theorem inFork_environment {α : Type} (values : List (String × Value)) (m : Evaluation α) (s : State) :
    ∃ r s', inFork values m s = reply r s' ∧ s'.environment = s.environment := by
  unfold inFork
  cases m { s with environment := s.environment.fork values } with
  | ok a s' => exact ⟨.ok a, { s' with environment := s.environment }, rfl, rfl⟩
  | error e s' => exact ⟨.error e, { s' with environment := s.environment }, rfl, rfl⟩

theorem nested_reply {α : Type} {limit : Nat} {location : Location} {m : Evaluation α} {s s' : State}
    {r : Except EvalError α} (hd : s.depth < limit) (h : m { s with depth := s.depth + 1 } = reply r s') :
    nested limit location m s = reply r { s' with depth := s'.depth - 1 } := by
  cases r <;> simp [nested, hd, h]

end Evaluation

namespace Evaluator

open Evaluation Environment

/-- Evaluating terms one after the other succeeds with values, and leaves an environment and an evaluator. -/
inductive Evaluates : Evaluator → List Term → Environment → List Value → Environment → Evaluator → Prop
  | nil (e : Evaluator) (env : Environment) : Evaluates e [] env [] env e
  | cons {e e₁ e₂ : Evaluator} {t : Term} {rest : List Term} {env env₁ env₂ : Environment} {v : Value}
      {vs : List Value} (head : e.evaluate t env = (.ok v, env₁, e₁)) (tail : Evaluates e₁ rest env₁ vs env₂ e₂) :
      Evaluates e (t :: rest) env (v :: vs) env₂ e₂

theorem eval_of_evaluate {e e' : Evaluator} {t : Term} {env env' : Environment} {v : Value}
    (h : e.evaluate t env = (.ok v, env', e')) :
    eval e.limit t ⟨env, e.printer, e.depth⟩ = .ok v ⟨env', e'.printer, e'.depth⟩ ∧ e'.limit = e.limit := by
  unfold evaluate at h
  cases hr : eval e.limit t ⟨env, e.printer, e.depth⟩ with
  | error err s => simp [hr] at h
  | ok w s =>
    simp only [hr, Prod.mk.injEq, Except.ok.injEq] at h
    obtain ⟨rfl, rfl, rfl⟩ := h
    exact ⟨rfl, rfl⟩

theorem Evaluates.evalAll_eq {e e' : Evaluator} {ts : List Term} {env env' : Environment} {vs : List Value}
    (h : Evaluates e ts env vs env' e') :
    evalAll (eval e.limit) ts ⟨env, e.printer, e.depth⟩ = .ok vs ⟨env', e'.printer, e'.depth⟩ := by
  induction h with
  | nil e env => rfl
  | cons head tail ih =>
    obtain ⟨hhead, hlimit⟩ := eval_of_evaluate head
    rw [hlimit] at ih
    simp [evalAll, hhead, ih]

/-- A call leaves the environment that its arguments leave. Arguments stand one level inside the call. -/
theorem evaluate_call_environment {e e' : Evaluator} {callee : Term} {arguments : List Term} {l : Location}
    {f : Function} {env env' : Environment} {vs : List Value} (hc : Callable env callee f)
    (arity : f.arity = arguments.length)
    (h : Evaluates { e with depth := e.depth + 1 } arguments env vs env' e') :
    (e.evaluate (.call callee arguments l) env).2.1 = env' := by
  by_cases hd : e.depth < e.limit
  · obtain ⟨r, s', hfork, henv⟩ := inFork_environment ((f.parameters.map (·.name)).zip vs) (eval e.limit f.body)
      ⟨env', e'.printer, e'.depth⟩
    have hcall : step (eval e.limit) (.call callee arguments l) ⟨env, e.printer, e.depth + 1⟩ = reply r s' := by
      have hall := h.evalAll_eq
      simp only [step, callTerm_callable (s := ⟨env, e.printer, e.depth + 1⟩) hc, call, arity, if_true, bind_run]
      rw [hall]
      exact hfork
    have heval : eval e.limit (.call callee arguments l) ⟨env, e.printer, e.depth⟩ =
        reply r { s' with depth := s'.depth - 1 } := by
      rw [eval_eq]
      exact nested_reply (s := ⟨env, e.printer, e.depth⟩) hd hcall
    rw [evaluate_reply heval]
    exact henv
  · -- The call is refused unseen, and so would be any argument.
    have hfull : e.limit ≤ e.depth := Nat.le_of_not_lt hd
    cases h with
    | nil =>
      have hrun := eval_full (s := ⟨env, e.printer, e.depth⟩) hfull (.call callee [] l)
      rw [evaluate_reply (r := .error _) hrun]
    | cons head tail =>
      obtain ⟨hhead, -⟩ := eval_of_evaluate head
      rw [eval_full (Nat.le_succ_of_le hfull)] at hhead
      cases hhead

/-- Every name that was bound stays bound, and one whose binding changes is the name of a binding in the term or in
the body of a function bound before, outside callees. A call whose arguments all succeed leaves what they leave,
however its body ends. -/
theorem evaluate_changes_only_own_names (e : Evaluator) (t : Term) (env : Environment) :
    (∀ x, env.contains x = true → (e.evaluate t env).2.1.contains x = true) ∧
    (∀ x, (e.evaluate t env).2.1.lookup x ≠ env.lookup x →
      x ∈ t.letNames ∨ ∃ name f, env.lookup name = some (.function f) ∧ x ∈ f.body.letNames) ∧
    (∀ callee arguments l f vs env' e', Callable env callee f → f.arity = arguments.length →
      Evaluates { e with depth := e.depth + 1 } arguments env vs env' e' →
      (e.evaluate (.call callee arguments l) env).2.1 = env') := by
  let names : String → Prop := fun x =>
    x ∈ t.letNames ∨ ∃ name f, env.lookup name = some (.function f) ∧ x ∈ f.body.letNames
  have hconfined : Confined names env := fun name f hf x hx => .inr ⟨name, f, hf, hx⟩
  have hadmits : (frame e.limit).admits names e.depth env t := ⟨hconfined, fun x hx => .inl hx⟩
  obtain ⟨hchanged, -, -⟩ := (frame e.limit).evaluate_upholds hadmits
  refine ⟨hchanged.kept, hchanged.only, ?_⟩
  intro callee arguments l f vs env' e' hc arity h
  exact evaluate_call_environment hc arity h

/-- Naming `g` without calling it runs its body in place, which binds `y`: the name is not one of the term's own. The
body of the literal binds `z` on a copy, while the argument binds `w` for good. -/
theorem evaluate_changes_only_own_names_forced_and_called :
    let l := Location.unknown
    let env := Environment.empty.bind "g" (.function ⟨[], .letIn ⟨"y", l⟩ (.int 1 l) (.var "y" l) l⟩)
    let callee := Term.function [⟨"x", l⟩] (.letIn ⟨"z", l⟩ (.var "x" l) (.var "z" l) l) l
    let argument := Term.letIn ⟨"w", l⟩ (.int 2 l) (.var "w" l) l
    ((buffered 10).evaluate (.var "g" l) env).2.1.contains "g" = true ∧
    ("y" ∈ (Term.var "g" l).letNames ∨
      ∃ name f, env.lookup name = some (.function f) ∧ "y" ∈ f.body.letNames) ∧
    ((buffered 10).evaluate (.call callee [argument] l) env).2.1 = env.bind "w" (.value (.int 2)) := by
  intro l env callee argument
  obtain ⟨hkept, honly, hcall⟩ := evaluate_changes_only_own_names (buffered 10) (.var "g" l) env
  have hforced : ((buffered 10).evaluate (.var "g" l) env).2.1.lookup "y" = some (.value (.int 1)) := rfl
  have hfree : env.lookup "y" = none := by decide
  have hargument : Evaluates { buffered 10 with depth := 1 } [argument] env [.int 2]
      (env.bind "w" (.value (.int 2))) { buffered 10 with depth := 1 } := .cons rfl (.nil _ _)
  refine ⟨hkept "g" (by decide), honly "y" ?_, ?_⟩
  · rw [hforced, hfree]
    nofun
  · exact hcall callee [argument] l _ [.int 2] _ _ .literal rfl hargument

end Evaluator

end Treewalk

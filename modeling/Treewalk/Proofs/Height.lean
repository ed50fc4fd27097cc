import Treewalk.Proofs.Subterms

/-! Runs that need no more depth than their term has.

Recursion comes from functions that are bound to names: a body can then run any number of times inside itself. Where no
name stands for a function, each node under way is part of the one around it, so that the height of the term bounds how
many there are. Functions inside values never run and do not matter. -/
namespace Treewalk

namespace Term

mutual

/-- Number of nodes on the longest way from the root to a leaf. Function bodies and callees count as well. -/
def height : Term → Nat
  | int .. => 1
  | str .. => 1
  | bool .. => 1
  | var .. => 1
  | function _ body _ => 1 + height body
  | call callee arguments _ => 1 + max (height callee) (heightAll arguments)
  | letIn _ value next _ => 1 + max (height value) (height next)
  | cond condition whenTrue whenFalse _ => 1 + max (height condition) (max (height whenTrue) (height whenFalse))
  | binary _ left right _ => 1 + max (height left) (height right)
  | tuple a b _ => 1 + max (height a) (height b)
  | first operand _ => 1 + height operand
  | second operand _ => 1 + height operand
  | print operand _ => 1 + height operand

def heightAll : List Term → Nat
  | [] => 0
  | t :: rest => max (height t) (heightAll rest)

end

theorem height_le_heightAll {t : Term} {ts : List Term} (h : t ∈ ts) : t.height ≤ heightAll ts := by
  induction ts with
  | nil => cases h
  | cons head rest ih =>
    rw [heightAll]
    rcases List.mem_cons.1 h with rfl | h
    · omega
    · have hrest := ih h
      omega

theorem height_eq (t : Term) : t.height = 1 + heightAll t.children := by
  cases t <;> simp [height, children, heightAll]

theorem height_lt_of_child {t u : Term} (h : u ∈ t.children) : u.height < t.height := by
  have hle := height_le_heightAll h
  rw [height_eq t]
  omega

def bindsFunction : Term → Bool
  | letIn _ (function ..) _ _ => true
  | _ => false

end Term

namespace Environment

/-- No name stands for a function that can be called. Values may hold functions. -/
def Functionless (env : Environment) : Prop := ∀ name f, env.lookup name ≠ some (.function f)

theorem functionless_empty : empty.Functionless := by
  intro name f h
  cases h

variable {env : Environment}

theorem Functionless.bind (h : env.Functionless) (name : String) (v : Value) :
    (env.bind name (.value v)).Functionless := by
  intro other f hf
  rw [lookup_bind] at hf
  split at hf
  · cases hf
  · exact h other f hf

theorem Functionless.bodyScope (h : env.Functionless) (f : Function) (vs : List Value) :
    (Evaluation.bodyScope env f vs).Functionless := by
  intro name g hg
  exact h name g (lookup_of_fork_function hg)

end Environment

namespace Evaluation

/-- A node refuses to run for want of depth only at the limit. -/
theorem Raises.ne_depthExceeded {limit d : Nat} {env : Environment} {t : Term} {e : EvalError}
    (h : Raises limit d env t e) (hroom : d < limit) (n : Nat) : e.cause ≠ .depthExceeded n := by
  intro hcause
  cases h with
  | depth full => omega
  | operation failed => rcases Operator.operate_error failed with rfl | rfl <;> cases hcause
  | _ => cases hcause

/-- Terms that bind no function, with room for their height. -/
structure Fits (limit d : Nat) (env : Environment) (t : Term) : Prop where
  functionless : env.Functionless
  binds : t.MadeOf fun n => n.bindsFunction = false
  room : d + t.height ≤ limit

theorem Fits.of_deeper {limit d d' : Nat} {env : Environment} {t : Term} (h : Fits limit d' env t) (hle : d ≤ d') :
    Fits limit d env t := by
  have hroom := h.room
  exact ⟨h.functionless, h.binds, by omega⟩

/-- What stands inside the node fits one level deeper. -/
theorem Fits.child {limit d : Nat} {env env' : Environment} {t u : Term} (h : Fits limit d env t)
    (henv : env'.Functionless) (hu : u ∈ t.children) : Fits limit (d + 1) env' u := by
  have hheight := Term.height_lt_of_child hu
  have hroom := h.room
  exact ⟨henv, h.binds.child hu, by omega⟩

/-- The body of a callee that is called where it stands is two levels inside the call, and runs one level deeper. -/
theorem Fits.called {limit d : Nat} {env env' : Environment} {callee : Term} {arguments : List Term} {l : Location}
    {f : Function} (h : Fits limit d env (.call callee arguments l)) (hc : Callable env callee f)
    (henv : env'.Functionless) : Fits limit (d + 1) env' f.body := by
  cases hc with
  | named bound => exact absurd bound (h.functionless _ f)
  | @literal parameters body place =>
    have hcallee : Fits limit (d + 1) env' (.function parameters body place) := h.child henv List.mem_cons_self
    have hbody : Fits limit (d + 2) env' body := hcallee.child henv List.mem_cons_self
    exact hbody.of_deeper (by omega)

def fitting (limit : Nat) : Invariant limit Unit where
  admits _ := Fits limit
  becomes _ env env' := env.Functionless → env'.Functionless
  value := .any
  error e := ∀ n, e.cause ≠ .depthExceeded n
  becomes_refl _ _ h := h
  becomes_trans h h' := fun henv => h' (h henv)
  admits_later h hbecomes := ⟨hbecomes h.functionless, h.binds, h.room⟩
  operand h hu := h.child h.functionless (Term.operands_subset_children _ hu)
  forced h hf := absurd hf (h.functionless _ _)
  called {_ _ _ _ _ _ _ f vs} h hc _ hbecomes _ _ := ⟨(), h.called hc ((hbecomes h.functionless).bodyScope f vs)⟩
  boundFunction h := by
    have hbinds := h.binds.self
    cases hbinds
  boundValue {_ _ env name term next l v} h _ _ := by
    have hbind : env.Functionless → (env.bind name.name (.value v)).Functionless := fun henv => henv.bind _ v
    exact ⟨hbind, h.child (hbind h.functionless) (by simp [Term.children])⟩
  held _ _ := trivial
  handedBack _ _ _ := trivial
  raised {_ _ _ t _} h hraises := by
    have hroom := h.room
    have hpositive := t.height_eq
    exact hraises.ne_depthExceeded (by omega)

end Evaluation

/-- Where no name stands for a function, neither in the environment nor by a binding of the term, an evaluation with room
for the height of the term does not run out of depth, and leaves no name that stands for a function. -/
theorem Evaluator.evaluate_within_height (e : Evaluator) (t : Term) (env : Environment)
    (hterm : ∀ n ∈ t.subterms, n.bindsFunction = false) (henv : ∀ name f, env.lookup name ≠ some (.function f))
    (hroom : e.depth + t.height ≤ e.limit) :
    (∀ limit l, (e.evaluate t env).1 ≠ .error ⟨.depthExceeded limit, l⟩) ∧
    ∀ name f, (e.evaluate t env).2.1.lookup name ≠ some (.function f) := by
  have hfits : Evaluation.Fits e.limit e.depth env t := ⟨henv, hterm, hroom⟩
  obtain ⟨hbecomes, -, herror⟩ := (Evaluation.fitting e.limit).evaluate_upholds (k := ()) hfits
  refine ⟨fun limit l h => ?_, hbecomes henv⟩
  exact herror _ h limit rfl

/-- A literal is called, another one is run in place, and `g` holds a function that would go on forever if it could be
called. Three nodes are under way already, and the term is as high as what they leave of the limit. -/
theorem Evaluator.evaluate_within_height_of_literals :
    let l := Location.unknown
    let env := Environment.empty.bind "g" (.value (.function ⟨[], .call (.var "g" l) [] l⟩))
    let sum := Term.binary .add (.var "x" l) (.function [] (.str "b" l) l) l
    let t := Term.letIn ⟨"y", l⟩ (.call (.function [⟨"x", l⟩] sum l) [.str "a" l] l) (.print (.var "y" l) l) l
    let e : Evaluator := ⟨9, .fresh, 3⟩
    (∀ n ∈ t.subterms, n.bindsFunction = false) ∧ (∀ name f, env.lookup name ≠ some (.function f)) ∧
      e.depth + t.height = e.limit ∧
      (∀ limit l, (e.evaluate t env).1 ≠ .error ⟨.depthExceeded limit, l⟩) ∧
      ∀ name f, (e.evaluate t env).2.1.lookup name ≠ some (.function f) := by
  intro l env sum t e
  have hterm : ∀ n ∈ t.subterms, n.bindsFunction = false := by decide
  have henv : env.Functionless := Environment.functionless_empty.bind "g" _
  have hroom : e.depth + t.height = e.limit := by decide
  exact ⟨hterm, henv, hroom, evaluate_within_height e t env hterm henv (Nat.le_of_eq hroom)⟩

end Treewalk

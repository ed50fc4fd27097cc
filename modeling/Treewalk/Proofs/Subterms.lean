import Treewalk.Proofs.Invariants

/-! Every node of a term, and where the code comes from that a run can reach.

A run evaluates parts of its term and of the bodies of functions that are bound, and binds no function but one of these
parts. So a property of all nodes in reach at the start, `MadeOf`, is one of all nodes in reach later on. -/
namespace Treewalk

namespace Term

mutual

/-- The nodes of a term at any depth, the term itself first. Callees count as well, also those that never run. -/
def subterms : Term → List Term
  | int n l => [int n l]
  | str s l => [str s l]
  | bool b l => [bool b l]
  | var name l => [var name l]
  | function parameters body l => function parameters body l :: subterms body
  | call callee arguments l => call callee arguments l :: (subterms callee ++ subtermsAll arguments)
  | letIn name value next l => letIn name value next l :: (subterms value ++ subterms next)
  | cond condition whenTrue whenFalse l =>
      cond condition whenTrue whenFalse l :: (subterms condition ++ (subterms whenTrue ++ subterms whenFalse))
  | binary operator left right l => binary operator left right l :: (subterms left ++ subterms right)
  | tuple a b l => tuple a b l :: (subterms a ++ subterms b)
  | first operand l => first operand l :: subterms operand
  | second operand l => second operand l :: subterms operand
  | print operand l => print operand l :: subterms operand

def subtermsAll : List Term → List Term
  | [] => []
  | t :: rest => subterms t ++ subtermsAll rest

end

theorem mem_subtermsAll {n : Term} {ts : List Term} : n ∈ subtermsAll ts ↔ ∃ t ∈ ts, n ∈ t.subterms := by
  induction ts with
  | nil => simp [subtermsAll]
  | cons t rest ih => simp [subtermsAll, ih]

theorem mem_subterms {t n : Term} : n ∈ t.subterms ↔ n = t ∨ ∃ child ∈ t.children, n ∈ child.subterms := by
  cases t <;> simp [subterms, children, mem_subtermsAll]

def MadeOf (code : Term → Prop) (t : Term) : Prop := ∀ n ∈ t.subterms, code n

variable {code : Term → Prop} {t : Term}

theorem MadeOf.self (h : t.MadeOf code) : code t := h t (mem_subterms.2 (.inl rfl))

theorem MadeOf.child {u : Term} (h : t.MadeOf code) (hu : u ∈ t.children) : u.MadeOf code := by
  intro n hn
  exact h n (mem_subterms.2 (.inr ⟨u, hu, hn⟩))

end Term

namespace Environment

/-- Every node in the body of a bound function is of the given kind. What functions inside values hold does not count. -/
def MadeOf (code : Term → Prop) (env : Environment) : Prop :=
  ∀ name f, env.lookup name = some (.function f) → f.body.MadeOf code

variable {code : Term → Prop} {env : Environment}

theorem MadeOf.bind {binding : Binding} (h : env.MadeOf code) (name : String)
    (hbinding : ∀ f, binding = .function f → f.body.MadeOf code) : (env.bind name binding).MadeOf code := by
  intro other f hf
  rw [lookup_bind] at hf
  split at hf
  · exact hbinding f (Option.some.inj hf)
  · exact h other f hf

theorem MadeOf.bindValue (h : env.MadeOf code) (name : String) (v : Value) : (env.bind name (.value v)).MadeOf code := by
  refine h.bind name ?_
  intro f hf
  cases hf

/-- A binding that stands in such code adds such a function. -/
theorem MadeOf.bindLiteral {name : Parameter} {parameters : List Parameter} {body next : Term} {place l : Location}
    (h : env.MadeOf code) (hlet : (Term.letIn name (.function parameters body place) next l).MadeOf code) :
    (env.bind name.name (.function ⟨parameters, body⟩)).MadeOf code := by
  have hliteral : (Term.function parameters body place).MadeOf code := hlet.child List.mem_cons_self
  refine h.bind name.name ?_
  intro f hf
  cases hf
  exact hliteral.child List.mem_cons_self

theorem MadeOf.bodyScope (h : env.MadeOf code) (f : Function) (vs : List Value) :
    (Evaluation.bodyScope env f vs).MadeOf code := by
  intro name g hg
  exact h name g (lookup_of_fork_function hg)

end Environment

namespace Evaluation

/-- A node of the term or of the body of a function bound in the environment. -/
def InReach (env : Environment) (t n : Term) : Prop :=
  n ∈ t.subterms ∨ ∃ name f, env.lookup name = some (.function f) ∧ n ∈ f.body.subterms

theorem madeOf_inReach (env : Environment) (t : Term) :
    env.MadeOf (InReach env t) ∧ t.MadeOf (InReach env t) :=
  ⟨fun name f hf _ hn => .inr ⟨name, f, hf, hn⟩, fun _ hn => .inl hn⟩

theorem mem_subterms_of_inReach_empty {t n : Term} (h : InReach .empty t n) : n ∈ t.subterms := by
  rcases h with hn | ⟨name, f, hf, -⟩
  · exact hn
  · cases hf

theorem Callable.madeOf {code : Term → Prop} {env : Environment} {callee : Term} {f : Function}
    (h : Callable env callee f) (henv : env.MadeOf code) (hcallee : callee.MadeOf code) : f.body.MadeOf code := by
  cases h with
  | named bound => exact henv _ f bound
  | literal => exact hcallee.child List.mem_cons_self

end Evaluation

end Treewalk

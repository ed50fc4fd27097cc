import Treewalk.Proofs.Invariants

/-! Programs that never meet a free name.

A body runs among the names of its caller, and a function that is named without a call runs without its arguments, so
the text around a name does not decide what the name stands for. In a closed program it still decides that the name
stands for something: what was bound where a function is written stays bound wherever the function can be seen. -/
namespace Treewalk

/-- How a subterm stands in the node around it. -/
inductive Position where
  | callee
  | bound
  | operand
deriving DecidableEq

/-- A subterm in its place, with the names in scope there. -/
structure Occurrence where
  scope : List String
  position : Position
  term : Term
deriving DecidableEq

/-- The names that a function literal brings into the scope of its body. One that is neither bound nor called is run
without arguments. -/
def Position.taken : Position → List Parameter → List String
  | .operand, _ => []
  | _, parameters => parameters.map (·.name)

namespace Occurrence

/-- A callee that is neither a name nor a function literal never runs, and nothing in it counts. -/
def ofCallee (scope : List String) : Term → List Occurrence
  | .var name l => [⟨scope, .callee, .var name l⟩]
  | .function parameters body l => [⟨scope, .callee, .function parameters body l⟩]
  | _ => []

/-- The direct subterms of an occurrence. A function literal is in the scope of the name that it is bound to. -/
def parts : Occurrence → List Occurrence
  | ⟨scope, position, .function parameters body _⟩ => [⟨position.taken parameters ++ scope, .operand, body⟩]
  | ⟨scope, _, .call callee arguments _⟩ => ofCallee scope callee ++ arguments.map fun t => ⟨scope, .operand, t⟩
  | ⟨scope, _, .letIn name (.function parameters body l) next _⟩ =>
      [⟨name.name :: scope, .bound, .function parameters body l⟩, ⟨name.name :: scope, .operand, next⟩]
  | ⟨scope, _, .letIn name value next _⟩ => [⟨scope, .bound, value⟩, ⟨name.name :: scope, .operand, next⟩]
  | ⟨scope, _, t⟩ => t.children.map fun t => ⟨scope, .operand, t⟩

end Occurrence

inductive Term.Occurs (t : Term) : Occurrence → Prop
  | root : Occurs t ⟨[], .operand, t⟩
  | part {o o' : Occurrence} (outer : Occurs t o) (inner : o' ∈ o.parts) : Occurs t o'

namespace Term

def read? : Term → Option String
  | var name _ => some name
  | _ => none

def isParametric : Term → Bool
  | function parameters _ _ => !parameters.isEmpty
  | _ => false

/-- The name that a node gives to a function literal with parameters. -/
def givesParametric? : Term → Option String
  | letIn name value _ _ => if value.isParametric then some name.name else none
  | _ => none

/-- Every name is in scope where it stands; function literals with parameters are bound or called where they stand;
and a name that is given to one of them only ever stands for a callee. -/
structure Closed (t : Term) : Prop where
  inScope : ∀ o, t.Occurs o → ∀ name ∈ o.term.read?, name ∈ o.scope
  placed : ∀ o, t.Occurs o → o.term.isParametric = true → o.position = .bound ∨ o.position = .callee
  onlyCalled : ∀ o, t.Occurs o → ∀ o', t.Occurs o' → ∀ name ∈ o.term.read?, name ∈ o'.term.givesParametric? →
    o.position = .callee

end Term

namespace Occurrence

theorem term_mem_children {o o' : Occurrence} (h : o' ∈ o.parts) : o'.term ∈ o.term.children := by
  obtain ⟨scope, position, t⟩ := o
  cases t with
  | function parameters body l =>
    obtain rfl := List.mem_singleton.1 h
    exact List.mem_cons_self
  | call callee arguments l =>
    rcases List.mem_append.1 h with h | h
    · cases callee with
      | var name place =>
        obtain rfl := List.mem_singleton.1 h
        exact List.mem_cons_self
      | function parameters body place =>
        obtain rfl := List.mem_singleton.1 h
        exact List.mem_cons_self
      | _ => cases h
    · obtain ⟨t, ht, rfl⟩ := List.mem_map.1 h
      exact List.mem_cons_of_mem callee ht
  | letIn name value next l =>
    cases value <;>
      · simp only [parts, List.mem_cons, List.not_mem_nil, or_false] at h
        rcases h with rfl | rfl <;> simp [Term.children]
  | _ =>
    obtain ⟨t, ht, rfl⟩ := List.mem_map.1 h
    exact ht

theorem size_lt_of_mem_parts {o o' : Occurrence} (h : o' ∈ o.parts) : o'.term.size < o.term.size := by
  have hle := Term.size_le_sizeAll (term_mem_children h)
  rw [Term.size_eq o.term]
  omega

def listing : Nat → Occurrence → List Occurrence
  | 0, _ => []
  | depth + 1, o => o :: o.parts.flatMap (listing depth)

/-- A listing that reaches as deep as the term is complete. -/
theorem mem_listing_of_part {depth : Nat} {o o₁ o₂ : Occurrence} (hdepth : o.term.size ≤ depth)
    (h₁ : o₁ ∈ listing depth o) (h₂ : o₂ ∈ o₁.parts) : o₂ ∈ listing depth o := by
  induction depth generalizing o with
  | zero => cases h₁
  | succ depth ih =>
    apply List.mem_cons_of_mem
    rw [List.mem_flatMap]
    rcases List.mem_cons.1 h₁ with rfl | h₁
    · have hsize := size_lt_of_mem_parts h₂
      have hpositive := Term.size_eq o₂.term
      obtain ⟨rest, rfl⟩ : ∃ rest, depth = rest + 1 := ⟨depth - 1, by omega⟩
      exact ⟨o₂, h₂, List.mem_cons_self⟩
    · obtain ⟨q, hq, h₁⟩ := List.mem_flatMap.1 h₁
      have hsize := size_lt_of_mem_parts hq
      exact ⟨q, hq, ih (by omega) h₁⟩

theorem occurs_of_mem_listing {t : Term} {depth : Nat} {o o' : Occurrence} (h : t.Occurs o)
    (h' : o' ∈ listing depth o) : t.Occurs o' := by
  induction depth generalizing o with
  | zero => cases h'
  | succ depth ih =>
    rcases List.mem_cons.1 h' with rfl | h'
    · exact h
    · obtain ⟨q, hq, h'⟩ := List.mem_flatMap.1 h'
      exact ih (h.part hq) h'

end Occurrence

namespace Term

def occurrences (t : Term) : List Occurrence := Occurrence.listing t.size ⟨[], .operand, t⟩

theorem mem_occurrences {t : Term} {o : Occurrence} : o ∈ t.occurrences ↔ t.Occurs o := by
  refine ⟨Occurrence.occurs_of_mem_listing .root, fun h => ?_⟩
  induction h with
  | root =>
    rw [occurrences, size_eq, Nat.add_comm]
    exact List.mem_cons_self
  | part outer inner ih => exact Occurrence.mem_listing_of_part (Nat.le_refl _) ih inner

theorem closed_iff (t : Term) : t.Closed ↔ (∀ o ∈ t.occurrences, ∀ name ∈ o.term.read?, name ∈ o.scope) ∧
    (∀ o ∈ t.occurrences, o.term.isParametric = true → o.position = .bound ∨ o.position = .callee) ∧
    ∀ o ∈ t.occurrences, ∀ o' ∈ t.occurrences, ∀ name ∈ o.term.read?, name ∈ o'.term.givesParametric? →
      o.position = .callee := by
  simp only [mem_occurrences]
  exact ⟨fun h => ⟨h.inScope, h.placed, h.onlyCalled⟩, fun h => ⟨h.1, h.2.1, h.2.2⟩⟩

instance (t : Term) : Decidable t.Closed := decidable_of_iff _ t.closed_iff.symm

end Term

namespace Environment

def Covers (env : Environment) (scope : List String) : Prop := ∀ x ∈ scope, env.contains x = true

/-- Every bound function was written in the program where no name was in scope that is free now. -/
def WrittenIn (env : Environment) (program : Term) : Prop :=
  ∀ name f, env.lookup name = some (.function f) → ∃ scope l, env.Covers scope ∧
    program.Occurs ⟨scope, .bound, .function f.parameters f.body l⟩ ∧
    (f.parameters ≠ [] → ∃ o, program.Occurs o ∧ o.term.givesParametric? = some name)

structure Grows (program : Term) (env env' : Environment) : Prop where
  kept : ∀ x, env.contains x = true → env'.contains x = true
  written : env.WrittenIn program → env'.WrittenIn program

variable {program : Term} {env env' : Environment} {scope : List String}

theorem Covers.grow (h : env.Covers scope) (hgrows : Grows program env env') : env'.Covers scope :=
  fun x hx => hgrows.kept x (h x hx)

theorem Covers.bind (h : env.Covers scope) (name : String) (binding : Binding) :
    (env.bind name binding).Covers (name :: scope) := by
  intro x hx
  rw [contains_bind]
  rcases List.mem_cons.1 hx with rfl | hx
  · exact .inl rfl
  · exact .inr (h x hx)

theorem Covers.bodyScope {f : Function} {vs : List Value} (h : env.Covers scope) (hvs : vs.length = f.arity) :
    (Evaluation.bodyScope env f vs).Covers (f.parameters.map (·.name) ++ scope) := by
  intro x hx
  have hnames : ((f.parameters.map (·.name)).zip vs).map Prod.fst = f.parameters.map (·.name) :=
    List.map_fst_zip (by simp [hvs, Function.arity])
  rw [Evaluation.bodyScope, contains_fork, hnames]
  exact (List.mem_append.1 hx).imp_right (h x)

theorem WrittenIn.bodyScope (h : env.WrittenIn program) (f : Function) (vs : List Value) :
    (Evaluation.bodyScope env f vs).WrittenIn program := by
  intro name g hg
  obtain ⟨scope, l, hcovers, hoccurs, hgives⟩ := h name g (lookup_of_fork_function hg)
  exact ⟨scope, l, fun x hx => contains_fork.2 (.inr (hcovers x hx)), hoccurs, hgives⟩

theorem Grows.refl (program : Term) (env : Environment) : Grows program env env := ⟨fun _ h => h, fun h => h⟩

theorem Grows.trans {env₁ env₂ env₃ : Environment} (h : Grows program env₁ env₂) (h' : Grows program env₂ env₃) :
    Grows program env₁ env₃ :=
  ⟨fun x hx => h'.kept x (h.kept x hx), fun hw => h'.written (h.written hw)⟩

/-- A binding may be added if it is a value, or a function of the program that is in scope with its own name. -/
theorem Grows.bind {name : String} {binding : Binding}
    (h : ∀ f, binding = .function f → ∃ scope l, env.Covers scope ∧
      program.Occurs ⟨name :: scope, .bound, .function f.parameters f.body l⟩ ∧
      (f.parameters ≠ [] → ∃ o, program.Occurs o ∧ o.term.givesParametric? = some name)) :
    Grows program env (env.bind name binding) := by
  have hkept : ∀ x, env.contains x = true → (env.bind name binding).contains x = true :=
    fun x hx => contains_bind.2 (.inr hx)
  refine ⟨hkept, fun hw other f hf => ?_⟩
  rw [lookup_bind] at hf
  split at hf
  · rename_i hname
    obtain ⟨scope, l, hcovers, hoccurs, hgives⟩ := h f (Option.some.inj hf)
    exact ⟨name :: scope, l, hcovers.bind name binding, hoccurs, hname ▸ hgives⟩
  · obtain ⟨scope, l, hcovers, hoccurs, hgives⟩ := hw other f hf
    exact ⟨scope, l, fun x hx => hkept x (hcovers x hx), hoccurs, hgives⟩

end Environment

def Occurrence.Runs (o : Occurrence) : Prop := o.position = .operand ∨ o.position = .bound ∧ o.term.kind ≠ .function

namespace Term.Occurs

variable {program : Term} {scope : List String} {position : Position}

theorem operand {t u : Term} (h : program.Occurs ⟨scope, position, t⟩)
    (hruns : Occurrence.Runs ⟨scope, position, t⟩) (hu : u ∈ t.operands) :
    ∃ position', program.Occurs ⟨scope, position', u⟩ ∧ Occurrence.Runs ⟨scope, position', u⟩ := by
  cases t with
  | function parameters body l =>
    obtain rfl := List.mem_singleton.1 hu
    rcases hruns with rfl | ⟨-, hkind⟩
    · exact ⟨.operand, h.part (List.mem_singleton.2 rfl), .inl rfl⟩
    · exact absurd rfl hkind
  | call callee arguments l =>
    exact ⟨.operand, h.part (List.mem_append_right _ (List.mem_map_of_mem hu)), .inl rfl⟩
  | letIn name value next l =>
    cases value with
    | function parameters body place => cases hu
    | _ =>
      obtain rfl := List.mem_singleton.1 hu
      exact ⟨.bound, h.part List.mem_cons_self, .inr ⟨rfl, nofun⟩⟩
  | _ => exact ⟨.operand, h.part (List.mem_map_of_mem hu), .inl rfl⟩

theorem callee_var {name : String} {place l : Location} {arguments : List Term}
    (h : program.Occurs ⟨scope, position, .call (.var name place) arguments l⟩) :
    program.Occurs ⟨scope, .callee, .var name place⟩ :=
  h.part List.mem_cons_self

theorem callee_body {parameters : List Parameter} {body : Term} {place l : Location} {arguments : List Term}
    (h : program.Occurs ⟨scope, position, .call (.function parameters body place) arguments l⟩) :
    program.Occurs ⟨parameters.map (·.name) ++ scope, .operand, body⟩ := by
  have hcallee : program.Occurs ⟨scope, .callee, .function parameters body place⟩ := h.part List.mem_cons_self
  exact hcallee.part (List.mem_singleton.2 rfl)

theorem bound_body {f : Function} {l : Location}
    (h : program.Occurs ⟨scope, .bound, .function f.parameters f.body l⟩) :
    program.Occurs ⟨f.parameters.map (·.name) ++ scope, .operand, f.body⟩ :=
  h.part (List.mem_singleton.2 rfl)

theorem next {name : Parameter} {value next : Term} {l : Location}
    (h : program.Occurs ⟨scope, position, .letIn name value next l⟩) :
    program.Occurs ⟨name.name :: scope, .operand, next⟩ := by
  cases value <;> exact h.part (List.mem_cons_of_mem _ (List.mem_singleton.2 rfl))

end Term.Occurs

namespace Evaluation

open Environment

def Stands (program : Term) (env : Environment) (t : Term) : Prop :=
  env.WrittenIn program ∧ ∃ scope position, env.Covers scope ∧ program.Occurs ⟨scope, position, t⟩ ∧
    Occurrence.Runs ⟨scope, position, t⟩

theorem Raises.not_unbound {program : Term} (hclosed : program.Closed) {limit d : Nat} {env : Environment} {t : Term}
    {e : EvalError} (h : Stands program env t) (hraises : Raises limit d env t e) (x : String) :
    e.cause ≠ .unboundVariable x := by
  obtain ⟨-, scope, position, hcovers, hoccurs, -⟩ := h
  cases hraises with
  | @unbound name l free =>
    have hbound := hcovers name (hclosed.inScope _ hoccurs name rfl)
    simp [contains, free] at hbound
  | @unboundCallee name place l arguments free =>
    have hbound := hcovers name (hclosed.inScope _ hoccurs.callee_var name rfl)
    simp [contains, free] at hbound
  | operation failed =>
    intro h
    rcases Operator.operate_error failed with rfl | rfl <;> cases h
  | _ =>
    intro h
    cases h

/-- In runs of a closed program all names in scope are bound. -/
def scoping {program : Term} (hclosed : program.Closed) (limit : Nat) : Invariant limit Unit where
  admits _ _ env t := Stands program env t
  becomes _ := Grows program
  value := .any
  error e := ∀ x, e.cause ≠ .unboundVariable x
  becomes_refl _ := Grows.refl program
  becomes_trans := Grows.trans
  admits_later := by
    rintro _ _ env env' t ⟨hwritten, scope, position, hcovers, hoccurs⟩ hgrows
    exact ⟨hgrows.written hwritten, scope, position, hcovers.grow hgrows, hoccurs⟩
  operand := by
    rintro _ _ env t u ⟨hwritten, scope, position, hcovers, hoccurs, hruns⟩ hu
    obtain ⟨position', hoccurs', hruns'⟩ := hoccurs.operand hruns hu
    exact ⟨hwritten, scope, position', hcovers, hoccurs', hruns'⟩
  forced := by
    rintro _ _ env name l f ⟨hwritten, scope, position, hcovers, hoccurs, hruns⟩ hf
    obtain ⟨scope', place, hcovers', hoccurs', hgives⟩ := hwritten name f hf
    -- A name that may stand for a function with parameters is in the place of a callee, which this one is not.
    have hnone : f.parameters = [] := by
      apply Decidable.byContradiction
      intro hsome
      obtain ⟨o, ho, hname⟩ := hgives hsome
      obtain rfl : position = .callee := hclosed.onlyCalled _ hoccurs o ho name rfl hname
      rcases hruns with h | ⟨h, -⟩ <;> cases h
    have hbody := hoccurs'.bound_body
    rw [hnone] at hbody
    exact ⟨hwritten, scope', .operand, hcovers', hbody, .inl rfl⟩
  called := by
    rintro _ _ env env' callee arguments l f vs ⟨hwritten, scope, position, hcovers, hoccurs, -⟩ hc arity hgrows hvs -
    refine ⟨(), (hgrows.written hwritten).bodyScope f vs, ?_⟩
    cases hc with
    | named bound =>
      obtain ⟨scope', place, hcovers', hoccurs', -⟩ := hwritten _ f bound
      exact ⟨_, .operand, (hcovers'.grow hgrows).bodyScope (hvs.trans arity.symm), hoccurs'.bound_body, .inl rfl⟩
    | literal =>
      exact ⟨_, .operand, (hcovers.grow hgrows).bodyScope (hvs.trans arity.symm), hoccurs.callee_body, .inl rfl⟩
  boundFunction := by
    rintro _ _ env name parameters body next place l ⟨hwritten, scope, position, hcovers, hoccurs, -⟩
    have hgrows : Grows program env (env.bind name.name (.function ⟨parameters, body⟩)) := by
      apply Grows.bind
      intro f hf
      cases hf
      refine ⟨scope, place, hcovers, hoccurs.part List.mem_cons_self, fun hsome => ?_⟩
      exact ⟨_, hoccurs, by simp [Term.givesParametric?, Term.isParametric, hsome]⟩
    exact ⟨hgrows, hgrows.written hwritten, _, .operand, hcovers.bind _ _, hoccurs.next, .inl rfl⟩
  boundValue := by
    rintro _ _ env name term next l v ⟨hwritten, scope, position, hcovers, hoccurs, -⟩ - -
    have hgrows : Grows program env (env.bind name.name (.value v)) := by
      apply Grows.bind
      intro f hf
      cases hf
    exact ⟨hgrows, hgrows.written hwritten, _, .operand, hcovers.bind _ _, hoccurs.next, .inl rfl⟩
  held _ _ := trivial
  handedBack _ _ _ := trivial
  raised h hraises := hraises.not_unbound hclosed h

end Evaluation

/-- A closed program never meets a free name, whatever the limit. -/
theorem Evaluator.run_ne_unboundVariable (e : Evaluator) (p : Program) (h : p.expression.Closed) (x : String)
    (l : Location) : (e.run p).1 ≠ .error ⟨.unboundVariable x, l⟩ := by
  intro hrun
  have hstands : Evaluation.Stands p.expression .empty p.expression :=
    ⟨nofun, [], .operand, nofun, .root, .inl rfl⟩
  obtain ⟨-, -, herror⟩ :=
    (Evaluation.scoping h e.limit).evaluate_upholds (e := { e with depth := 0 }) (k := ()) hstands
  exact herror _ hrun x rfl

/-- A program in which a recursive function reads a name of its caller, a name without parameters is run in place and
a callee is handed back that speaks of a free name. -/
theorem Evaluator.run_ne_unboundVariable_of_recursion :
    let l := Location.unknown
    let body := Term.cond (.binary .lt (.var "n" l) (.var "y" l) l) (.call (.tuple (.var "free" l) (.int 0 l) l) [] l)
      (.call (.var "f" l) [.binary .sub (.var "n" l) (.var "g" l) l] l) l
    let p : Program := ⟨"", .letIn ⟨"y", l⟩ (.int 1 l) (.letIn ⟨"g", l⟩ (.function [] (.var "y" l) l)
      (.letIn ⟨"f", l⟩ (.function [⟨"n", l⟩] body l) (.call (.var "f" l) [.int 2 l] l) l) l) l, l⟩
    p.expression.Closed ∧ ∀ x place, ((buffered 20).run p).1 ≠ .error ⟨.unboundVariable x, place⟩ := by
  intro l body p
  have hclosed : p.expression.Closed := by decide
  exact ⟨hclosed, run_ne_unboundVariable (buffered 20) p hclosed⟩

end Treewalk

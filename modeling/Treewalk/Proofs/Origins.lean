import Treewalk.Proofs.Subterms

/-! Where the functions inside values come from.

A function literal runs where it stands, is called there or gets a name; it does not turn into a value. The one node that
makes a function of its own is a call whose callee is neither a name nor a literal: the callee is handed back as the body
of a function without parameters. So the functions that values carry are such callees, or were carried before. -/
namespace Treewalk

/-- The functions that a value carries, in pairs at any depth. -/
def Value.functions : Value → List Function
  | int _ => []
  | str _ => []
  | bool _ => []
  | tuple a b => a.functions ++ b.functions
  | function f => [f]

theorem Value.functions_of_isSimple {v : Value} (h : v.isSimple = true) : v.functions = [] := by
  cases v with
  | tuple a b => cases h
  | function f => cases h
  | _ => rfl

namespace Environment

/-- Some name is bound to a value that carries the function. -/
def Carries (env : Environment) (f : Function) : Prop :=
  ∃ name v, env.lookup name = some (.value v) ∧ f ∈ v.functions

theorem not_carries_empty (f : Function) : ¬ empty.Carries f := by
  intro h
  obtain ⟨name, v, hv, -⟩ := h
  cases hv

theorem Carries.of_bind {env : Environment} {name : String} {binding : Binding} {f : Function}
    (h : (env.bind name binding).Carries f) : env.Carries f ∨ ∃ v, binding = .value v ∧ f ∈ v.functions := by
  obtain ⟨other, v, hv, hf⟩ := h
  rw [lookup_bind] at hv
  split at hv
  · exact .inr ⟨v, Option.some.inj hv, hf⟩
  · exact .inl ⟨other, v, hv, hf⟩

theorem Carries.of_fork {env : Environment} {values : List (String × Value)} {f : Function}
    (h : (env.fork values).Carries f) : env.Carries f ∨ ∃ pair ∈ values, f ∈ pair.2.functions := by
  induction values generalizing env with
  | nil => exact .inl h
  | cons pair rest ih =>
    have hrest : (env.bind pair.1 (.value pair.2)).Carries f ∨ ∃ pair ∈ rest, f ∈ pair.2.functions := ih h
    rcases hrest with hbound | ⟨other, hother, hf⟩
    · rcases hbound.of_bind with hbefore | ⟨v, hv, hf⟩
      · exact .inl hbefore
      · cases hv
        exact .inr ⟨pair, List.mem_cons_self, hf⟩
    · exact .inr ⟨other, List.mem_cons_of_mem pair hother, hf⟩

theorem Carries.of_bodyScope {env : Environment} {g : Function} {vs : List Value} {f : Function}
    (h : (Evaluation.bodyScope env g vs).Carries f) : env.Carries f ∨ ∃ v ∈ vs, f ∈ v.functions := by
  rcases h.of_fork with hbefore | ⟨pair, hpair, hf⟩
  · exact .inl hbefore
  · exact .inr ⟨pair.2, (List.of_mem_zip hpair).2, hf⟩

end Environment

namespace Evaluation

/-- A function without parameters around the callee of some call, which is neither a name nor a function literal. -/
inductive HandedBack (reach : Term → Prop) : Function → Prop
  | callee {callee : Term} {arguments : List Term} {l : Location} (called : reach (.call callee arguments l))
      (notVar : callee.kind ≠ .var) (notFunction : callee.kind ≠ .function) : HandedBack reach ⟨[], callee⟩

theorem HandedBack.mono {reach reach' : Term → Prop} {f : Function} (h : HandedBack reach f)
    (hreach : ∀ n, reach n → reach' n) : HandedBack reach' f := by
  cases h with
  | callee called notVar notFunction => exact .callee (hreach _ called) notVar notFunction

/-- Values that carry no functions but those of some origin. -/
def Hereditary.carrying (origin : Function → Prop) : Hereditary where
  holds v := ∀ f ∈ v.functions, origin f
  simple h := by
    intro f hf
    rw [Value.functions_of_isSimple h] at hf
    cases hf
  tuple := List.forall_mem_append

/-- Every bound function is code in reach, and every function inside a value has its origin. -/
structure Traced (reach : Term → Prop) (origin : Function → Prop) (env : Environment) : Prop where
  code : env.MadeOf reach
  carried : ∀ f, env.Carries f → origin f

variable {reach : Term → Prop} {origin : Function → Prop} {env : Environment}

theorem Traced.bindValue (h : Traced reach origin env) (name : String) {v : Value} (hv : ∀ f ∈ v.functions, origin f) :
    Traced reach origin (env.bind name (.value v)) := by
  refine ⟨h.code.bindValue name v, ?_⟩
  intro f hf
  rcases hf.of_bind with hbefore | ⟨w, hw, hf⟩
  · exact h.carried f hbefore
  · cases hw
    exact hv f hf

theorem Traced.bindLiteral {name : Parameter} {parameters : List Parameter} {body next : Term} {place l : Location}
    (h : Traced reach origin env) (hlet : (Term.letIn name (.function parameters body place) next l).MadeOf reach) :
    Traced reach origin (env.bind name.name (.function ⟨parameters, body⟩)) := by
  refine ⟨h.code.bindLiteral hlet, ?_⟩
  intro f hf
  rcases hf.of_bind with hbefore | ⟨w, hw, -⟩
  · exact h.carried f hbefore
  · cases hw

theorem Traced.bodyScope (h : Traced reach origin env) (g : Function) {vs : List Value}
    (hvs : ∀ v ∈ vs, ∀ f ∈ v.functions, origin f) : Traced reach origin (bodyScope env g vs) := by
  refine ⟨h.code.bodyScope g vs, ?_⟩
  intro f hf
  rcases hf.of_bodyScope with hbefore | ⟨v, hv, hf⟩
  · exact h.carried f hbefore
  · exact hvs v hv f hf

theorem traced_inReach (env : Environment) (t : Term) :
    Traced (InReach env t) (fun f => env.Carries f ∨ HandedBack (InReach env t) f) env ∧ t.MadeOf (InReach env t) := by
  obtain ⟨hcode, hterm⟩ := madeOf_inReach env t
  exact ⟨⟨hcode, fun _ hf => .inl hf⟩, hterm⟩

/-- Runs of code in reach, whose values carry functions of some origin, given that callees in reach may be one. -/
def tracing (limit : Nat) (horigin : ∀ f, HandedBack reach f → origin f) : Invariant limit Unit where
  admits _ _ env t := Traced reach origin env ∧ t.MadeOf reach
  becomes _ env env' := Traced reach origin env → Traced reach origin env'
  value := .carrying origin
  error _ := True
  becomes_refl _ _ h := h
  becomes_trans h h' := fun henv => h' (h henv)
  admits_later h hbecomes := ⟨hbecomes h.1, h.2⟩
  operand h hu := ⟨h.1, h.2.child (Term.operands_subset_children _ hu)⟩
  forced h hf := ⟨h.1, h.1.code _ _ hf⟩
  called {_ _ _ _ _ _ _ f _} h hc _ hbecomes _ hvs :=
    ⟨(), (hbecomes h.1).bodyScope f hvs, hc.madeOf h.1.code (h.2.child List.mem_cons_self)⟩
  boundFunction {_ _ env name parameters body next place l} h := by
    have hbind : Traced reach origin env → Traced reach origin (env.bind name.name (.function ⟨parameters, body⟩)) :=
      fun henv => henv.bindLiteral h.2
    exact ⟨hbind, hbind h.1, h.2.child (by simp [Term.children])⟩
  boundValue {_ _ env name term next l v} h _ hv := by
    have hbind : Traced reach origin env → Traced reach origin (env.bind name.name (.value v)) :=
      fun henv => henv.bindValue _ hv
    exact ⟨hbind, hbind h.1, h.2.child (by simp [Term.children])⟩
  held h hv := fun f hf => h.1.carried f ⟨_, _, hv, hf⟩
  handedBack {_ _ _ callee _ _} h hvar hfunction := by
    intro f hf
    obtain rfl := List.mem_singleton.1 hf
    exact horigin _ (.callee h.2.self hvar hfunction)
  raised _ _ := trivial

end Evaluation

namespace Evaluator

open Evaluation

theorem evaluate_carried_or_handedBack (e : Evaluator) (t : Term) (env : Environment) {f : Function}
    (h : (∃ v, (e.evaluate t env).1 = .ok v ∧ f ∈ v.functions) ∨ (e.evaluate t env).2.1.Carries f) :
    env.Carries f ∨ HandedBack (InReach env t) f := by
  obtain ⟨htraced, hterm⟩ := traced_inReach env t
  obtain ⟨hbecomes, hvalue, -⟩ := (tracing e.limit fun _ => .inr).evaluate_upholds (k := ()) ⟨htraced, hterm⟩
  rcases h with ⟨v, hv, hf⟩ | hf
  · exact hvalue v hv f hf
  · exact (hbecomes htraced).carried f hf

/-- A function in the value that an evaluation returns, or in a value that it leaves bound, however it ends, was carried
by the environment before, or is handed back by a call in reach. A program starts with nothing to carry, so that all
functions in its value are callees of its own. -/
theorem functions_carried_or_handedBack (e : Evaluator) :
    (∀ t env f, (∃ v, (e.evaluate t env).1 = .ok v ∧ f ∈ v.functions) ∨ (e.evaluate t env).2.1.Carries f →
      env.Carries f ∨ HandedBack (InReach env t) f) ∧
    ∀ p v f, (e.run p).1 = .ok v → f ∈ v.functions → HandedBack (· ∈ p.expression.subterms) f := by
  refine ⟨fun t env f h => evaluate_carried_or_handedBack e t env h, ?_⟩
  intro p v f hv hf
  have horigin := evaluate_carried_or_handedBack { e with depth := 0 } p.expression .empty (.inl ⟨v, hv, hf⟩)
  rcases horigin with hcarried | hback
  · exact absurd hcarried (Environment.not_carries_empty f)
  · exact hback.mono fun n hn => mem_subterms_of_inReach_empty hn

/-- The body of `f` pairs what it is given, here a function that `old` holds, with a callee that it calls in vain. A
program does the same with a callee of its own. -/
theorem functions_carried_or_handedBack_of_pair :
    let l := Location.unknown
    let callee := Term.tuple (.var "n" l) (.var "free" l) l
    let pair := Term.tuple (.var "n" l) (.call callee [] l) l
    let old : Function := ⟨[⟨"m", l⟩], .var "m" l⟩
    let env := (Environment.empty.bind "f" (.function ⟨[⟨"n", l⟩], pair⟩)).bind "old" (.value (.function old))
    let t := Term.call (.var "f" l) [.var "old" l] l
    let p : Program := ⟨"", .print (.call callee [] l) l, l⟩
    let e := buffered 5
    (e.evaluate t env).1 = .ok (.tuple (.function old) (.function ⟨[], callee⟩)) ∧
      (env.Carries old ∨ HandedBack (InReach env t) old) ∧
      (env.Carries ⟨[], callee⟩ ∨ HandedBack (InReach env t) ⟨[], callee⟩) ∧
      (e.run p).1 = .ok (.function ⟨[], callee⟩) ∧ HandedBack (· ∈ p.expression.subterms) ⟨[], callee⟩ := by
  intro l callee pair old env t p e
  have hvalue : (e.evaluate t env).1 = .ok (.tuple (.function old) (.function ⟨[], callee⟩)) := rfl
  have hrun : (e.run p).1 = .ok (.function ⟨[], callee⟩) := rfl
  obtain ⟨hevaluate, hprogram⟩ := functions_carried_or_handedBack e
  have hold := hevaluate t env old (.inl ⟨_, hvalue, List.mem_cons_self⟩)
  have hcallee := hevaluate t env ⟨[], callee⟩ (.inl ⟨_, hvalue, List.mem_cons_of_mem _ List.mem_cons_self⟩)
  exact ⟨hvalue, hold, hcallee, hrun, hprogram p _ _ hrun List.mem_cons_self⟩

end Evaluator

end Treewalk

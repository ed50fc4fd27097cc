import Treewalk.Proofs.Lockstep
import Treewalk.Proofs.Scope
import Treewalk.Proofs.Subterms

/-! Evaluation reads no names but those that its code mentions.

A body that runs reads names of whoever runs it, so the names that can matter are those of the term, those of the bodies
to which these names lead, and so on. On a set of names that is closed in this way two environments may agree and differ
elsewhere: runs do not tell them apart, and what they bind on the way agrees on the set as well. -/
namespace Treewalk

/-- The names that stand for something in the term, callees and the bodies of functions included. -/
def Term.mentioned (t : Term) : List String := t.subterms.filterMap Term.read?

theorem Term.mentioned_subset_of_child {t u : Term} (hu : u ∈ t.children) : u.mentioned ⊆ t.mentioned := by
  intro x hx
  obtain ⟨n, hn, hread⟩ := List.mem_filterMap.1 hx
  exact List.mem_filterMap.2 ⟨n, Term.mem_subterms.2 (.inr ⟨u, hu, hn⟩), hread⟩

/-- The environments bind the names alike, and functions so bound mention none but these names. -/
structure Environment.AgreeOn (names : String → Prop) (env env' : Environment) : Prop where
  same : ∀ x, names x → env.lookup x = env'.lookup x
  closed : ∀ x f, names x → env.lookup x = some (.function f) → ∀ y ∈ f.body.mentioned, names y

namespace Evaluation

variable {names : String → Prop}

def reading (names : String → Prop) : Correspondence where
  place := Eq
  read x y := x = y ∧ names x
  given := Eq
  carried := Eq
  term t u := t = u ∧ ∀ x ∈ t.mentioned, names x
  environment := Environment.AgreeOn names

theorem callee_of_mentioned {f : Function} (h : ∀ x ∈ f.body.mentioned, names x) : (reading names).Callee f f :=
  ⟨List.forall₂_same.2 fun _ _ => rfl, rfl, h⟩

theorem bound_of_mentioned {b : Binding} (h : ∀ f, b = .function f → ∀ x ∈ f.body.mentioned, names x) :
    (reading names).Bound b b := by
  cases b with
  | function f => exact .function (callee_of_mentioned (h f rfl))
  | value v => exact .value (.refl (fun _ => rfl) v)

theorem eq_of_bound {b b' : Binding} (h : (reading names).Bound b b') : b = b' := by
  cases h with
  | function callee => rw [callee.eq (fun _ _ hgiven => hgiven) fun _ _ hterm => hterm.1]
  | value result => rw [result.eq fun _ _ hcarried => hcarried]

theorem node_of_mentioned {t : Term} (h : ∀ x ∈ t.mentioned, names x) : (reading names).Node t t := by
  refine .refl (fun _ => rfl) ?_ (fun _ => rfl) ?_
  · rintro x l rfl
    have hx : x ∈ (Term.var x l).mentioned := by simp [Term.mentioned, Term.subterms, Term.read?]
    exact ⟨rfl, h x hx⟩
  · intro u hu
    exact ⟨rfl, fun x hx => h x (Term.mentioned_subset_of_child hu hx)⟩

theorem lookup_agree {env env' : Environment} {x : String} (h : env.AgreeOn names env') (hx : names x) :
    Option.Rel (reading names).Bound (env.lookup x) (env'.lookup x) := by
  rw [← h.same x hx]
  cases hb : env.lookup x with
  | none => exact .none
  | some b =>
    refine .some (bound_of_mentioned ?_)
    rintro f rfl
    exact h.closed x f hx hb

theorem bind_agree {env env' : Environment} {b b' : Binding} (h : env.AgreeOn names env') (x : String)
    (hb : (reading names).Bound b b') : (env.bind x b).AgreeOn names (env'.bind x b') := by
  obtain rfl := eq_of_bound hb
  constructor
  · intro y hy
    rw [Environment.lookup_bind, Environment.lookup_bind, h.same y hy]
  · intro y f hy hf
    rw [Environment.lookup_bind] at hf
    split at hf
    · cases hf
      cases hb with
      | function callee => exact callee.body.2
    · exact h.closed y f hy hf

/-- Bindings of names that are not mentioned have no part in evaluation. -/
def readingSimulation (names : String → Prop) : Simulation where
  toCorrespondence := reading names
  node := by
    rintro t _ ⟨rfl, h⟩
    exact node_of_mentioned h
  handedBack h := congrArg (Function.mk []) h.1
  lookup := by
    rintro env env' x _ h ⟨rfl, hx⟩
    exact lookup_agree h hx
  bind := by
    rintro env env' p _ b b' h rfl hb
    exact bind_agree h p.name hb

theorem outcome_eq {r r' : Except EvalError Value} (h : (reading names).Outcome r r') : r = r' := by
  cases h with
  | ok result => rw [result.eq fun _ _ hcarried => hcarried]
  | error cause hplace => rw [cause.error_eq (fun _ _ hread => hread.1) hplace]

end Evaluation

/-- Let a set of names hold those that the term mentions and, for each of its names that is bound to a function, those
that the body mentions. Environments that agree on the set give the same result and the same output, and leave
environments that agree on the set. -/
theorem Evaluator.evaluate_reads_mentioned_names (e : Evaluator) (t : Term) (env env' : Environment)
    (names : String → Prop) (hterm : ∀ x ∈ t.mentioned, names x)
    (hclosed : ∀ x f, names x → env.lookup x = some (.function f) → ∀ y ∈ f.body.mentioned, names y)
    (hagree : ∀ x, names x → env.lookup x = env'.lookup x) :
    (e.evaluate t env).1 = (e.evaluate t env').1 ∧ (e.evaluate t env).2.2 = (e.evaluate t env').2.2 ∧
    ∀ x, names x → (e.evaluate t env).2.1.lookup x = (e.evaluate t env').2.1.lookup x := by
  have henv : env.AgreeOn names env' := ⟨hagree, hclosed⟩
  obtain ⟨houtcome, hleft, hevaluator⟩ := (Evaluation.readingSimulation names).evaluate_related e ⟨rfl, hterm⟩ henv
  exact ⟨Evaluation.outcome_eq houtcome, hevaluator, hleft.same⟩

/-- The body of `f` reads `y` where it is called. Nothing leads to `z`, which the two environments bind differently. -/
theorem Evaluator.evaluate_reads_mentioned_names_of_call :
    let l := Location.unknown
    let f : Function := ⟨[⟨"n", l⟩], .binary .add (.var "n" l) (.var "y" l) l⟩
    let common := (Environment.empty.bind "f" (.function f)).bind "y" (.value (.str "b"))
    let env := common.bind "z" (.value (.int 1))
    let env' := common.bind "z" (.function f)
    let t := Term.letIn ⟨"x", l⟩ (.str "a" l) (.print (.call (.var "f" l) [.var "x" l] l) l) l
    let names (x : String) := x ∈ ["f", "n", "x", "y"]
    let e := buffered 5
    (∀ x ∈ t.mentioned, names x) ∧
    (∀ x g, names x → env.lookup x = some (.function g) → ∀ y ∈ g.body.mentioned, names y) ∧
    (∀ x, names x → env.lookup x = env'.lookup x) ∧ (e.evaluate t env).1 = .ok (.str "ab") ∧
    (e.evaluate t env).1 = (e.evaluate t env').1 ∧ (e.evaluate t env).2.2 = (e.evaluate t env').2.2 ∧
    ∀ x, names x → (e.evaluate t env).2.1.lookup x = (e.evaluate t env').2.1.lookup x := by
  intro l f common env env' t names e
  have hterm : ∀ x ∈ t.mentioned, names x := by decide
  have hbody : ∀ y ∈ f.body.mentioned, names y := by decide
  have hclosed : ∀ x g, names x → env.lookup x = some (.function g) → ∀ y ∈ g.body.mentioned, names y := by
    intro x g _ hg
    simp only [env, common, Environment.lookup_bind, Environment.lookup_empty] at hg
    split at hg
    · cases hg
    split at hg
    · cases hg
    split at hg
    · cases hg
      exact hbody
    · cases hg
  have hagree : ∀ x, names x → env.lookup x = env'.lookup x := by decide
  have hresult : (e.evaluate t env).1 = .ok (.str "ab") := rfl
  have hruns := evaluate_reads_mentioned_names e t env env' names hterm hclosed hagree
  exact ⟨hterm, hclosed, hagree, hresult, hruns⟩

end Treewalk

import Mathlib.Data.Nat.Factorial.Basic
import Treewalk.Proofs.Locations
import Treewalk.Proofs.Operations

/-! The factorial program, with the depth that it takes.

A computation that prints nothing is described by its value, the environment that it leaves and the number of nodes that
it runs one inside the other: with that much of the limit left it returns the value, and with less it runs out of depth.
Such descriptions compose along the nodes of a term, so that the recursive call of the program is an induction on its
argument. -/
namespace Treewalk

namespace Evaluation

/-- From the environment `env`, the computation returns `a` and leaves `env'` by way of `height` nodes, one inside the
other. It prints nothing, also where the limit is too low for it. -/
structure Settles {α : Type} (m : Nat → Evaluation α) (env : Environment) (a : α) (env' : Environment) (height : Nat) :
    Prop where
  returns (printer : Printer) {limit depth : Nat} : depth + height ≤ limit →
    m limit ⟨env, printer, depth⟩ = .ok a ⟨env', printer, depth⟩
  runsOut (printer : Printer) {limit depth : Nat} : depth ≤ limit → limit < depth + height →
    ∃ l left, m limit ⟨env, printer, depth⟩ = .error ⟨.depthExceeded limit, l⟩ ⟨left, printer, depth⟩

namespace Settles

variable {α β : Type} {m m' : Nat → Evaluation α} {f : Nat → α → Evaluation β} {env env₁ env₂ : Environment} {a : α}
  {b : β} {h h' : Nat}

theorem congr (hm : Settles m env a env₁ h)
    (heq : ∀ limit printer depth, m' limit ⟨env, printer, depth⟩ = m limit ⟨env, printer, depth⟩) :
    Settles m' env a env₁ h where
  returns printer _ _ hroom := by rw [heq, hm.returns printer hroom]
  runsOut printer _ _ hdepth hfull := by
    rw [heq]
    exact hm.runsOut printer hdepth hfull

theorem pure (a : α) (env : Environment) : Settles (fun _ => Pure.pure a) env a env 0 where
  returns _ _ _ _ := rfl
  runsOut _ _ _ _ hfull := by omega

theorem define (name : String) (binding : Binding) (env : Environment) :
    Settles (fun _ => Evaluation.define name binding) env () (env.bind name binding) 0 where
  returns _ _ _ _ := rfl
  runsOut _ _ _ _ hfull := by omega

/-- What comes first is done before the rest begins, so the two need the greater of their heights. -/
theorem bind (hm : Settles m env a env₁ h) (hf : Settles (fun limit => f limit a) env₁ b env₂ h') :
    Settles (fun limit => m limit >>= f limit) env b env₂ (max h h') where
  returns printer limit depth hroom := by
    have hfirst : m limit ⟨env, printer, depth⟩ = .ok a ⟨env₁, printer, depth⟩ := hm.returns printer (by omega)
    have hrest : f limit a ⟨env₁, printer, depth⟩ = .ok b ⟨env₂, printer, depth⟩ := hf.returns printer (by omega)
    simp only [bind_run, hfirst, hrest]
  runsOut printer limit depth hdepth hfull := by
    by_cases hroom : depth + h ≤ limit
    · obtain ⟨l, left, hrest⟩ := hf.runsOut printer hdepth (by omega)
      exact ⟨l, left, by simp only [bind_run, hm.returns printer hroom, hrest]⟩
    · obtain ⟨l, left, hfirst⟩ := hm.runsOut printer hdepth (by omega)
      exact ⟨l, left, by simp only [bind_run, hfirst]⟩

theorem inFork {values : List (String × Value)} (hm : Settles m (env.fork values) a env₁ h) :
    Settles (fun limit => Evaluation.inFork values (m limit)) env a env h where
  returns printer _ _ hroom := by simp only [Evaluation.inFork, hm.returns printer hroom]
  runsOut printer _ _ hdepth hfull := by
    obtain ⟨l, left, hrun⟩ := hm.runsOut printer hdepth hfull
    exact ⟨l, env, by simp only [Evaluation.inFork, hrun]⟩

theorem nested {location : Location} (hm : Settles m env a env₁ h) :
    Settles (fun limit => Evaluation.nested limit location (m limit)) env a env₁ (h + 1) where
  returns printer limit depth hroom := by
    have hdepth : depth < limit := by omega
    have hinside : depth + 1 + h ≤ limit := by omega
    simp [Evaluation.nested, hdepth, hm.returns printer hinside]
  runsOut printer limit depth _ hfull := by
    by_cases hdepth : depth < limit
    · have hinside : limit < depth + 1 + h := by omega
      obtain ⟨l, left, hrun⟩ := hm.runsOut printer hdepth hinside
      exact ⟨l, left, by simp [Evaluation.nested, hdepth, hrun]⟩
    · exact ⟨location, env, by simp [Evaluation.nested, hdepth]⟩

end Settles

/-- The same of a term, whose own node counts as well. -/
abbrev Takes (t : Term) (env : Environment) (v : Value) (env' : Environment) (height : Nat) : Prop :=
  Settles (fun limit => eval limit t) env v env' height

namespace Takes

variable {env env₁ env₂ : Environment} {t : Term} {v : Value} {h h' : Nat}

theorem of_step (hstep : Settles (fun limit => step (eval limit) t) env v env₁ h) : Takes t env v env₁ (h + 1) :=
  hstep.nested.congr fun limit _ _ => congrFun (eval_eq limit t) _

theorem int (n : Int64) (l : Location) (env : Environment) : Takes (.int n l) env (.int n) env 1 :=
  of_step (.pure _ env)

theorem var {name : String} {l : Location} (bound : env.lookup name = some (.value v)) :
    Takes (.var name l) env v env 1 := by
  refine of_step ((Settles.pure v env).congr fun limit printer depth => ?_)
  simp [step, evalVar, bound]

theorem binary {operator : Operator} {left right : Term} {l : Location} {a b : Value} (hleft : Takes left env a env₁ h)
    (hright : Takes right env₁ b env₂ h') (operation : operator.operate a b = .ok v) :
    Takes (.binary operator left right l) env v env₂ (max h h' + 1) := by
  have hboth : Settles (fun limit => step (eval limit) (.binary operator left right l)) env v env₂
      (max h (max h' 0)) := by
    refine hleft.bind (hright.bind ((Settles.pure v env₂).congr fun limit printer depth => ?_))
    rw [operation]
  rw [Nat.max_zero] at hboth
  exact of_step hboth

theorem cond {condition whenTrue whenFalse : Term} {l : Location} {b : Bool}
    (htest : Takes condition env (.bool b) env₁ h)
    (hbranch : Takes (if b then whenTrue else whenFalse) env₁ v env₂ h') :
    Takes (.cond condition whenTrue whenFalse l) env v env₂ (max h h' + 1) := by
  refine of_step (htest.bind ?_)
  cases b with
  | true => exact hbranch
  | false => exact hbranch

theorem letFunction {name : Parameter} {parameters : List Parameter} {body next : Term} {place l : Location}
    (hnext : Takes next (env.bind name.name (.function ⟨parameters, body⟩)) v env₁ h) :
    Takes (.letIn name (.function parameters body place) next l) env v env₁ (h + 1) := by
  have hliteral := Settles.pure (Binding.function ⟨parameters, body⟩) env
  have hbind : Settles (fun limit => step (eval limit) (.letIn name (.function parameters body place) next l)) env v
      env₁ (max 0 (max 0 h)) := hliteral.bind ((Settles.define _ _ env).bind hnext)
  rw [Nat.zero_max, Nat.zero_max] at hbind
  exact of_step hbind

theorem call {callee argument : Term} {l : Location} {p : Parameter} {body : Term} {a : Value}
    (callable : Callable env callee ⟨[p], body⟩) (hargument : Takes argument env a env₁ h)
    (hbody : Takes body (env₁.bind p.name (.value a)) v env₂ h') :
    Takes (.call callee [argument] l) env v env₁ (max h h' + 1) := by
  have harguments : Settles (fun limit => evalAll (eval limit) [argument]) env [a] env₁ (max h (max 0 0)) :=
    hargument.bind ((Settles.pure [] env₁).bind (.pure [a] env₁))
  have hfork : Settles (fun limit => inFork [(p.name, a)] (eval limit body)) env₁ v env₁ h' := .inFork hbody
  have hcall : Settles (fun limit => Evaluation.call (eval limit) ⟨[p], body⟩ [argument] l) env v env₁
      (max (max h (max 0 0)) h') := harguments.bind hfork
  rw [Nat.max_self, Nat.max_zero] at hcall
  exact of_step (hcall.congr fun limit printer depth => callTerm_callable callable [argument] l)

/-- An evaluator returns the value exactly if its depth and the height stay within the limit. It is left as it was. -/
theorem evaluate (ht : Takes t env v env₁ h) (e : Evaluator) :
    (e.depth + h ≤ e.limit → (e.evaluate t env).1 = .ok v) ∧
    (e.limit < e.depth + h → ∃ l, (e.evaluate t env).1 = .error ⟨.depthExceeded e.limit, l⟩) ∧
    (e.evaluate t env).2.2 = e := by
  by_cases hroom : e.depth + h ≤ e.limit
  · have hrun := Evaluator.evaluate_reply (r := .ok v) (ht.returns e.printer hroom)
    rw [hrun]
    exact ⟨fun _ => rfl, fun hfull => absurd hroom (Nat.not_le.2 hfull), rfl⟩
  · have hout : ∃ l left, eval e.limit t ⟨env, e.printer, e.depth⟩ =
        .error ⟨.depthExceeded e.limit, l⟩ ⟨left, e.printer, e.depth⟩ := by
      by_cases hdepth : e.depth < e.limit
      · exact ht.runsOut e.printer (by omega) (by omega)
      · exact ⟨t.location, env, by simp [eval_eq, nested, hdepth]⟩
    obtain ⟨l, left, hout⟩ := hout
    rw [Evaluator.evaluate_reply (r := .error _) hout]
    exact ⟨fun hle => absurd hle hroom, fun _ => ⟨l, rfl⟩, rfl⟩

end Takes

end Evaluation

namespace Term

/-- If `n` is below two then one, else `n` times what `fact` makes of `n` less one. -/
def factorialBody : Term :=
  .cond (.binary .lt (.var "n" .unknown) (.int 2 .unknown) .unknown) (.int 1 .unknown)
    (.binary .mul (.var "n" .unknown)
      (.call (.var "fact" .unknown) [.binary .sub (.var "n" .unknown) (.int 1 .unknown) .unknown] .unknown) .unknown)
    .unknown

def factorialFunction : Function := ⟨[⟨"n", .unknown⟩], factorialBody⟩

def factorial (n : Int64) : Term :=
  .letIn ⟨"fact", .unknown⟩ (.function [⟨"n", .unknown⟩] factorialBody .unknown)
    (.call (.var "fact" .unknown) [.int n .unknown] .unknown) .unknown

end Term

namespace Evaluation

open Nat Term

/-- Arguments that are integers of 64 bits compare like the numbers that they stand for. -/
theorem operate_lt_two {k : Nat} (hrange : k < 2 ^ 63) :
    Operator.lt.operate (.int (Int64.ofNat k)) (.int 2) = .ok (.bool (decide (k < 2))) := by
  have hk : (Int64.ofNat k).toInt = k := Int64.toInt_ofNat_of_lt hrange
  have hless : Int64.ofNat k < 2 ↔ k < 2 := by
    rw [Int64.lt_iff_toInt_lt, hk]
    change (k : Int) < 2 ↔ k < 2
    omega
  simp [Operator.operate, hless]

theorem operate_sub_one (k : Nat) :
    Operator.sub.operate (.int (Int64.ofNat (k + 1))) (.int 1) = .ok (.int (Int64.ofNat k)) := by
  have hsub : Int64.ofNat (k + 1) - 1 = Int64.ofNat k := by
    rw [Int64.ofNat_add]
    exact Int64.add_sub_cancel _ _
  rw [← hsub]
  rfl

/-- The product may wrap around: the factorial is right modulo the word all the same. -/
theorem operate_mul_factorial (k : Nat) :
    Operator.mul.operate (.int (Int64.ofNat (k + 1))) (.int (Int64.ofNat k !)) = .ok (.int (Int64.ofNat (k + 1)!)) := by
  rw [Nat.factorial_succ, Int64.ofNat_mul]
  rfl

variable {env : Environment} {k : Nat}

theorem takes_test (hrange : k < 2 ^ 63) (hn : env.lookup "n" = some (.value (.int (Int64.ofNat k)))) :
    Takes (.binary .lt (.var "n" .unknown) (.int 2 .unknown) .unknown) env (.bool (decide (k < 2))) env 2 :=
  .binary (.var hn) (.int 2 .unknown env) (operate_lt_two hrange)

/-- A call of the function is one node around its body, given that the argument takes no more nodes than the body. -/
theorem takes_fact {argument : Term} {h : Nat}
    (hfact : env.lookup "fact" = some (.function factorialFunction))
    (hargument : Takes argument env (.int (Int64.ofNat k)) env h) (hh : h ≤ 3 * k)
    (hbody : ∀ env : Environment, env.lookup "fact" = some (.function factorialFunction) →
      env.lookup "n" = some (.value (.int (Int64.ofNat k))) →
      Takes factorialBody env (.int (Int64.ofNat k !)) env (3 * k)) :
    Takes (.call (.var "fact" .unknown) [argument] .unknown) env (.int (Int64.ofNat k !)) env (3 * k + 1) := by
  have hinside := hbody (env.bind "n" (.value (.int (Int64.ofNat k)))) (by simp [hfact]) (by simp)
  have hcallee : Callable env (.var "fact" .unknown) factorialFunction := .named hfact
  have hcall := Takes.call (l := .unknown) hcallee hargument hinside
  rw [Nat.max_eq_right hh] at hcall
  exact hcall

/-- The body takes three nodes for each level of the recursion: itself, the product and the call. The arguments of the
callers are shadowed. -/
theorem takes_factorialBody (hk : 1 ≤ k) (hrange : k < 2 ^ 63)
    (hfact : env.lookup "fact" = some (.function factorialFunction))
    (hn : env.lookup "n" = some (.value (.int (Int64.ofNat k)))) :
    Takes factorialBody env (.int (Int64.ofNat k !)) env (3 * k) := by
  induction k, hk using Nat.le_induction generalizing env with
  | base =>
    have htest := takes_test hrange hn
    exact htest.cond (.int 1 .unknown env)
  | succ k hk ih =>
    have hlarge : decide (k + 1 < 2) = false := decide_eq_false (by omega)
    have htest := takes_test hrange hn
    rw [hlarge] at htest
    have hargument := Takes.binary (l := .unknown) (.var (l := .unknown) hn) (.int 1 .unknown env) (operate_sub_one k)
    have hcall := takes_fact hfact hargument (by omega) fun env => ih (by omega)
    have hproduct := Takes.binary (l := .unknown) (.var (l := .unknown) hn) hcall (operate_mul_factorial k)
    have hheight : 3 * (k + 1) = max 2 (max 1 (3 * k + 1) + 1) + 1 := by omega
    rw [hheight]
    exact htest.cond hproduct

theorem takes_factorial {n : Nat} (hn : 1 ≤ n) (hrange : n < 2 ^ 63) :
    ∃ env, Takes (factorial (Int64.ofNat n)) .empty (.int (Int64.ofNat n !)) env (3 * n + 2) := by
  let env := Environment.empty.bind "fact" (.function factorialFunction)
  have hfact : env.lookup "fact" = some (.function factorialFunction) := by simp [env]
  have hcall := takes_fact hfact (.int (Int64.ofNat n) .unknown env) (by omega) fun env => takes_factorialBody hn hrange
  exact ⟨env, hcall.letFunction⟩

end Evaluation

namespace Evaluator

open Nat Evaluation

/-- A term that is the factorial program up to locations returns the factorial of its argument modulo `2 ^ 64` if the
limit leaves room for `3 * n + 2` nodes, and runs out of depth if it does not. It prints nothing. -/
theorem evaluate_factorial (e : Evaluator) (t : Term) (n : Nat) (hn : 1 ≤ n) (hrange : n < 2 ^ 63)
    (ht : t.unlocated = Term.factorial (Int64.ofNat n)) :
    (e.depth + (3 * n + 2) ≤ e.limit →
      ∃ c, Operator.Wraps n ! c ∧ (e.evaluate t .empty).1 = .ok (.int c)) ∧
    (e.limit < e.depth + (3 * n + 2) → ∃ l, (e.evaluate t .empty).1 = .error ⟨.depthExceeded e.limit, l⟩) ∧
    (e.evaluate t .empty).2.2 = e := by
  obtain ⟨env, htakes⟩ := takes_factorial hn hrange
  obtain ⟨hreturns, hrunsOut, hleft⟩ := htakes.evaluate e
  have hunlocated : t.unlocated = (Term.factorial (Int64.ofNat n)).unlocated := ht
  obtain ⟨houtcome, -, hevaluator⟩ := unlocatedSimulation.evaluate_related e hunlocated (fun _ => rfl)
  refine ⟨fun hroom => ?_, fun hfull => ?_, hevaluator.trans hleft⟩
  · rw [hreturns hroom] at houtcome
    generalize (e.evaluate t .empty).1 = r at houtcome ⊢
    cases houtcome with
    | ok result =>
      cases result
      exact ⟨_, Operator.wraps_iff.2 Int64.toInt_ofNat', rfl⟩
  · obtain ⟨l, hfails⟩ := hrunsOut hfull
    rw [hfails] at houtcome
    generalize (e.evaluate t .empty).1 = r at houtcome ⊢
    cases houtcome with
    | @error err _ cause _ =>
      have hcause : err.cause = .depthExceeded e.limit := failure_eq cause
      exact ⟨err.location, by rw [← hcause]⟩

/-- The factorial of five at the least limit that suffices and at the one below, and that of twenty-one, which does not
fit into 64 bits. -/
theorem evaluate_factorial_of_five :
    let five := Term.factorial 5
    let large := Term.factorial 21
    ((buffered 17).evaluate five .empty).1 = .ok (.int 120) ∧
      (∃ l, ((buffered 16).evaluate five .empty).1 = .error ⟨.depthExceeded 16, l⟩) ∧
      ((buffered 65).evaluate large .empty).1 = .ok (.int (-4249290049419214848)) ∧
      ((buffered 65).evaluate large .empty).2.2 = buffered 65 := by
  intro five large
  have hfive (limit : Nat) := evaluate_factorial (buffered limit) five 5 (by decide) (by decide) rfl
  obtain ⟨hlarge, -, hprinted⟩ := evaluate_factorial (buffered 65) large 21 (by decide) (by decide) rfl
  obtain ⟨c, hc, hreturns⟩ := (hfive 17).1 (by decide)
  obtain ⟨d, hd, hreturnsLarge⟩ := hlarge (by decide)
  obtain rfl : c = 120 := (Operator.wraps_iff_eq (by decide)).1 hc
  obtain rfl : d = -4249290049419214848 := (Operator.wraps_iff_eq (by decide)).1 hd
  exact ⟨hreturns, (hfive 16).2.1 (by decide), hreturnsLarge, hprinted⟩

end Evaluator

end Treewalk

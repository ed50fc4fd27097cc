import Treewalk.Proofs.Advantage
import Treewalk.Proofs.Frame
import Treewalk.Proofs.Sessions

/-! Evaluating a term again where it was evaluated before.

The second evaluation finds bound all the names that the first one bound on its way. If none of the names that were bound
before is rebound, these are the only names it has over the first, so the two go on together: whatever the first one
reads is bound alike in both. A name is rebound to what it is bound to in the first evaluation, and in its old place, so
that the environment at the end is the one from which the second evaluation started. -/
namespace Treewalk

namespace Environment

/-- The second environment has everything that the first has. Its names are the given ones, in their order, and behind
them others that the first has as well. -/
structure Retraces (names : List String) (env env' : Environment) : Prop where
  included : env.IncludedIn env'
  keys : ∃ added, keys env'.entries = names ++ added ∧ ∀ x ∈ added, env.contains x = true

variable {names : List String} {env env' : Environment}

theorem Retraces.bind (h : Retraces names env env') (x : String) (b : Binding) :
    Retraces names (env.bind x b) (env'.bind x b) := by
  obtain ⟨added, hkeys, hadded⟩ := h.keys
  have hbind : Environment.keys (env'.bind x b).entries =
      if x ∈ Environment.keys env'.entries then Environment.keys env'.entries else Environment.keys env'.entries ++ [x] :=
    keys_put x b env'.entries
  refine ⟨h.included.bind x b, ?_⟩
  split at hbind
  · refine ⟨added, hbind.trans hkeys, fun y hy => ?_⟩
    exact contains_bind.2 (.inr (hadded y hy))
  · refine ⟨added ++ [x], ?_, fun y hy => ?_⟩
    · rw [hbind, hkeys, List.append_assoc]
    · rcases List.mem_append.1 hy with hy | hy
      · exact contains_bind.2 (.inr (hadded y hy))
      · exact contains_bind.2 (.inl (List.mem_singleton.1 hy).symm)

/-- Names behind those of the first environment would be there twice. -/
theorem Retraces.eq (h : Retraces (Environment.keys env.entries) env env') : env' = env := by
  obtain ⟨added, hkeys, hadded⟩ := h.keys
  have hnodup : (Environment.keys env.entries ++ added).Nodup := hkeys ▸ env'.nodup
  have hnone : added = [] := by
    apply List.eq_nil_iff_forall_not_mem.2
    intro x hx
    have hname : x ∈ Environment.keys env.entries := contains_iff_mem_keys.1 (hadded x hx)
    exact (List.nodup_append.1 hnodup).2.2 x hname x hx rfl
  rw [hnone, List.append_nil] at hkeys
  refine eq_of_lookup_eq hkeys fun x hx => ?_
  have hbound : env.contains x = true := contains_iff_mem_keys.2 (hkeys ▸ hx)
  obtain ⟨b, hb⟩ := Option.isSome_iff_exists.1 hbound
  rw [hb]
  exact h.included x b hb

theorem ChangedAt.includedIn (h : ChangedAt (fun x => env.contains x = false) env env') : env.IncludedIn env' := by
  intro x b hb
  by_cases hsame : env'.lookup x = env.lookup x
  · exact hsame.trans hb
  · have hfree := h.only x hsame
    simp [contains, hb] at hfree

end Environment

namespace Evaluation

def Advantage.narrowed {limit limit' : Nat} (A : Advantage limit limit') (relation : Environment → Environment → Prop)
    (hnarrow : ∀ env env', relation env env' → A.environment env env')
    (hbind : ∀ env env' x b, relation env env' → relation (env.bind x b) (env'.bind x b)) :
    Advantage limit limit' where
  environment := relation
  stop := A.stop
  lookup x h := A.lookup x (hnarrow _ _ h)
  bind x b h := hbind _ _ x b h
  limit_le := A.limit_le
  same_limit := A.same_limit

def retracing (limit : Nat) (names : List String) : Advantage limit limit :=
  (furtherNames limit).narrowed (Environment.Retraces names) (fun _ _ h => h.included) fun _ _ x b h => h.bind x b

end Evaluation

namespace Evaluator

open Evaluation Environment

theorem includedIn_of_free (e : Evaluator) {t : Term} {env : Environment}
    (hterm : ∀ x ∈ t.letNames, env.contains x = false)
    (hbodies : ∀ name f, env.lookup name = some (.function f) → ∀ x ∈ f.body.letNames, env.contains x = false) :
    env.IncludedIn (e.evaluate t env).2.1 := by
  have hadmits : (frame e.limit).admits (fun x => env.contains x = false) e.depth env t := ⟨hbodies, hterm⟩
  obtain ⟨hchanged, -, -⟩ := (frame e.limit).evaluate_upholds hadmits
  exact hchanged.includedIn

theorem evaluate_evaluator (e : Evaluator) (t : Term) (env : Environment) :
    (e.evaluate t env).2.2 = { e with printer := (e.evaluate t env).2.2.printer } := by
  obtain ⟨r, env', lines, hrun⟩ := evaluate_uniform e.limit e.depth t env
  have he : e.evaluate t env = (r, env', { e with printer := e.printer.printAll lines }) := hrun e.printer
  rw [he]

/-- An evaluation that succeeds and leaves what it found goes the same way from where it ends, and ends there. -/
theorem evaluate_eq_of_includedIn {e e' : Evaluator} {t : Term} {env env' : Environment} {v : Value}
    (h : e.evaluate t env = (.ok v, env', e')) (hincluded : env.IncludedIn env') :
    e.evaluate t env' = (.ok v, env', e') := by
  have hstart : Retraces (keys env'.entries) env env' := ⟨hincluded, [], (List.append_nil _).symm, nofun⟩
  obtain ⟨hahead, -⟩ := (retracing e.limit (keys env'.entries)).evaluate_ahead e.printer e.depth t hstart
  have hends : ¬ FailsWith .unboundVariable (e.evaluate t env).1 := by
    rw [h]
    intro hfails
    obtain ⟨err, herr, -⟩ := hfails
    cases herr
  obtain ⟨hvalue, hleft, hprinter⟩ : (e.evaluate t env').1 = (e.evaluate t env).1 ∧
      Retraces (keys env'.entries) (e.evaluate t env).2.1 (e.evaluate t env').2.1 ∧
      (e.evaluate t env').2.2.printer = (e.evaluate t env).2.2.printer := hahead hends
  have hevaluator : (e.evaluate t env').2.2 = (e.evaluate t env).2.2 := by
    calc (e.evaluate t env').2.2 = { e with printer := (e.evaluate t env').2.2.printer } := evaluate_evaluator e t env'
      _ = { e with printer := (e.evaluate t env).2.2.printer } := by rw [hprinter]
      _ = (e.evaluate t env).2.2 := (evaluate_evaluator e t env).symm
  rw [h] at hvalue hleft hevaluator
  exact Prod.ext hvalue (Prod.ext hleft.eq hevaluator)

/-- An evaluation that succeeds, in an environment that binds none of the names which the term and the bodies of its
functions give outside callees, may be repeated where it ends. It gives the same value, prints the same lines once more
and changes nothing. -/
theorem evaluate_again (e e' : Evaluator) (t : Term) (env env' : Environment) (v : Value)
    (hterm : ∀ x ∈ t.letNames, env.contains x = false)
    (hbodies : ∀ name f, env.lookup name = some (.function f) → ∀ x ∈ f.body.letNames, env.contains x = false)
    (h : e.evaluate t env = (.ok v, env', e')) :
    ∃ lines, e' = { e with printer := e.printer.printAll lines } ∧
      ∀ printer, { e with printer := printer }.evaluate t env =
          (.ok v, env', { e with printer := printer.printAll lines }) ∧
        { e with printer := printer }.evaluate t env' =
          (.ok v, env', { e with printer := printer.printAll lines }) := by
  have hincluded : env.IncludedIn env' := by
    have hkept := includedIn_of_free e hterm hbodies
    rw [h] at hkept
    exact hkept
  obtain ⟨r, left, lines, hfirst⟩ := evaluate_uniform e.limit e.depth t env
  have hrun := h.symm.trans (hfirst e.printer)
  simp only [Prod.mk.injEq] at hrun
  obtain ⟨rfl, rfl, rfl⟩ := hrun
  refine ⟨lines, rfl, fun printer => ⟨hfirst printer, ?_⟩⟩
  exact evaluate_eq_of_includedIn (hfirst printer) hincluded

/-- One half of a pair runs the body of `f` in place, which prints a line and binds the name that the other half reads.
The line is printed once more when the pair is evaluated again. -/
theorem evaluate_again_of_pair :
    let l := Location.unknown
    let body := Term.letIn ⟨"y", l⟩ (.print (.str "b" l) l) (.var "y" l) l
    let env := Environment.empty.bind "f" (.function ⟨[], body⟩)
    let env' := env.bind "y" (.value (.str "b"))
    let t := Term.tuple (.var "f" l) (.var "y" l) l
    let v := Value.tuple (.str "b") (.str "b")
    let e : Evaluator := ⟨9, .buffer "b\n", 0⟩
    (∀ x ∈ t.letNames, env.contains x = false) ∧
      (∀ name f, env.lookup name = some (.function f) → ∀ x ∈ f.body.letNames, env.contains x = false) ∧
      (buffered 9).evaluate t env = (.ok v, env', e) ∧
      e.evaluate t env' = (.ok v, env', { e with printer := .buffer "b\nb\n" }) := by
  intro l body env env' t v e
  have hterm : ∀ x ∈ t.letNames, env.contains x = false := nofun
  have hbody : ∀ x ∈ body.letNames, env.contains x = false := by decide
  have hbodies : ∀ name f, env.lookup name = some (.function f) →
      ∀ x ∈ f.body.letNames, env.contains x = false := by
    intro name f hf
    rw [Environment.lookup_bind] at hf
    split at hf
    · cases hf
      exact hbody
    · cases hf
  have hrun : (buffered 9).evaluate t env = (.ok v, env', e) := by rfl
  obtain ⟨lines, he, hagain⟩ := evaluate_again (buffered 9) e t env env' v hterm hbodies hrun
  have hbuffer : Printer.fresh.printAll lines = .buffer "b\n" := (congrArg Evaluator.printer he).symm
  have hlines : Printer.linesText lines = "b\n" := by
    rw [Printer.fresh, Printer.printAll_buffer] at hbuffer
    simpa using Printer.buffer.inj hbuffer
  have hsecond := (hagain e.printer).2
  rw [Printer.printAll_buffer, hlines] at hsecond
  exact ⟨hterm, hbodies, hrun, hsecond⟩

/-- The second half of the pair binds a name that was bound before and that the first half reads. -/
example :
    let l := Location.unknown
    let env := Environment.empty.bind "x" (.value (.bool true))
    let env' := Environment.empty.bind "x" (.value (.bool false))
    let t := Term.tuple (.var "x" l) (.letIn ⟨"x", l⟩ (.bool false l) (.var "x" l) l) l
    (buffered 9).evaluate t env = (.ok (.tuple (.bool true) (.bool false)), env', buffered 9) ∧
      (buffered 9).evaluate t env' = (.ok (.tuple (.bool false) (.bool false)), env', buffered 9) :=
  ⟨rfl, rfl⟩

end Evaluator

end Treewalk

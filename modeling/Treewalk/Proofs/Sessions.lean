import Treewalk.Proofs.Nesting

/-! Many evaluations on one evaluator, one after the other.

Whatever came before, and however it ended, a job is answered as on a fresh evaluator: no node is under way
between jobs, and what was printed stays in front of what the job prints. -/
namespace Treewalk

open Evaluation

/-- Something to do for an evaluator: a term in an environment that the caller lends, or a whole program. -/
inductive Job where
  | evaluate (t : Term) (env : Environment)
  | run (p : Program)

def Job.term : Job → Term
  | evaluate t _ => t
  | run p => p.expression

namespace Evaluator

/-- The result of a job, with the lent environment as the job leaves it, and the evaluator afterwards. -/
def perform (e : Evaluator) : Job → (Except EvalError Value × Option Environment) × Evaluator
  | .evaluate t env =>
      let (result, env', e') := e.evaluate t env
      ((result, some env'), e')
  | .run p =>
      let (result, e') := e.run p
      ((result, none), e')

def performAll (e : Evaluator) (jobs : List Job) : Evaluator := jobs.foldl (fun e job => (e.perform job).2) e

def start (e : Evaluator) : Job → State
  | .evaluate _ env => ⟨env, e.printer, e.depth⟩
  | .run _ => ⟨.empty, e.printer, 0⟩

theorem evaluate_uniform (limit depth : Nat) (t : Term) (env : Environment) :
    ∃ r env' lines, ∀ printer, (⟨limit, printer, depth⟩ : Evaluator).evaluate t env =
      (r, env', ⟨limit, printer.printAll lines, depth⟩) := by
  obtain ⟨r, env', lines, hrun⟩ := eval_steady limit t env depth
  exact ⟨r, env', lines, fun printer => evaluate_reply (e := ⟨limit, printer, depth⟩) (hrun printer)⟩

theorem run_uniform (limit : Nat) (p : Program) :
    ∃ r lines, ∀ printer, (⟨limit, printer, 0⟩ : Evaluator).run p = (r, ⟨limit, printer.printAll lines, 0⟩) := by
  obtain ⟨r, env', lines, hrun⟩ := evaluate_uniform limit 0 p.expression .empty
  exact ⟨r, lines, fun printer => by simp [run, hrun]⟩

/-- On the terminal a program ends as it does with a buffer, and what is written is what the buffer captures. -/
theorem run_onTerminal (limit : Nat) (p : Program) :
    ((onTerminal limit).run p).1 = ((buffered limit).run p).1 ∧
    ((onTerminal limit).run p).2.printer.written = ((buffered limit).run p).2.printer.output := by
  obtain ⟨r, lines, hrun⟩ := run_uniform limit p
  rw [onTerminal, buffered, hrun, hrun]
  exact ⟨rfl, Printer.written_eq_output lines⟩

/-- An idle evaluator answers a job by the limit alone, and is idle afterwards. -/
theorem perform_uniform (limit : Nat) (job : Job) :
    ∃ answer lines, ∀ printer, (⟨limit, printer, 0⟩ : Evaluator).perform job =
      (answer, ⟨limit, printer.printAll lines, 0⟩) := by
  cases job with
  | evaluate t env =>
    obtain ⟨r, env', lines, hrun⟩ := evaluate_uniform limit 0 t env
    exact ⟨(r, some env'), lines, fun printer => by simp [perform, hrun]⟩
  | run p =>
    obtain ⟨r, lines, hrun⟩ := run_uniform limit p
    exact ⟨(r, none), lines, fun printer => by simp [perform, hrun]⟩

theorem performAll_idle (limit : Nat) (jobs : List Job) (printer : Printer) :
    ∃ lines, (⟨limit, printer, 0⟩ : Evaluator).performAll jobs = ⟨limit, printer.printAll lines, 0⟩ := by
  induction jobs generalizing printer with
  | nil => exact ⟨[], rfl⟩
  | cons job jobs ih =>
    obtain ⟨answer, xs, hjob⟩ := perform_uniform limit job
    obtain ⟨ys, hjobs⟩ := ih (printer.printAll xs)
    refine ⟨xs ++ ys, ?_⟩
    have hstep : (⟨limit, printer, 0⟩ : Evaluator).performAll (job :: jobs) =
        ((⟨limit, printer, 0⟩ : Evaluator).perform job).2.performAll jobs := rfl
    rw [hstep, hjob, hjobs, Printer.printAll_append]

/-- After any history of jobs an evaluator is idle. During the next job its counter stays between the value
on entry and the limit; the answer is the one a fresh evaluator gives, and what is captured is what was
captured before followed by what the fresh evaluator captures. -/
theorem perform_after_history (limit : Nat) (history : List Job) (job : Job) :
    let e := (buffered limit).performAll history
    let fresh := (buffered limit).perform job
    e.depth = 0 ∧ e.limit = limit ∧
    (∀ n, Shows limit job.term (e.start job) n → e.depth ≤ n ∧ n ≤ limit) ∧
    (e.perform job).1 = fresh.1 ∧
    (e.perform job).2 = ⟨limit, .buffer (e.printer.output ++ fresh.2.printer.output), 0⟩ := by
  obtain ⟨xs, hhistory⟩ := performAll_idle limit history .fresh
  obtain ⟨answer, ys, hjob⟩ := perform_uniform limit job
  have hbefore : (buffered limit).performAll history = ⟨limit, .buffer ("" ++ Printer.linesText xs), 0⟩ := by
    rw [buffered, hhistory, Printer.fresh, Printer.printAll_buffer]
  intro e fresh
  have he : e = ⟨limit, .buffer ("" ++ Printer.linesText xs), 0⟩ := hbefore
  have hfresh : fresh = (answer, ⟨limit, Printer.fresh.printAll ys, 0⟩) := hjob .fresh
  rw [he, hfresh, hjob]
  refine ⟨rfl, rfl, fun n hn => ?_, rfl, ?_⟩
  · have hstart : (start ⟨limit, .buffer ("" ++ Printer.linesText xs), 0⟩ job).depth = 0 := by cases job <;> rfl
    have hbounds := hn.bounds (by omega)
    rw [hstart] at hbounds
    exact hbounds
  · simp [Printer.printAll_buffer, Printer.fresh, Printer.output]

end Evaluator

end Treewalk

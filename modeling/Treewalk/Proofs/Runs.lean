import Treewalk.Evaluation.Evaluator

/-! What a run can do to its state.

A run may bind names and print lines; the number of nodes under way is the same before and after, and what
was printed before has no influence. `Steady` says so of a computation, and `eval_steady` of every term. -/
namespace Treewalk

namespace Printer

def printAll (p : Printer) (lines : List String) : Printer := lines.foldl println p

@[simp] theorem printAll_nil (p : Printer) : p.printAll [] = p := rfl

@[simp] theorem printAll_append (p : Printer) (xs ys : List String) :
    p.printAll (xs ++ ys) = (p.printAll xs).printAll ys := List.foldl_append

@[simp] theorem printAll_singleton (p : Printer) (line : String) : p.printAll [line] = p.println line := rfl

/-- The text of lines, each with its line feed. -/
def linesText (lines : List String) : String := String.join (lines.map (· ++ "\n"))

/-- A printer that adds each line behind what it holds adds the text of all lines. -/
theorem printAll_eq_of_println {place : String → Printer}
    (h : ∀ text line, (place text).println line = place (text ++ line ++ "\n")) (text : String) (lines : List String) :
    (place text).printAll lines = place (text ++ linesText lines) := by
  induction lines generalizing text with
  | nil => simp [printAll, linesText]
  | cons line lines ih =>
    have hstep : (place text).printAll (line :: lines) = ((place text).println line).printAll lines := rfl
    rw [hstep, h, ih]
    simp [linesText, String.append_assoc]

theorem printAll_buffer (text : String) (lines : List String) :
    (buffer text).printAll lines = buffer (text ++ linesText lines) :=
  printAll_eq_of_println (fun _ _ => rfl) text lines

theorem printAll_standard (written : String) (lines : List String) :
    (standard written).printAll lines = standard (written ++ linesText lines) :=
  printAll_eq_of_println (fun _ _ => rfl) written lines

/-- From the start, as much is written to the terminal as is kept by a buffer. -/
theorem written_eq_output (lines : List String) : (terminal.printAll lines).written = (fresh.printAll lines).output := by
  rw [terminal, fresh, printAll_standard, printAll_buffer]
  rfl

end Printer

namespace Evaluation

variable {α β : Type}

@[simp] theorem pure_run (a : α) (s : State) : (pure a : Evaluation α) s = .ok a s := rfl

@[simp] theorem bind_run (m : Evaluation α) (f : α → Evaluation β) (s : State) :
    (m >>= f) s = match m s with
      | .ok a s' => f a s'
      | .error e s' => .error e s' := by
  cases h : m s <;> simp [bind, EStateM.bind, h]

@[simp] theorem map_run (f : α → β) (m : Evaluation α) (s : State) :
    (f <$> m) s = match m s with
      | .ok a s' => .ok (f a) s'
      | .error e s' => .error e s' := by
  cases h : m s <;> simp [Functor.map, EStateM.map, h]

def reply (r : Except EvalError α) (s : State) : EStateM.Result EvalError State α :=
  match r with
  | .ok a => .ok a s
  | .error e => .error e s

@[simp] theorem reply_ok (a : α) (s : State) : reply (.ok a) s = .ok a s := rfl

@[simp] theorem reply_error (e : EvalError) (s : State) : reply (.error e : Except EvalError α) s = .error e s := rfl

/-- The state behind a run that leaves an environment and prints lines. -/
def State.advance (s : State) (env : Environment) (lines : List String) : State :=
  ⟨env, s.printer.printAll lines, s.depth⟩

@[simp] theorem advance_environment (s : State) (env : Environment) (lines : List String) :
    (s.advance env lines).environment = env := rfl

@[simp] theorem advance_printer (s : State) (env : Environment) (lines : List String) :
    (s.advance env lines).printer = s.printer.printAll lines := rfl

@[simp] theorem advance_depth (s : State) (env : Environment) (lines : List String) :
    (s.advance env lines).depth = s.depth := rfl

@[simp] theorem advance_advance (s : State) (env env' : Environment) (xs ys : List String) :
    (s.advance env xs).advance env' ys = s.advance env' (xs ++ ys) := by
  simp [State.advance]

@[simp] theorem advance_self (s : State) : s.advance s.environment [] = s := rfl

@[simp 1100] theorem define_advance (name : String) (binding : Binding) (s : State) (env : Environment)
    (lines : List String) :
    define name binding (s.advance env lines) = .ok () (s.advance (env.bind name binding) lines) := rfl

@[simp 1100] theorem println_advance (line : String) (s : State) (env : Environment) (lines : List String) :
    println line (s.advance env lines) = .ok () (s.advance env (lines ++ [line])) := by
  simp [State.advance]

theorem inFork_advance {m : Evaluation α} {values : List (String × Value)} {s : State} {env env' : Environment}
    {xs ys : List String} {r : Except EvalError α}
    (h : m (s.advance (env.fork values) xs) = reply r (s.advance env' ys)) :
    inFork values m (s.advance env xs) = reply r (s.advance env ys) := by
  simp only [State.advance] at h
  cases r <;> simp [inFork, h, State.advance]

theorem inFork_error {m : Evaluation α} {values : List (String × Value)} {s s' : State} {env : Environment}
    {xs : List String} {e : EvalError} (h : m (s.advance (env.fork values) xs) = .error e s') :
    inFork values m (s.advance env xs) = .error e { s' with environment := env } := by
  simp only [State.advance] at h
  simp [inFork, h, State.advance]

theorem nested_advance {m : Evaluation α} {limit : Nat} {location : Location} {s : State}
    {env env' : Environment} {xs ys : List String} {r : Except EvalError α} (hd : s.depth < limit)
    (h : m (State.advance { s with depth := s.depth + 1 } env xs) =
      reply r (State.advance { s with depth := s.depth + 1 } env' ys)) :
    nested limit location m (s.advance env xs) = reply r (s.advance env' ys) := by
  simp only [State.advance] at h
  cases r <;> simp [nested, hd, h, State.advance]

/-- The outcome of a computation hangs on the environment and the depth alone. The depth is the same
behind it, and the lines that it prints follow whatever was printed before. -/
def Steady (m : Evaluation α) : Prop :=
  ∀ env depth, ∃ r env' lines, ∀ printer,
    m ⟨env, printer, depth⟩ = reply r (State.advance ⟨env, printer, depth⟩ env' lines)

theorem Steady.pure (a : α) : Steady (Pure.pure a) := fun env _ => ⟨.ok a, env, [], fun _ => rfl⟩

theorem Steady.fail (cause : Cause) (location : Location) : Steady (fail cause location : Evaluation α) :=
  fun env _ => ⟨.error ⟨cause, location⟩, env, [], fun _ => rfl⟩

theorem Steady.lookup (name : String) : Steady (lookup name) :=
  fun env _ => ⟨.ok (env.lookup name), env, [], fun _ => rfl⟩

theorem Steady.define (name : String) (binding : Binding) : Steady (define name binding) :=
  fun env _ => ⟨.ok (), env.bind name binding, [], fun _ => rfl⟩

theorem Steady.println (line : String) : Steady (println line) :=
  fun env _ => ⟨.ok (), env, [line], fun _ => rfl⟩

theorem Steady.bind {m : Evaluation α} {f : α → Evaluation β} (hm : Steady m) (hf : ∀ a, Steady (f a)) :
    Steady (m >>= f) := by
  intro env depth
  obtain ⟨r, env₁, xs, h₁⟩ := hm env depth
  cases r with
  | error e => exact ⟨.error e, env₁, xs, fun printer => by simp [h₁]⟩
  | ok a =>
    obtain ⟨r, env₂, ys, h₂⟩ := hf a env₁ depth
    refine ⟨r, env₂, xs ++ ys, fun printer => ?_⟩
    have hrest := h₂ (printer.printAll xs)
    simp only [bind_run, h₁, reply_ok]
    rw [← advance_advance]
    exact hrest

/-- The copy is given up, so only what is printed reaches the outside. -/
theorem Steady.inFork {m : Evaluation α} (values : List (String × Value)) (hm : Steady m) :
    Steady (inFork values m) := by
  intro env depth
  obtain ⟨r, env', lines, h⟩ := hm (env.fork values) depth
  refine ⟨r, env, lines, fun printer => ?_⟩
  cases r <;> simp [Evaluation.inFork, h, State.advance]

theorem Steady.nested {m : Evaluation α} (limit : Nat) (location : Location) (hm : Steady m) :
    Steady (nested limit location m) := by
  intro env depth
  by_cases hd : depth < limit
  · obtain ⟨r, env', lines, h⟩ := hm env (depth + 1)
    refine ⟨r, env', lines, fun printer => ?_⟩
    cases r <;> simp [Evaluation.nested, hd, h, State.advance]
  · exact ⟨.error ⟨.depthExceeded limit, location⟩, env, [], fun printer => by
      simp [Evaluation.nested, hd, State.advance]⟩

section Steps

variable {eval : Term → Evaluation Value} (he : ∀ t, Steady (eval t))

include he

theorem evalAll_steady (ts : List Term) : Steady (evalAll eval ts) := by
  induction ts with
  | nil => exact .pure []
  | cons t rest ih => exact .bind (he t) fun v => .bind ih fun vs => .pure (v :: vs)

theorem call_steady (f : Function) (arguments : List Term) (location : Location) :
    Steady (call eval f arguments location) := by
  unfold call
  split
  · exact .bind (evalAll_steady he arguments) fun values => .inFork _ (he f.body)
  · exact .fail _ _

theorem callTerm_steady (callee : Term) (arguments : List Term) (location : Location) :
    Steady (callTerm eval callee arguments location) := by
  unfold callTerm
  split
  · refine .bind (.lookup _) fun binding => ?_
    split
    · exact call_steady he _ arguments location
    · exact .fail _ _
    · exact .fail _ _
  · exact call_steady he _ arguments location
  · exact .pure _

theorem project_steady (half : Half) (operand : Term) : Steady (project eval half operand) := by
  unfold project
  split
  · refine .bind (he operand) fun v => ?_
    split
    · cases half <;> exact .pure _
    · exact .fail _ _
  · exact .fail _ _

theorem evalVar_steady (name : String) (location : Location) : Steady (evalVar eval name location) := by
  refine .bind (.lookup name) fun binding => ?_
  split
  · exact .pure _
  · exact he _
  · exact .fail _ _

theorem evalBinding_steady (value : Term) : Steady (evalBinding eval value) := by
  unfold evalBinding
  split
  · exact .pure _
  · exact .bind (he _) fun v => .pure _

theorem step_steady (t : Term) : Steady (step eval t) := by
  cases t with
  | int n l => exact .pure _
  | str s l => exact .pure _
  | bool b l => exact .pure _
  | var name l => exact evalVar_steady he name l
  | function parameters body l => exact he body
  | call callee arguments l => exact callTerm_steady he callee arguments l
  | letIn name value next l =>
    exact .bind (evalBinding_steady he value) fun binding => .bind (.define _ _) fun _ => he next
  | cond condition whenTrue whenFalse l =>
    refine .bind (he condition) fun v => ?_
    split
    · exact he whenTrue
    · exact he whenFalse
    · exact .fail _ _
  | binary operator left right l =>
    refine .bind (he left) fun a => .bind (he right) fun b => ?_
    split
    · exact .pure _
    · exact .fail _ _
  | tuple left right l => exact .bind (he left) fun a => .bind (he right) fun b => .pure _
  | first operand l => exact project_steady he .first operand
  | second operand l => exact project_steady he .second operand
  | print operand l => exact .bind (he operand) fun v => .bind (.println _) fun _ => .pure v

end Steps

theorem evalWithin_steady (limit room : Nat) (t : Term) : Steady (evalWithin limit room t) := by
  induction room generalizing t with
  | zero => exact .fail _ _
  | succ room ih => exact .nested limit t.location (step_steady ih t)

theorem eval_steady (limit : Nat) (t : Term) : Steady (eval limit t) :=
  fun env depth => evalWithin_steady limit (limit - depth) t env depth

end Evaluation

theorem Evaluator.evaluate_reply {e : Evaluator} {t : Term} {env : Environment} {r : Except EvalError Value}
    {s : Evaluation.State} (h : Evaluation.eval e.limit t ⟨env, e.printer, e.depth⟩ = Evaluation.reply r s) :
    e.evaluate t env = (r, s.environment, ⟨e.limit, s.printer, s.depth⟩) := by
  cases r <;> simp [evaluate, h]

end Treewalk

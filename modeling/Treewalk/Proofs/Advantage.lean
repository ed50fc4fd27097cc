import Treewalk.Proofs.Runs

/-! Two runs of one term, of which the second has more to draw on: a higher limit, or further names.

The runs go on together until the first one fails for want of what the second one has. From there on the second goes on
alone, and all that this adds is lines printed behind the others and names bound beside the others. -/
namespace Treewalk

theorem Printer.output_printAll (p : Printer) (lines : List String) :
    ∃ rest, (p.printAll lines).output = p.output ++ rest := by
  cases p with
  | standard written =>
    refine ⟨"", ?_⟩
    rw [printAll_standard]
    rfl
  | buffer text =>
    refine ⟨linesText lines, ?_⟩
    rw [printAll_buffer]
    rfl

namespace Evaluation

variable {α β : Type}

def FailsWith (code : ErrorCode) (r : Except EvalError Value) : Prop := ∃ e, r = .error e ∧ e.cause.code = code

def lastState : EStateM.Result EvalError State α → State
  | .ok _ s => s
  | .error _ s => s

/-- The one state is reached from the other by printing lines and binding names. -/
structure Onward (s s' : State) : Prop where
  printed : ∃ lines, s'.printer = s.printer.printAll lines
  kept : ∀ x, s.environment.contains x = true → s'.environment.contains x = true

namespace Onward

variable {s : State}

theorem refl (s : State) : Onward s s := ⟨⟨[], rfl⟩, fun _ h => h⟩

theorem trans {s₁ s₂ s₃ : State} (h : Onward s₁ s₂) (h' : Onward s₂ s₃) : Onward s₁ s₃ := by
  obtain ⟨xs, hxs⟩ := h.printed
  obtain ⟨ys, hys⟩ := h'.printed
  refine ⟨⟨xs ++ ys, ?_⟩, fun x hx => h'.kept x (h.kept x hx)⟩
  rw [hys, hxs, Printer.printAll_append]

theorem output {s' : State} (h : Onward s s') : ∃ rest, s'.printer.output = s.printer.output ++ rest := by
  obtain ⟨lines, hlines⟩ := h.printed
  rw [hlines]
  exact Printer.output_printAll s.printer lines

theorem define (name : String) (binding : Binding) (s : State) :
    Onward s { s with environment := s.environment.bind name binding } :=
  ⟨⟨[], rfl⟩, fun _ hx => Environment.contains_bind.2 (.inr hx)⟩

theorem println (line : String) (s : State) : Onward s { s with printer := s.printer.println line } :=
  ⟨⟨[line], rfl⟩, fun _ h => h⟩

theorem bind {m : Evaluation α} {f : α → Evaluation β} {s' : State} (h : Onward s (lastState (m s')))
    (hf : ∀ a s, Onward s (lastState (f a s))) : Onward s (lastState ((m >>= f) s')) := by
  rw [bind_run]
  generalize m s' = r at h ⊢
  cases r with
  | error e s₁ => exact h
  | ok a s₁ => exact h.trans (hf a s₁)

theorem inFork {m : Evaluation α} (values : List (String × Value)) (h : ∀ s, Onward s (lastState (m s))) (s : State) :
    Onward s (lastState (Evaluation.inFork values m s)) := by
  have hcopy := h { s with environment := s.environment.fork values }
  unfold Evaluation.inFork
  generalize m { s with environment := s.environment.fork values } = r at hcopy ⊢
  cases r with
  | error e s₁ => exact ⟨hcopy.printed, fun _ hx => hx⟩
  | ok a s₁ => exact ⟨hcopy.printed, fun _ hx => hx⟩

theorem nested {m : Evaluation α} (limit : Nat) (l : Location) (h : ∀ s, Onward s (lastState (m s))) (s : State) :
    Onward s (lastState (Evaluation.nested limit l m s)) := by
  have hinside := h { s with depth := s.depth + 1 }
  unfold Evaluation.nested
  split
  · generalize m { s with depth := s.depth + 1 } = r at hinside ⊢
    cases r with
    | error e s₁ => exact ⟨hinside.printed, hinside.kept⟩
    | ok a s₁ => exact ⟨hinside.printed, hinside.kept⟩
  · exact refl s

end Onward

theorem nested_full {limit : Nat} {s : State} (h : limit ≤ s.depth) (l : Location) (m : Evaluation α) :
    nested limit l m s = .error ⟨.depthExceeded limit, l⟩ s := by
  unfold nested
  rw [if_neg (Nat.not_lt.2 h)]

/-- What the second of two runs may have over the first. -/
structure Advantage (limit limit' : Nat) where
  /-- The environments of two runs that still go on together. -/
  environment : Environment → Environment → Prop
  /-- The kind of failure that may end the first run alone. -/
  stop : ErrorCode
  lookup {env env' : Environment} (x : String) : environment env env' →
    env'.lookup x = env.lookup x ∨ env.lookup x = none ∧ stop = .unboundVariable
  bind {env env' : Environment} (x : String) (b : Binding) : environment env env' →
    environment (env.bind x b) (env'.bind x b)
  limit_le : limit ≤ limit'
  same_limit : limit = limit' ∨ stop = .stackDepthExceeded

namespace Advantage

variable {limit limit' : Nat} (A : Advantage limit limit')

structure Abreast (s s' : State) : Prop where
  environment : A.environment s.environment s'.environment
  printer : s'.printer = s.printer
  depth : s'.depth = s.depth

/-- Two runs end alike, or the first one stops and the second one goes on from there. -/
inductive Ends : EStateM.Result EvalError State α → EStateM.Result EvalError State α → Prop
  | ok {a : α} {s s' : State} (state : A.Abreast s s') : Ends (.ok a s) (.ok a s')
  | error {e : EvalError} {s s' : State} (state : A.Abreast s s') : Ends (.error e s) (.error e s')
  | stopped {e : EvalError} {s : State} {r : EStateM.Result EvalError State α} (code : e.cause.code = A.stop)
      (onward : Onward s (lastState r)) : Ends (.error e s) r

/-- The two computations end so from states that are abreast; what the second does on its own is to go onward. -/
structure Leads (m m' : Evaluation α) : Prop where
  ends : ∀ s s', A.Abreast s s' → A.Ends (m s) (m' s')
  onward : ∀ s, Onward s (lastState (m' s))

variable {A}

theorem fork {env env' : Environment} (h : A.environment env env') (values : List (String × Value)) :
    A.environment (env.fork values) (env'.fork values) := by
  induction values generalizing env env' with
  | nil => exact h
  | cons pair rest ih => exact ih (A.bind pair.1 (.value pair.2) h)

theorem kept {env env' : Environment} (h : A.environment env env') (x : String) (hx : env.contains x = true) :
    env'.contains x = true := by
  rcases A.lookup x h with hsame | ⟨hfree, -⟩
  · rw [Environment.contains, hsame]
    exact hx
  · simp [Environment.contains, hfree] at hx

theorem Abreast.onward {s s' : State} (h : A.Abreast s s') : Onward s s' :=
  ⟨⟨[], h.printer⟩, kept h.environment⟩

namespace Leads

theorem pure (a : α) : A.Leads (Pure.pure a) (Pure.pure a) := ⟨fun _ _ hs => .ok hs, .refl⟩

theorem fail (cause : Cause) (l : Location) :
    A.Leads (Evaluation.fail cause l : Evaluation α) (Evaluation.fail cause l) :=
  ⟨fun _ _ hs => .error hs, .refl⟩

theorem define (name : String) (binding : Binding) :
    A.Leads (Evaluation.define name binding) (Evaluation.define name binding) :=
  ⟨fun _ _ hs => .ok ⟨A.bind name binding hs.environment, hs.printer, hs.depth⟩, .define name binding⟩

theorem println (line : String) : A.Leads (Evaluation.println line) (Evaluation.println line) := by
  refine ⟨fun s s' hs => .ok ⟨hs.environment, ?_, hs.depth⟩, .println line⟩
  exact congrArg (·.println line) hs.printer

theorem bind {m m' : Evaluation α} {f f' : α → Evaluation β} (hm : A.Leads m m') (hf : ∀ a, A.Leads (f a) (f' a)) :
    A.Leads (m >>= f) (m' >>= f') := by
  have honward : ∀ a s, Onward s (lastState (f' a s)) := fun a => (hf a).onward
  refine ⟨fun s s' hs => ?_, fun s => .bind (hm.onward s) honward⟩
  have hends := hm.ends s s' hs
  cases hr : m s with
  | ok a s₁ =>
    rw [hr] at hends
    cases hr' : m' s' with
    | error e s₂ =>
      rw [hr'] at hends
      cases hends
    | ok b s₂ =>
      rw [hr'] at hends
      rw [bind_run, bind_run, hr, hr']
      cases hends with
      | ok state => exact (hf a).ends s₁ s₂ state
  | error e s₁ =>
    rw [hr] at hends
    have hfirst : (m >>= f) s = .error e s₁ := by rw [bind_run, hr]
    rw [hfirst]
    generalize hr' : m' s' = r' at hends
    cases hends with
    | error state =>
      rw [bind_run, hr']
      exact .error state
    | stopped code onward => exact .stopped code (.bind (hr' ▸ onward) honward)

/-- A name that the first run misses ends it, while the second goes on with what the name stands for. -/
theorem lookup (x : String) (l : Location) {f f' : Option Binding → Evaluation α}
    (hnone : f none = Evaluation.fail (.unboundVariable x) l) (hf : ∀ b, A.Leads (f b) (f' b)) :
    A.Leads (Evaluation.lookup x >>= f) (Evaluation.lookup x >>= f') := by
  refine ⟨fun s s' hs => ?_, fun s => (hf _).onward s⟩
  simp only [bind_run, lookup_run]
  rcases A.lookup x hs.environment with hsame | ⟨hfree, hstop⟩
  · rw [hsame]
    exact (hf _).ends s s' hs
  · rw [hfree, hnone]
    exact .stopped hstop.symm (hs.onward.trans ((hf _).onward s'))

theorem inFork (values : List (String × Value)) {m m' : Evaluation α} (h : A.Leads m m') :
    A.Leads (Evaluation.inFork values m) (Evaluation.inFork values m') := by
  refine ⟨fun s s' hs => ?_, .inFork values h.onward⟩
  have hends := h.ends { s with environment := s.environment.fork values }
    { s' with environment := s'.environment.fork values } ⟨fork hs.environment values, hs.printer, hs.depth⟩
  unfold Evaluation.inFork
  generalize m _ = r at hends ⊢
  generalize m' _ = r' at hends ⊢
  cases hends with
  | ok state => exact .ok ⟨hs.environment, state.printer, state.depth⟩
  | error state => exact .error ⟨hs.environment, state.printer, state.depth⟩
  | stopped code onward =>
    cases r' with
    | ok a s₁ => exact .stopped code ⟨onward.printed, kept hs.environment⟩
    | error e s₁ => exact .stopped code ⟨onward.printed, kept hs.environment⟩

theorem nested (l : Location) {m m' : Evaluation α} (h : A.Leads m m') :
    A.Leads (Evaluation.nested limit l m) (Evaluation.nested limit' l m') := by
  have honward := Onward.nested limit' l h.onward
  refine ⟨fun s s' hs => ?_, honward⟩
  have hle := A.limit_le
  have hdepth := hs.depth
  by_cases hd : s.depth < limit
  · have hd' : s'.depth < limit' := by omega
    have hends := h.ends { s with depth := s.depth + 1 } { s' with depth := s'.depth + 1 }
      ⟨hs.environment, hs.printer, congrArg (· + 1) hdepth⟩
    unfold Evaluation.nested
    rw [if_pos hd, if_pos hd']
    generalize m _ = r at hends ⊢
    generalize m' _ = r' at hends ⊢
    cases hends with
    | ok state => exact .ok ⟨state.environment, state.printer, congrArg (· - 1) state.depth⟩
    | error state => exact .error ⟨state.environment, state.printer, congrArg (· - 1) state.depth⟩
    | stopped code onward =>
      cases r' with
      | ok a s₁ => exact .stopped code ⟨onward.printed, onward.kept⟩
      | error e s₁ => exact .stopped code ⟨onward.printed, onward.kept⟩
  · rw [nested_full (Nat.le_of_not_lt hd)]
    rcases A.same_limit with rfl | hstop
    · rw [nested_full (by omega)]
      exact .error hs
    · exact .stopped hstop.symm (hs.onward.trans (honward s'))

end Leads

section Steps

variable {eval eval' : Term → Evaluation Value} (he : ∀ t, A.Leads (eval t) (eval' t))

include he

theorem evalAll_leads (ts : List Term) : A.Leads (evalAll eval ts) (evalAll eval' ts) := by
  induction ts with
  | nil => exact .pure []
  | cons t rest ih => exact .bind (he t) fun v => .bind ih fun vs => .pure (v :: vs)

theorem call_leads (f : Function) (arguments : List Term) (l : Location) :
    A.Leads (call eval f arguments l) (call eval' f arguments l) := by
  unfold call
  split
  · exact .bind (evalAll_leads he arguments) fun values => .inFork _ (he f.body)
  · exact .fail _ _

theorem callTerm_leads (callee : Term) (arguments : List Term) (l : Location) :
    A.Leads (callTerm eval callee arguments l) (callTerm eval' callee arguments l) := by
  cases callee with
  | var name place =>
    refine .lookup name place rfl fun binding => ?_
    split
    · exact call_leads he _ arguments l
    · exact .fail _ _
    · exact .fail _ _
  | function parameters body place => exact call_leads he _ arguments l
  | _ => exact .pure _

theorem project_leads (half : Half) (operand : Term) :
    A.Leads (project eval half operand) (project eval' half operand) := by
  unfold project
  split
  · refine .bind (he operand) fun v => ?_
    cases v with
    | tuple a b => cases half <;> exact .pure _
    | _ => exact .fail _ _
  · exact .fail _ _

theorem evalVar_leads (name : String) (l : Location) : A.Leads (evalVar eval name l) (evalVar eval' name l) := by
  refine .lookup name l rfl fun binding => ?_
  split
  · exact .pure _
  · exact he _
  · exact .fail _ _

theorem evalBinding_leads (value : Term) : A.Leads (evalBinding eval value) (evalBinding eval' value) := by
  cases value with
  | function parameters body place => exact .pure _
  | _ => exact .bind (he _) fun v => .pure _

theorem step_leads (t : Term) : A.Leads (step eval t) (step eval' t) := by
  cases t with
  | int n l => exact .pure _
  | str s l => exact .pure _
  | bool b l => exact .pure _
  | var name l => exact evalVar_leads he name l
  | function parameters body l => exact he body
  | call callee arguments l => exact callTerm_leads he callee arguments l
  | letIn name value next l =>
    exact .bind (evalBinding_leads he value) fun binding => .bind (.define _ _) fun _ => he next
  | cond condition whenTrue whenFalse l =>
    refine .bind (he condition) fun v => ?_
    split
    · exact he whenTrue
    · exact he whenFalse
    · exact .fail _ _
  | binary operator left right l =>
    refine .bind (he left) fun a => .bind (he right) fun b => ?_
    cases operator.operate a b with
    | ok v => exact .pure v
    | error cause => exact .fail cause l
  | tuple left right l => exact .bind (he left) fun a => .bind (he right) fun b => .pure _
  | first operand l => exact project_leads he .first operand
  | second operand l => exact project_leads he .second operand
  | print operand l => exact .bind (he operand) fun v => .bind (.println _) fun _ => .pure v

end Steps

def even (limit : Nat) : Advantage limit limit where
  environment := Eq
  stop := .stackDepthExceeded
  lookup _ h := .inl (h ▸ rfl)
  bind _ _ h := h ▸ rfl
  limit_le := Nat.le_refl limit
  same_limit := .inl rfl

theorem evalWithin_onward (limit room : Nat) (t : Term) (s : State) :
    Onward s (lastState (evalWithin limit room t s)) := by
  have hleads : (even limit).Leads (evalWithin limit room t) (evalWithin limit room t) := by
    induction room generalizing t with
    | zero => exact .fail _ _
    | succ room ih => exact .nested t.location (step_leads ih t)
  exact hleads.onward s

theorem evalWithin_leads {room room' : Nat} (hle : room ≤ room') (hsame : limit = limit' → room = room') (t : Term) :
    A.Leads (evalWithin limit room t) (evalWithin limit' room' t) := by
  -- What is left of the limit in the first run bounds the recursion; the second has at least as much left.
  induction room generalizing room' t with
  | zero =>
    rcases A.same_limit with rfl | hstop
    · obtain rfl := hsame rfl
      exact .fail _ _
    · have honward := evalWithin_onward limit' room' t
      exact ⟨fun s s' hs => .stopped hstop.symm (hs.onward.trans (honward s')), honward⟩
  | succ room ih =>
    obtain ⟨rest, rfl⟩ : ∃ rest, room' = rest + 1 := ⟨room' - 1, by omega⟩
    have hrest : limit = limit' → room = rest := fun h => Nat.succ.inj (hsame h)
    exact .nested t.location (step_leads (ih (by omega) hrest) t)

theorem eval_ends (A : Advantage limit limit') (t : Term) {s s' : State} (hs : A.Abreast s s') :
    A.Ends (eval limit t s) (eval limit' t s') := by
  have hle : limit - s.depth ≤ limit' - s'.depth := by
    have hlimit := A.limit_le
    have hdepth := hs.depth
    omega
  have hsame : limit = limit' → limit - s.depth = limit' - s'.depth := by
    rintro rfl
    rw [hs.depth]
  exact (evalWithin_leads hle hsame t).ends s s' hs

/-- Unless the first evaluation stops, the second ends alike. In any case what it captures begins with what the first
captured, and no name is missing that the first leaves bound. -/
theorem evaluate_ahead (A : Advantage limit limit') (printer : Printer) (depth : Nat) (t : Term) {env env' : Environment}
    (henv : A.environment env env') :
    let first := (⟨limit, printer, depth⟩ : Evaluator).evaluate t env
    let second := (⟨limit', printer, depth⟩ : Evaluator).evaluate t env'
    (¬ FailsWith A.stop first.1 →
      second.1 = first.1 ∧ A.environment first.2.1 second.2.1 ∧ second.2.2.printer = first.2.2.printer) ∧
    (∃ rest, second.2.2.printer.output = first.2.2.printer.output ++ rest) ∧
    ∀ x, first.2.1.contains x = true → second.2.1.contains x = true := by
  have hstart : A.Abreast ⟨env, printer, depth⟩ ⟨env', printer, depth⟩ := ⟨henv, rfl, rfl⟩
  have hends := A.eval_ends t hstart
  unfold Evaluator.evaluate
  generalize eval limit t _ = r at hends ⊢
  generalize eval limit' t _ = r' at hends ⊢
  cases hends with
  | ok state => exact ⟨fun _ => ⟨rfl, state.environment, state.printer⟩, state.onward.output, state.onward.kept⟩
  | error state => exact ⟨fun _ => ⟨rfl, state.environment, state.printer⟩, state.onward.output, state.onward.kept⟩
  | @stopped err _ _ code onward =>
    have hfails : FailsWith A.stop (.error err) := ⟨err, rfl, code⟩
    cases r' with
    | ok v s' => exact ⟨fun h => absurd hfails h, onward.output, onward.kept⟩
    | error err' s' => exact ⟨fun h => absurd hfails h, onward.output, onward.kept⟩

end Advantage

def raisedLimit {limit limit' : Nat} (h : limit ≤ limit') : Advantage limit limit' where
  environment := Eq
  stop := .stackDepthExceeded
  lookup _ henv := .inl (henv ▸ rfl)
  bind _ _ henv := henv ▸ rfl
  limit_le := h
  same_limit := .inr rfl

end Evaluation

namespace Environment

def IncludedIn (env env' : Environment) : Prop := ∀ x b, env.lookup x = some b → env'.lookup x = some b

theorem IncludedIn.bind {env env' : Environment} (h : env.IncludedIn env') (x : String) (b : Binding) :
    (env.bind x b).IncludedIn (env'.bind x b) := by
  intro y c hy
  rw [lookup_bind] at hy ⊢
  split
  · rename_i hxy
    rw [if_pos hxy] at hy
    exact hy
  · rename_i hxy
    rw [if_neg hxy] at hy
    exact h y c hy

theorem includedIn_bind {env : Environment} {x : String} (hfree : env.lookup x = none) (b : Binding) :
    env.IncludedIn (env.bind x b) := by
  intro y c hy
  have hne : x ≠ y := by
    rintro rfl
    rw [hfree] at hy
    cases hy
  rw [lookup_bind, if_neg hne]
  exact hy

end Environment

/-- Further names, and everything else the same. -/
def Evaluation.furtherNames (limit : Nat) : Advantage limit limit where
  environment := Environment.IncludedIn
  stop := .unboundVariable
  lookup {env env'} x henv := by
    cases hx : env.lookup x with
    | none => exact .inr ⟨rfl, rfl⟩
    | some b => exact .inl (henv x b hx)
  bind x b henv := henv.bind x b
  limit_le := Nat.le_refl limit
  same_limit := .inl rfl

namespace Evaluator

open Evaluation

/-- An evaluation that does not run out of depth is the same under any higher limit. One that does has captured the
beginning of what is captured under the higher limit, and has bound no name that stays free there. -/
theorem evaluate_raised_limit (limit limit' : Nat) (hle : limit ≤ limit') (printer : Printer) (depth : Nat) (t : Term)
    (env : Environment) :
    let low := (⟨limit, printer, depth⟩ : Evaluator).evaluate t env
    let high := (⟨limit', printer, depth⟩ : Evaluator).evaluate t env
    (¬ FailsWith .stackDepthExceeded low.1 →
      high.1 = low.1 ∧ high.2.1 = low.2.1 ∧ high.2.2.printer = low.2.2.printer) ∧
    (FailsWith .stackDepthExceeded low.1 →
      (∃ rest, high.2.2.printer.output = low.2.2.printer.output ++ rest) ∧
      ∀ x, low.2.1.contains x = true → high.2.1.contains x = true) := by
  intro low high
  have henv : (raisedLimit hle).environment env env := rfl
  obtain ⟨hsame, hahead⟩ := (raisedLimit hle).evaluate_ahead printer depth t henv
  refine ⟨fun hlow => ?_, fun _ => hahead⟩
  obtain ⟨hresult, hleft, hprinter⟩ := hsame hlow
  exact ⟨hresult, hleft.symm, hprinter⟩

/-- With three nested nodes the first line is printed and the name bound before the pair is refused; four are enough. -/
theorem evaluate_raised_limit_of_pair :
    let l := Location.unknown
    let pair := Term.tuple (.bool true l) (.str "b" l) l
    let t := Term.letIn ⟨"x", l⟩ (.print (.str "a" l) l) (.print pair l) l
    let run (limit : Nat) := (⟨limit, .fresh, 0⟩ : Evaluator).evaluate t .empty
    FailsWith .stackDepthExceeded (run 3).1 ∧ (run 3).2.2.printer.output = "a\n" ∧
      (∃ rest, (run 9).2.2.printer.output = (run 3).2.2.printer.output ++ rest) ∧ (run 9).2.1.contains "x" = true ∧
      (run 9).1 = .ok (.tuple (.bool true) (.str "b")) := by
  intro l pair t run
  have hfails : FailsWith .stackDepthExceeded (run 3).1 := ⟨⟨.depthExceeded 3, l⟩, rfl, rfl⟩
  have hfour : (run 4).1 = .ok (.tuple (.bool true) (.str "b")) := rfl
  have hends : ¬ FailsWith .stackDepthExceeded (run 4).1 := by
    rw [hfour]
    rintro ⟨err, herr, -⟩
    cases herr
  have hthree := evaluate_raised_limit 3 9 (by decide) .fresh 0 t .empty
  have hlarger := evaluate_raised_limit 4 9 (by decide) .fresh 0 t .empty
  obtain ⟨hrest, hkept⟩ := hthree.2 hfails
  obtain ⟨hresult, -, -⟩ := hlarger.1 hends
  exact ⟨hfails, rfl, hrest, hkept "x" rfl, hresult.trans hfour⟩

/-- An evaluation that meets no free name is the same where further names are bound, and what it leaves bound is bound
alike there. One that meets a free name has captured the beginning of what is captured there. -/
theorem evaluate_further_names (e : Evaluator) (t : Term) (env env' : Environment) (h : env.IncludedIn env') :
    let small := e.evaluate t env
    let large := e.evaluate t env'
    (¬ FailsWith .unboundVariable small.1 →
      large.1 = small.1 ∧ large.2.2.printer = small.2.2.printer ∧ small.2.1.IncludedIn large.2.1) ∧
    (FailsWith .unboundVariable small.1 → ∃ rest, large.2.2.printer.output = small.2.2.printer.output ++ rest) := by
  intro small large
  obtain ⟨hsame, houtput, -⟩ := (furtherNames e.limit).evaluate_ahead e.printer e.depth t h
  refine ⟨fun hsmall => ?_, fun _ => houtput⟩
  obtain ⟨hresult, henv, hprinter⟩ := hsame hsmall
  exact ⟨hresult, hprinter, henv⟩

/-- The body of `f` prints a line and reads a name of whoever runs it. Without that name its run ends there; a term that
does not need the name runs alike. -/
theorem evaluate_further_names_of_caller :
    let l := Location.unknown
    let body := Term.letIn ⟨"z", l⟩ (.print (.str "a" l) l) (.print (.var "y" l) l) l
    let env := Environment.empty.bind "f" (.function ⟨[], body⟩)
    let env' := env.bind "y" (.value (.int 5))
    let spares := Term.letIn ⟨"x", l⟩ (.int 7 l) (.call (.var "x" l) [] l) l
    let run (t : Term) (env : Environment) := (buffered 9).evaluate t env
    env.IncludedIn env' ∧ FailsWith .unboundVariable (run (.var "f" l) env).1 ∧
      (run (.var "f" l) env).2.2.printer.output = "a\n" ∧
      (∃ rest, (run (.var "f" l) env').2.2.printer.output = (run (.var "f" l) env).2.2.printer.output ++ rest) ∧
      (run spares env').1 = .error ⟨.typeMismatch (.callee "x" .int), l⟩ ∧
      (run spares env').2.1.lookup "x" = some (.value (.int 7)) := by
  intro l body env env' spares run
  have hincluded : env.IncludedIn env' := Environment.includedIn_bind (by decide) _
  have hfails : FailsWith .unboundVariable (run (.var "f" l) env).1 := ⟨⟨.unboundVariable "y", l⟩, rfl, rfl⟩
  have hspares : (run spares env).1 = .error ⟨.typeMismatch (.callee "x" .int), l⟩ := rfl
  have hends : ¬ FailsWith .unboundVariable (run spares env).1 := by
    rw [hspares]
    rintro ⟨err, herr, hcode⟩
    cases herr
    cases hcode
  have hoverlap := evaluate_further_names (buffered 9) (.var "f" l) env env' hincluded
  have halike := evaluate_further_names (buffered 9) spares env env' hincluded
  obtain ⟨hresult, -, hleft⟩ := halike.1 hends
  exact ⟨hincluded, hfails, rfl, hoverlap.2 hfails, hresult.trans hspares, hleft "x" _ rfl⟩

end Evaluator

end Treewalk

import Treewalk.Proofs.Origins

/-! What a report of a mismatch says to have expected and found.

A condition and the operand of a half are refused after a look at the value itself, so that what they find is never what
they expect. A call looks at the binding of its name instead, and refuses all values: among them are functions, which
calls of anything but names and literals hand back. Such a call, and nothing else, finds what it expects. -/
namespace Treewalk

theorem Value.Kind.name_inj {k k' : Kind} : k.name = k'.name ↔ k = k' := by
  cases k <;> cases k' <;> decide

namespace Evaluation

namespace Mismatch

/-- The kind of value that is expected, where the report speaks of one. -/
def expected? : Mismatch → Option Value.Kind
  | operands _ _ _ => none
  | condition _ => some .bool
  | callee _ _ => some .function
  | operandTerm _ _ => none
  | operandValue _ _ => some .tuple

theorem context_eq_of_expected? {m : Mismatch} {k : Value.Kind} (h : m.expected? = some k) :
    ∃ place, m.context = place ++ " (expected " ++ k.name ++ ")" := by
  cases m with
  | operands operator a b => cases h
  | condition found =>
    cases h
    exact ⟨"`if` condition", rfl⟩
  | callee name found =>
    cases h
    exact ⟨"call of `" ++ name ++ "`", by simp [context, Value.Kind.name, String.append_assoc]⟩
  | operandTerm half found => cases h
  | operandValue half found =>
    cases h
    exact ⟨"`" ++ half.name ++ "`", by simp [context, Value.Kind.name, String.append_assoc]⟩

/-- The report says to have found the kind that it says to have expected. -/
def FindsExpected (m : Mismatch) : Prop := ∃ k, m.expected? = some k ∧ m.found = k.name

/-- In such a report the same word stands at both places. -/
theorem FindsExpected.message {m : Mismatch} (h : m.FindsExpected) :
    ∃ place k, (Cause.typeMismatch m).message =
      "type mismatch in " ++ (place ++ " (expected " ++ Value.Kind.name k ++ ")") ++ ": found " ++ k.name := by
  obtain ⟨k, hexpected, hfound⟩ := h
  obtain ⟨place, hcontext⟩ := context_eq_of_expected? hexpected
  have hmessage : (Cause.typeMismatch m).message = "type mismatch in " ++ m.context ++ ": found " ++ m.found := rfl
  exact ⟨place, k, by rw [hmessage, hcontext, hfound]⟩

@[simp] theorem findsExpected_condition (k : Value.Kind) : (condition k).FindsExpected ↔ k = .bool := by
  simp [FindsExpected, expected?, found, Value.Kind.name_inj]

@[simp] theorem findsExpected_callee (name : String) (k : Value.Kind) :
    (callee name k).FindsExpected ↔ k = .function := by
  simp [FindsExpected, expected?, found, Value.Kind.name_inj]

@[simp] theorem findsExpected_operandValue (half : Half) (k : Value.Kind) :
    (operandValue half k).FindsExpected ↔ k = .tuple := by
  simp [FindsExpected, expected?, found, Value.Kind.name_inj]

@[simp] theorem not_findsExpected_operands (operator : Operator) (a b : Value.Kind) :
    ¬ (operands operator a b).FindsExpected := by
  simp [FindsExpected, expected?]

@[simp] theorem not_findsExpected_operandTerm (half : Half) (k : Term.Kind) :
    ¬ (operandTerm half k).FindsExpected := by
  simp [FindsExpected, expected?]

end Mismatch

/-- The one node that finds what it expects is the call of a name that is bound to a function as a value. -/
theorem Raises.findsExpected {limit d : Nat} {env : Environment} {t : Term} {e : EvalError}
    (hraises : Raises limit d env t e) {m : Mismatch} (hcause : e.cause = .typeMismatch m) (h : m.FindsExpected) :
    ∃ name f, m = .callee name .function ∧ env.lookup name = some (.value (.function f)) := by
  cases hraises with
  | @calleeValue name _ _ _ v bound =>
    cases hcause
    have hkind : v.kind = .function := by simpa using h
    cases v with
    | function f => exact ⟨name, f, rfl, bound⟩
    | _ => cases hkind
  | condition notBool =>
    cases hcause
    exact absurd (by simpa using h) notBool
  | operandValue asks notPair =>
    cases hcause
    exact absurd (by simpa using h) notPair
  | operandTerm asks refused =>
    cases hcause
    simp at h
  | operation failed =>
    rcases Operator.operate_error failed with rfl | rfl
    · cases hcause
    · cases hcause
      simp at h
  | _ => cases hcause

/-- Runs whose values carry functions of some origin, with an eye on mismatches that find what they expect. -/
def expecting {reach : Term → Prop} {origin : Function → Prop} (limit : Nat)
    (horigin : ∀ f, HandedBack reach f → origin f) : Invariant limit Unit :=
  { tracing limit horigin with
    error := fun e => ∀ m, e.cause = .typeMismatch m → m.FindsExpected →
      ∃ name f, m = .callee name .function ∧ origin f
    raised := by
      intro k d env t e hadmits hraises m hcause hm
      obtain ⟨name, f, rfl, hbound⟩ := hraises.findsExpected hcause hm
      exact ⟨name, f, rfl, hadmits.1.carried f ⟨name, _, hbound, List.mem_cons_self⟩⟩ }

end Evaluation

namespace Evaluator

open Evaluation

/-- A mismatch says to have found what it says to have expected if and only if it is about a call that meets a function,
and the function is then one that the environment carried as a value before, or that some call in reach hands back. So
conditions and halves never find what they expect, nor do calls where no function is a value. The message of such a
mismatch names one kind twice. -/
theorem findsExpected_iff_callee_function (e : Evaluator) (t : Term) (env : Environment) (m : Mismatch) (l : Location)
    (h : (e.evaluate t env).1 = .error ⟨.typeMismatch m, l⟩) :
    (m.FindsExpected ↔ ∃ name, m = .callee name .function) ∧
    (m.FindsExpected → ∃ f, env.Carries f ∨ HandedBack (InReach env t) f) ∧
    (m.FindsExpected → ∃ place k, (Cause.typeMismatch m).message =
      "type mismatch in " ++ (place ++ " (expected " ++ Value.Kind.name k ++ ")") ++ ": found " ++ k.name) := by
  obtain ⟨htraced, hterm⟩ := traced_inReach env t
  obtain ⟨-, -, herror⟩ := (expecting e.limit fun _ => .inr).evaluate_upholds (k := ()) ⟨htraced, hterm⟩
  have hcallee := herror _ h m rfl
  refine ⟨⟨fun hm => ?_, ?_⟩, fun hm => ?_, Mismatch.FindsExpected.message⟩
  · obtain ⟨name, -, hname, -⟩ := hcallee hm
    exact ⟨name, hname⟩
  · rintro ⟨name, rfl⟩
    simp
  · obtain ⟨-, f, -, hf⟩ := hcallee hm
    exact ⟨f, hf⟩

/-- A condition meets the function that a call hands back, and a call meets one that the environment carries. -/
theorem findsExpected_iff_callee_function_of_values :
    let l := Location.unknown
    let handed := Term.call (.int 1 l) [] l
    let conditional := Term.cond handed handed handed l
    let env := Environment.empty.bind "old" (.value (.function ⟨[⟨"m", l⟩], .var "m" l⟩))
    let called := Term.call (.var "old" l) [.int 2 l] l
    let e := buffered 5
    (e.evaluate conditional .empty).1 = .error ⟨.typeMismatch (.condition .function), l⟩ ∧
      ¬ (Mismatch.condition .function).FindsExpected ∧
      (e.evaluate called env).1 = .error ⟨.typeMismatch (.callee "old" .function), l⟩ ∧
      (Mismatch.callee "old" .function).FindsExpected ∧ ∃ f, env.Carries f ∨ HandedBack (InReach env called) f := by
  intro l handed conditional env called e
  have hcondition : (e.evaluate conditional .empty).1 = .error ⟨.typeMismatch (.condition .function), l⟩ := rfl
  have hcall : (e.evaluate called env).1 = .error ⟨.typeMismatch (.callee "old" .function), l⟩ := rfl
  obtain ⟨hnever, -⟩ := findsExpected_iff_callee_function e conditional .empty _ l hcondition
  obtain ⟨hiff, hcarried, -⟩ := findsExpected_iff_callee_function e called env _ l hcall
  have hfinds := hiff.2 ⟨"old", rfl⟩
  refine ⟨hcondition, fun hm => ?_, hcall, hfinds, hcarried hfinds⟩
  obtain ⟨name, hname⟩ := hnever.1 hm
  cases hname

/-- A program of its own can do so: it gives a name to what the call of an integer hands back, and calls the name. -/
theorem findsExpected_of_handedBack :
    let l := Location.unknown
    let p : Program := ⟨"", .letIn ⟨"x", l⟩ (.call (.int 1 l) [] l) (.call (.var "x" l) [] l) l, l⟩
    let m := Mismatch.callee "x" .function
    ((buffered 10).run p).1 = .error ⟨.typeMismatch m, l⟩ ∧ m.expected? = some .function ∧
      m.found = Value.Kind.name .function ∧
      (Cause.typeMismatch m).message = "type mismatch in call of `x` (expected Function): found Function" :=
  ⟨rfl, rfl, rfl, rfl⟩

end Evaluator

end Treewalk

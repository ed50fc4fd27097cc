import Treewalk.Command.Outcome
import Treewalk.Proofs.DocumentText
import Treewalk.Proofs.Sessions

/-! What the three commands have in common and what the options change.

A document that cannot be read or decoded is refused in the same way by all commands. Once it is decoded, `conclude` is
what the verb does with the program, behind the message about the decoding. A run goes to the terminal, where a program
ends as it does with a buffer and writes what the buffer would keep. The options for reports have no part in what a
command prints to its output or in how it ends.

The lines for the standard error are written out here once more, character by character. -/
namespace Treewalk.Command

/-- The file can be read, and its bytes decode to the program. -/
def FileSystem.Holds (files : FileSystem) (file : String) (p : Program) : Prop :=
  ∃ bytes, files file = .ok bytes ∧ Program.parse bytes = .ok p

theorem FileSystem.Holds.unique {files : FileSystem} {file : String} {p q : Program} (hp : files.Holds file p)
    (hq : files.Holds file q) : p = q := by
  obtain ⟨bytes, hread, hparse⟩ := hp
  obtain ⟨bytes', hread', hparse'⟩ := hq
  rw [hread] at hread'
  cases hread'
  rw [hparse] at hparse'
  exact Except.ok.inj hparse'

/-- The line that sums up a failure. -/
def Failure.line (failure : Failure) : String :=
  "\x1b[31merror:\x1b[0m " ++
    (match failure with
      | unreadable file reason => "cannot read file '" ++ file ++ "': " ++ reason.text
      | decode => "decode error"
      | evaluation => "evaluation error") ++ "\n"

/-- What a failure says of the file is so. -/
def Failure.Befalls (files : FileSystem) (file : String) : Failure → Prop
  | unreadable name reason => name = file ∧ files file = .error reason
  | decode => ∃ bytes e, files file = .ok bytes ∧ Program.parse bytes = .error e
  | evaluation => ∃ p, files.Holds file p

variable {files : FileSystem} {file : String} {p : Program}

theorem conclude_of_holds (h : files.Holds file p) (verb : Verb) (o : Options) :
    conclude ⟨verb, file, o⟩ (files file) =
      { perform ⟨verb, file, o⟩ p with
        notices := decodedNotice ⟨verb, file, o⟩ p ++ (perform ⟨verb, file, o⟩ p).notices } := by
  obtain ⟨bytes, hread, hparse⟩ := h
  simp only [conclude, hread, hparse]

theorem conclude_of_refused (h : ¬ ∃ p, files.Holds file p) :
    ∃ diagnostic failure, failure.Befalls files file ∧
      ∀ verb o, conclude ⟨verb, file, o⟩ (files file) = ⟨"", [], diagnostic, some failure⟩ := by
  cases hread : files file with
  | error reason => exact ⟨none, .unreadable file reason, ⟨rfl, hread⟩, fun _ _ => rfl⟩
  | ok bytes =>
    cases hparse : Program.parse bytes with
    | error e =>
      refine ⟨some e.diagnostic, .decode, ⟨bytes, e, hread, hparse⟩, fun verb o => ?_⟩
      simp only [conclude, hparse]
    | ok p => exact absurd ⟨p, bytes, hread, hparse⟩ h

/-! ### How a command ends -/

/-- A run ends as it does with a buffer, and prints what the buffer captures. -/
theorem perform_run (o : Options) (p : Program) :
    let run := (Evaluator.buffered o.maxDepth).run p
    perform ⟨.run, file, o⟩ p =
      match run.1 with
      | .ok _ => ⟨run.2.printer.output, [], none, none⟩
      | .error e => ⟨run.2.printer.output, [], some e.diagnostic, some .evaluation⟩ := by
  intro run
  obtain ⟨hresult, hwritten⟩ := Evaluator.run_onTerminal o.maxDepth p
  rw [← hresult, ← hwritten, perform]
  obtain ⟨result, evaluator⟩ := (Evaluator.onTerminal o.maxDepth).run p
  cases result with
  | ok v => rfl
  | error e => rfl

/-- Checking and dumping cannot fail any more; running fails with the evaluation. -/
theorem perform_failure (verb : Verb) (o : Options) (p : Program) :
    (perform ⟨verb, file, o⟩ p).failure = none ↔
      (verb = .run → ∃ v, ((Evaluator.buffered o.maxDepth).run p).1 = .ok v) := by
  cases verb with
  | run =>
    rw [perform_run]
    cases ((Evaluator.buffered o.maxDepth).run p).1 with
    | ok v => simp
    | error e => simp
  | check => simp [perform]
  | dump => simp [perform]

theorem status_eq_zero_iff_failure (invocation : Invocation) :
    (invocation.execute files).status = 0 ↔ (conclude invocation (files invocation.file)).failure = none := by
  simp only [Invocation.execute, Conclusion.outcome]
  cases (conclude invocation (files invocation.file)).failure with
  | none => simp
  | some failure => simp

theorem status_eq_zero_iff (verb : Verb) (o : Options) :
    (Invocation.execute ⟨verb, file, o⟩ files).status = 0 ↔
      ∃ p, files.Holds file p ∧ (verb = .run → ∃ v, ((Evaluator.buffered o.maxDepth).run p).1 = .ok v) := by
  rw [status_eq_zero_iff_failure]
  constructor
  · intro h
    by_cases hholds : ∃ p, files.Holds file p
    · obtain ⟨p, hp⟩ := hholds
      rw [conclude_of_holds hp] at h
      exact ⟨p, hp, (perform_failure verb o p).1 h⟩
    · obtain ⟨diagnostic, failure, -, hrefused⟩ := conclude_of_refused hholds
      rw [hrefused] at h
      cases h
  · rintro ⟨p, hp, hends⟩
    rw [conclude_of_holds hp]
    exact (perform_failure verb o p).2 hends

theorem output_of_holds (h : files.Holds file p) (verb : Verb) (o : Options) :
    (Invocation.execute ⟨verb, file, o⟩ files).output = (perform ⟨verb, file, o⟩ p).output := by
  simp only [Invocation.execute, Conclusion.outcome, conclude_of_holds h]

end Treewalk.Command

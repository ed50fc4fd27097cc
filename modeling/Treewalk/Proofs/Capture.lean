import Mathlib.Data.List.DropRight
import Treewalk.Proofs.Runs

/-! What a buffer captures.

A buffer is written to, looked at and emptied in any order. What has been taken from it, with what is still in it, is
what was printed; and what is in it are the lines since it was emptied, which can be told apart again unless one of them
contains a line feed or ends in a carriage return. -/
namespace Treewalk

namespace Text

theorem linesFrom_append {line : List Char} (h : '\n' ∉ line) (current rest : List Char) :
    linesFrom current (line ++ '\n' :: rest) = (dropReturn (line.reverse ++ current)).reverse :: linesFrom [] rest := by
  induction line generalizing current with
  | nil => simp [linesFrom]
  | cons c line ih =>
    have hc : c ≠ '\n' := fun e => h (e ▸ List.mem_cons_self)
    have hline : '\n' ∉ line := fun hmem => h (List.mem_cons_of_mem c hmem)
    simp [linesFrom, hc, ih hline]

theorem dropReturn_reverse {line : List Char} (h : line.getLast? ≠ some '\r') :
    dropReturn line.reverse = line.reverse := by
  cases hline : line.reverse with
  | nil => rfl
  | cons c rest =>
    have hc : c ≠ '\r' := by
      rintro rfl
      exact h (by rw [← List.head?_reverse, hline, List.head?_cons])
    simp [dropReturn, hc]

/-- The text is one line, and its end would not be taken for more than its line feed. -/
def IsLine (line : String) : Prop := '\n' ∉ line.toList ∧ line.toList.getLast? ≠ some '\r'

instance (line : String) : Decidable (IsLine line) := inferInstanceAs (Decidable (_ ∧ _))

theorem linesFrom_flatMap {lines : List String} (h : ∀ line ∈ lines, IsLine line) :
    linesFrom [] (lines.flatMap fun line => line.toList ++ ['\n']) = lines.map String.toList := by
  induction lines with
  | nil => rfl
  | cons line rest ih =>
    obtain ⟨hline, hrest⟩ := List.forall_mem_cons.1 h
    rw [List.flatMap_cons, List.append_assoc, List.singleton_append, linesFrom_append hline.1, List.append_nil,
      dropReturn_reverse hline.2, List.reverse_reverse, ih hrest, List.map_cons]

/-- Lines that are put together with line feeds come apart again, empty ones too. -/
theorem lines_linesText {ls : List String} (h : ∀ line ∈ ls, IsLine line) : lines (Printer.linesText ls) = ls := by
  have htext : (Printer.linesText ls).toList = ls.flatMap fun line => line.toList ++ ['\n'] := by
    simp [Printer.linesText, String.toList_join, List.flatMap_map]
  simp [lines, htext, linesFrom_flatMap h]

end Text

namespace Printer

inductive Call where
  | println (line : String)
  | output
  | lines
  | take
deriving DecidableEq

inductive Answer where
  | done
  | output (text : String)
  | lines (lines : List String)
  | taken (text : String)

def Call.printed? : Call → Option String
  | println line => some line
  | _ => none

def Answer.taken? : Answer → Option String
  | taken text => some text
  | _ => none

def answer (p : Printer) : Call → Answer × Printer
  | .println line => (.done, p.println line)
  | .output => (.output p.output, p)
  | .lines => (.lines p.lines, p)
  | .take => (.taken p.take.1, p.take.2)

def answerAll (p : Printer) : List Call → List Answer × Printer
  | [] => ([], p)
  | call :: rest =>
      let (a, p') := p.answer call
      let (answers, p'') := p'.answerAll rest
      (a :: answers, p'')

def printed (calls : List Call) : List String := calls.filterMap Call.printed?

/-- The calls behind the last that empties the printer. -/
def sinceTake (calls : List Call) : List Call := calls.rtakeWhile (· ≠ .take)

def taken (answers : List Answer) : List String := answers.filterMap Answer.taken?

theorem printed_append (xs ys : List Call) : printed (xs ++ ys) = printed xs ++ printed ys := List.filterMap_append

theorem taken_append (xs ys : List Answer) : taken (xs ++ ys) = taken xs ++ taken ys := List.filterMap_append

theorem linesText_append (xs ys : List String) : linesText (xs ++ ys) = linesText xs ++ linesText ys := by
  simp [linesText]

theorem sinceTake_concat (calls : List Call) (call : Call) :
    sinceTake (calls ++ [call]) = if call = .take then [] else sinceTake calls ++ [call] := by
  by_cases h : call = .take <;> simp [sinceTake, h]

/-- Unless a call empties it, a buffer keeps what it has and adds what the call prints. -/
theorem answer_of_ne_take {call : Call} (h : call ≠ .take) (text : String) :
    ∃ a, (buffer text).answer call = (a, buffer (text ++ linesText (printed [call]))) ∧ taken [a] = [] := by
  have hkept : buffer text = buffer (text ++ linesText []) := printAll_buffer text []
  cases call with
  | println line =>
    have hadded : (buffer text).println line = buffer (text ++ linesText [line]) := printAll_buffer text [line]
    exact ⟨.done, congrArg (Prod.mk _) hadded, rfl⟩
  | output => exact ⟨.output text, congrArg (Prod.mk _) hkept, rfl⟩
  | lines => exact ⟨.lines (Text.lines text), congrArg (Prod.mk _) hkept, rfl⟩
  | take => exact absurd rfl h

/-- What a call takes from a buffer and leaves in it is what was in it with what the call prints. -/
theorem answer_buffer (text : String) (call : Call) :
    ∃ a left, (buffer text).answer call = (a, buffer left) ∧
      String.join (taken [a]) ++ left = text ++ linesText (printed [call]) := by
  by_cases h : call = .take
  · subst h
    refine ⟨.taken text, "", rfl, ?_⟩
    change String.join [text] ++ "" = text ++ ""
    simp
  · obtain ⟨a, hanswer, htaken⟩ := answer_of_ne_take h text
    refine ⟨a, _, hanswer, ?_⟩
    rw [htaken, String.join_nil, String.empty_append]

theorem answerAll_buffer (text : String) (calls : List Call) :
    String.join (taken ((buffer text).answerAll calls).1) ++ ((buffer text).answerAll calls).2.output =
      text ++ linesText (printed calls) := by
  induction calls generalizing text with
  | nil =>
    change "" ++ text = text ++ ""
    simp
  | cons call rest ih =>
    obtain ⟨a, left, hanswer, hkept⟩ := answer_buffer text call
    have hrun : (buffer text).answerAll (call :: rest) =
        ([a] ++ ((buffer left).answerAll rest).1, ((buffer left).answerAll rest).2) := by
      simp only [answerAll, hanswer, List.singleton_append]
    have hcalls : printed (call :: rest) = printed [call] ++ printed rest := printed_append [call] rest
    calc String.join (taken ((buffer text).answerAll (call :: rest)).1) ++
          ((buffer text).answerAll (call :: rest)).2.output
        = String.join (taken [a]) ++ (String.join (taken ((buffer left).answerAll rest).1) ++
            ((buffer left).answerAll rest).2.output) := by
          rw [hrun, taken_append, String.join_append, String.append_assoc]
      _ = String.join (taken [a]) ++ left ++ linesText (printed rest) := by rw [ih, String.append_assoc]
      _ = text ++ linesText (printed (call :: rest)) := by
          rw [hkept, hcalls, linesText_append, String.append_assoc]

theorem answerAll_printer (p : Printer) (calls : List Call) :
    (p.answerAll calls).2 = calls.foldl (fun p call => (p.answer call).2) p := by
  induction calls generalizing p with
  | nil => rfl
  | cons call rest ih => exact ih (p.answer call).2

/-- A buffer holds the lines since it was emptied. -/
theorem answerAll_fresh (calls : List Call) :
    (fresh.answerAll calls).2 = buffer (linesText (printed (sinceTake calls))) := by
  rw [answerAll_printer]
  -- From the end, since the last call decides whether anything is held at all.
  induction calls using List.reverseRecOn with
  | nil => rfl
  | append_singleton calls call ih =>
    rw [List.foldl_append, ih, List.foldl_cons, List.foldl_nil, sinceTake_concat]
    by_cases h : call = .take
    · subst h
      rfl
    · obtain ⟨a, hanswer, -⟩ := answer_of_ne_take h (linesText (printed (sinceTake calls)))
      rw [hanswer, if_neg h, printed_append, linesText_append]

/-- Whatever is called on a fresh buffer, the texts taken from it and the text that it holds in the end make up the
lines printed, each with its line feed. If each text printed since it was last emptied is one line, these are the lines
that it shows. -/
theorem captured_exactly (calls : List Call) :
    String.join (taken (fresh.answerAll calls).1) ++ (fresh.answerAll calls).2.output = linesText (printed calls) ∧
    ((∀ line ∈ printed (sinceTake calls), Text.IsLine line) →
      (fresh.answerAll calls).2.lines = printed (sinceTake calls)) := by
  constructor
  · have hall := answerAll_buffer "" calls
    rw [String.empty_append] at hall
    exact hall
  · intro h
    rw [answerAll_fresh]
    exact Text.lines_linesText h

/-- What is printed before the buffer is emptied may be any text. Of what comes later, one line is empty, and one has a
carriage return inside. -/
theorem captured_exactly_of_two_batches :
    let calls := [Call.println "a\nb\r", .lines, .take, .println "", .output, .println "c\rd"]
    (∀ line ∈ printed (sinceTake calls), Text.IsLine line) ∧
      taken (fresh.answerAll calls).1 = ["a\nb\r\n"] ∧ (fresh.answerAll calls).2.output = "\nc\rd\n" ∧
      (fresh.answerAll calls).2.lines = ["", "c\rd"] := by
  intro calls
  have hlines : ∀ line ∈ printed (sinceTake calls), Text.IsLine line := by decide
  exact ⟨hlines, rfl, rfl, (captured_exactly calls).2 hlines⟩

/-- A carriage return at the end of a line is taken for a part of its end. -/
example : (fresh.println "a\r").lines = ["a"] := by decide

end Printer

end Treewalk

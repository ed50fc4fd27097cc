import Treewalk.Diagnostic.Drawn
import Treewalk.Diagnostic.Plain
import Treewalk.Proofs.Blame
import Treewalk.Proofs.DocumentText
import Treewalk.Proofs.Faults

/-! Every report of a run can be drawn.

The decoder puts no location on an error before it has read it and found that it does not run backwards, and it returns
no program with another. The evaluator takes the locations of its errors from the program. So no label of a report is
left out where the report is drawn, and none takes a line of its own where it is plain. -/
namespace Treewalk

/-- No node of a term runs backwards if no location in it does. -/
theorem Term.madeOf_of_ordered {t : Term} (h : t.Ordered) : t.MadeOf fun n => n.location.toSpan.Ordered := by
  induction t using Term.childInduction with
  | step t ih =>
    obtain ⟨hown, -, hchildren⟩ := ordered_iff.1 h
    intro n hn
    rcases mem_subterms.1 hn with rfl | ⟨child, hchild, hn⟩
    · exact hown
    · exact ih child hchild (hchildren child hchild) n hn

theorem Evaluator.ordered_of_run {evaluator : Evaluator} {p : Program} {e : EvalError} (hp : p.Ordered)
    (h : (evaluator.run p).1 = .error e) : e.location.toSpan.Ordered := by
  let fresh : Evaluator := { evaluator with depth := 0 }
  have hempty : Environment.empty.MadeOf fun n => n.location.toSpan.Ordered := by
    intro name f hf
    cases hf
  have hadmits := And.intro hempty (Term.madeOf_of_ordered hp.2)
  obtain ⟨-, -, herror⟩ :=
    (Evaluation.blaming fresh.limit fun n => n.location.toSpan.Ordered).evaluate_upholds (k := ()) hadmits
  obtain ⟨n, hn, hlocation, -⟩ := herror e h
  rw [hlocation]
  exact hn

theorem Program.ordered_of_parse_error {bytes : ByteArray} {e : DecodeError} {l : Location}
    (h : Program.parse bytes = .error e) (hl : e.location = some l) : l.toSpan.Ordered := by
  rcases Document.bind_eq_error.1 h with h | ⟨json, -, h⟩
  · -- Text that is no JSON has no node to point at.
    unfold Document.readJson at h
    cases hread : Json.read bytes with
    | error readError =>
      rw [hread] at h
      cases h
      cases hl
    | ok json =>
      rw [hread] at h
      cases h
  · obtain ⟨w, hw⟩ := Document.pointsAt_program h
    exact hw.ordered hl

namespace Diagnostic

/-- The report is one that running the document makes: it does not decode, or its evaluation fails. -/
inductive ReportedBy (evaluator : Evaluator) (bytes : ByteArray) : Diagnostic → Prop
  | decode {e : DecodeError} (refused : Program.parse bytes = .error e) : ReportedBy evaluator bytes e.diagnostic
  | evaluation {p : Program} {e : EvalError} (parsed : Program.parse bytes = .ok p)
      (failed : (evaluator.run p).1 = .error e) : ReportedBy evaluator bytes e.diagnostic

/-- The report has a location that does not run backwards, or none, and all its labels stand there. -/
structure AtOnePlace (d : Diagnostic) : Prop where
  ordered : ∀ l, d.location = some l → l.toSpan.Ordered
  labels : ∀ label ∈ d.labels, d.location = some label.location

theorem atOnePlace_of_reportedBy {evaluator : Evaluator} {bytes : ByteArray} {d : Diagnostic}
    (h : ReportedBy evaluator bytes d) : d.AtOnePlace := by
  cases h with
  | @decode e refused =>
    constructor
    · intro l hl
      obtain ⟨hlocation, -⟩ := Option.filter_eq_some_iff.1 hl
      exact Program.ordered_of_parse_error refused hlocation
    · intro label hlabel
      obtain ⟨l, hl, rfl⟩ := List.mem_map.1 hlabel
      exact Option.mem_toList.1 hl
  | @evaluation p e parsed failed =>
    constructor
    · intro l hl
      cases hl
      exact Evaluator.ordered_of_run (Program.ordered_of_parse parsed) failed
    · intro label hlabel
      rw [List.mem_singleton.1 hlabel]
      rfl

variable {d : Diagnostic}

theorem AtOnePlace.drawableLabels_eq (h : d.AtOnePlace) : d.drawableLabels = d.labels := by
  apply List.filter_eq_self.2
  intro label hlabel
  exact decide_eq_true (h.ordered _ (h.labels label hlabel))

theorem AtOnePlace.strayLabels_eq (h : d.AtOnePlace) : d.strayLabels = [] := by
  apply List.filter_eq_nil_iff.2
  intro label hlabel
  simp [h.labels label hlabel]

theorem AtOnePlace.plain_eq (h : d.AtOnePlace) : d.plain = { d with labels := [] }.plain := by
  unfold plain
  rw [h.strayLabels_eq]
  rfl

/-- Whatever the document and the limit, a report has no location that runs backwards, and all its labels stand at its
own location. Where it is drawn no label is left out, and where it is plain no label takes a line. -/
theorem report_of_run_at_one_place (evaluator : Evaluator) (bytes : ByteArray) (d : Diagnostic)
    (h : ReportedBy evaluator bytes d) :
    (∀ l, d.location = some l → l.toSpan.Ordered) ∧
    (∀ label ∈ d.labels, label.location.toSpan.Ordered ∧ d.location = some label.location) ∧
    d.drawableLabels = d.labels ∧ d.strayLabels = [] ∧ d.plain = { d with labels := [] }.plain := by
  have hplace := atOnePlace_of_reportedBy h
  refine ⟨hplace.ordered, ?_, hplace.drawableLabels_eq, hplace.strayLabels_eq, hplace.plain_eq⟩
  intro label hlabel
  have hlocation := hplace.labels label hlabel
  exact ⟨hplace.ordered _ hlocation, hlocation⟩

/-- A node of a kind that is not known is reported where it stands, and so is a name that is not bound. -/
theorem report_of_run_at_one_place_of_two_documents :
    let place := "\"location\":\x7b\"start\":3,\"end\":7,\"filename\":\"a\"\x7d"
    let unknown := ("\x7b\"expression\":\x7b\"kind\":\"Loop\"," ++ place ++ "\x7d\x7d").toUTF8
    let refused := DecodeError.diagnostic ⟨[.field "expression"], some ⟨⟨3, 7⟩, "a"⟩, .unknownKind "Loop"⟩
    let p : Program := ⟨"p", .var "x" ⟨⟨3, 7⟩, "a"⟩, .unknown⟩
    let free := (p.toJson.pretty ++ "\n").toUTF8
    let failed := EvalError.diagnostic ⟨.unboundVariable "x", ⟨⟨3, 7⟩, "a"⟩⟩
    (ReportedBy (.buffered 9) unknown refused ∧ refused.labels.length = 1 ∧ refused.drawableLabels = refused.labels ∧
      refused.strayLabels = []) ∧
    (ReportedBy (.buffered 9) free failed ∧ failed.labels.length = 1 ∧ failed.drawableLabels = failed.labels ∧
      failed.strayLabels = []) := by
  intro place unknown refused p free failed
  have hrefused : ReportedBy (.buffered 9) unknown refused := by
    refine .decode (Document.fault?_eq_some.1 ?_)
    decide +kernel
  have hfailed : ReportedBy (.buffered 9) free failed := .evaluation (Program.parse_pretty_line (by decide)) rfl
  obtain ⟨-, -, hdrawn, hplain, -⟩ := report_of_run_at_one_place (.buffered 9) unknown refused hrefused
  obtain ⟨-, -, hdrawn', hplain', -⟩ := report_of_run_at_one_place (.buffered 9) free failed hfailed
  exact ⟨⟨hrefused, rfl, hdrawn, hplain⟩, ⟨hfailed, rfl, hdrawn', hplain'⟩⟩

end Diagnostic

end Treewalk

import Treewalk.Proofs.Commands

/-! What `dump` prints is a normal form of the document: the same program, written in the one way that `dump` writes it.

All that the commands make of a document hangs on the program it decodes to. Fields that the decoder ignores, blanks,
and locations and names that are filled in make documents differ, and `dump` takes these differences away. -/
namespace Treewalk.Command

variable {files files' : FileSystem} {file : String} {p : Program}

theorem conclude_eq_of_holds (h : files.Holds file p) (h' : files'.Holds file p) (verb : Verb) (o : Options) :
    conclude ⟨verb, file, o⟩ (files' file) = conclude ⟨verb, file, o⟩ (files file) := by
  rw [conclude_of_holds h, conclude_of_holds h']

theorem output_dump (h : files.Holds file p) (o : Options) :
    (Invocation.execute ⟨.dump, file, o⟩ files).output = p.toJson.pretty ++ "\n" :=
  output_of_holds h .dump o

theorem holds_dumped (h : files.Holds file p) (hreplaced : files' file = .ok (p.toJson.pretty ++ "\n").toUTF8) :
    files'.Holds file p := by
  obtain ⟨bytes, -, hparse⟩ := h
  have hordered : p.Ordered := Program.ordered_of_parse hparse
  exact ⟨_, hreplaced, Program.parse_pretty_line hordered⟩

/-- Let a file be replaced by what `dump` prints of it, whatever else may change with it. Then `dump` prints the same
again, `check` counts the same nodes, and `run` under any limit prints the same, ends the same way and has the same
report to make. -/
theorem dump_normalizes (files files' : FileSystem) (file : String) (o : Options) (dumped : String)
    (hstatus : (Invocation.execute ⟨.dump, file, o⟩ files).status = 0)
    (hdumped : (Invocation.execute ⟨.dump, file, o⟩ files).output = dumped)
    (hreplaced : files' file = .ok dumped.toUTF8) :
    (∀ o, (Invocation.execute ⟨.dump, file, o⟩ files').status = 0 ∧
      (Invocation.execute ⟨.dump, file, o⟩ files').output = dumped) ∧
    (∃ nodes, ∀ o, .wellFormed file nodes ∈ (conclude ⟨.check, file, o⟩ (files file)).notices ∧
      Invocation.execute ⟨.check, file, o⟩ files' = Invocation.execute ⟨.check, file, o⟩ files) ∧
    (∀ o, (Invocation.execute ⟨.run, file, o⟩ files').output = (Invocation.execute ⟨.run, file, o⟩ files).output ∧
      (Invocation.execute ⟨.run, file, o⟩ files').status = (Invocation.execute ⟨.run, file, o⟩ files).status ∧
      (conclude ⟨.run, file, o⟩ (files' file)).diagnostic = (conclude ⟨.run, file, o⟩ (files file)).diagnostic) := by
  obtain ⟨p, hp, -⟩ := (status_eq_zero_iff .dump o).1 hstatus
  rw [output_dump hp] at hdumped
  subst hdumped
  have hp' : files'.Holds file p := holds_dumped hp hreplaced
  refine ⟨fun o => ⟨?_, output_dump hp' o⟩, ⟨p.expression.nodeCount, fun o => ⟨?_, ?_⟩⟩, fun o => ?_⟩
  · exact (status_eq_zero_iff .dump o).2 ⟨p, hp', nofun⟩
  · rw [conclude_of_holds hp]
    exact List.mem_append_right _ List.mem_cons_self
  · simp only [Invocation.execute, conclude_of_holds hp, conclude_of_holds hp']
    rfl
  · simp only [Invocation.execute, Conclusion.outcome, conclude_eq_of_holds hp hp', and_self]

/-- A document with a field that is ignored and without names and locations. It is not what `dump` prints of it. -/
theorem dump_normalizes_of_bare_document :
    let operand := "\x7b\"kind\":\"Var\",\"text\":\"x\"\x7d"
    let text := "\x7b\"expression\":\x7b\"kind\":\"Print\",\"note\":1.5,\"value\":" ++ operand ++ "\x7d\x7d"
    let files (content : String) : FileSystem := fun name =>
      if name = "document" then .ok content.toUTF8 else .error .notFound
    let o : Options := ⟨false, false, false, 3⟩
    let dumped := (Invocation.execute ⟨.dump, "document", o⟩ (files text)).output
    (Invocation.execute ⟨.dump, "document", o⟩ (files text)).status = 0 ∧ text ≠ dumped ∧
    (Invocation.execute ⟨.dump, "document", o⟩ (files dumped)).output = dumped ∧
    (Invocation.execute ⟨.run, "document", o⟩ (files dumped)).status = 1 := by
  intro operand text files o dumped
  have hstatus : (Invocation.execute ⟨.dump, "document", o⟩ (files text)).status = 0 := by decide +kernel
  have hrun : (Invocation.execute ⟨.run, "document", o⟩ (files text)).status = 1 := by decide +kernel
  obtain ⟨hagain, -, hruns⟩ := dump_normalizes (files text) (files dumped) "document" o dumped hstatus rfl rfl
  exact ⟨hstatus, by decide +kernel, (hagain o).2, (hruns o).2.1.trans hrun⟩

end Treewalk.Command

import Treewalk.Proofs.JsonLayout
import Treewalk.Proofs.Parts

/-! Programs are read back from the text of their documents.

The JSON of a program is of the kind that text preserves, so reading gives the document back, and decoding
gives the program back. -/
namespace Treewalk

open Json

theorem Json.writable_orderFields {fields : List (String × Json)} (h : ∀ field ∈ fields, Writable field.2) :
    Writable (.object (orderFields fields)) :=
  .object (sorted_orderFields fields) fun field hfield => h field (mem_orderFields hfield)

theorem Json.writable_ofNat (n : UInt32) : Writable (.ofNat n.toNat) := by
  have hn := n.toNat_lt
  exact .integer (by omega) (by omega)

theorem Json.writable_ofInt (n : Int64) : Writable (.ofInt n.toInt) := by
  have hlow := n.le_toInt
  have hhigh := n.toInt_lt
  exact .integer (by omega) (by omega)

theorem Location.writable_toJson (l : Location) : Writable l.toJson := by
  rw [toJson_eq]
  apply writable_orderFields
  simp only [List.forall_mem_cons]
  exact ⟨writable_ofNat l.start, writable_ofNat l.stop, .string l.filename, List.forall_mem_nil _⟩

theorem Parameter.writable_toJson (p : Parameter) : Writable p.toJson := by
  rw [toJson_eq]
  apply writable_orderFields
  simp only [List.forall_mem_cons]
  exact ⟨.string p.name, p.location.writable_toJson, List.forall_mem_nil _⟩

theorem Document.Part.writable_toJson {part : Part} (h : ∀ t ∈ part.children, Writable t.toJson) :
    Writable part.toJson := by
  cases part with
  | integer n => exact writable_ofInt n
  | text s => exact .string s
  | truth b => exact .bool b
  | operator o => exact .string o.name
  | parameter p => exact p.writable_toJson
  | parameters ps => exact .array (List.forall_mem_map.2 fun p _ => p.writable_toJson)
  | term t => exact h t List.mem_cons_self
  | terms ts => exact .array (List.forall_mem_map.2 h)

theorem Term.writable_toJson (t : Term) : Writable t.toJson := by
  induction t using Term.childInduction with
  | step t ih =>
    have hparts : ∀ field ∈ t.parts, Writable field.2.toJson := by
      intro field hfield
      apply Document.Part.writable_toJson
      intro child hchild
      exact ih child (mem_children_of_mem_parts hfield hchild)
    rw [toJson_eq]
    apply writable_orderFields
    simp only [fields, List.forall_mem_cons, List.forall_mem_map]
    exact ⟨.string _, t.location.writable_toJson, hparts⟩

namespace Program

theorem writable_toJson (p : Program) : Writable p.toJson := by
  rw [toJson_eq]
  apply writable_orderFields
  simp only [List.forall_mem_cons]
  exact ⟨.string _, .string p.name, p.location.writable_toJson, p.expression.writable_toJson, List.forall_mem_nil _⟩

theorem ordered_of_parse {bytes : ByteArray} {p : Program} (h : Program.parse bytes = .ok p) : p.Ordered := by
  obtain ⟨json, -, hjson⟩ := Document.bind_eq_ok.1 h
  exact ordered_of_ofJson hjson

/-- The indented text of a program, with the end of its last line, reads as the program. -/
theorem parse_pretty_line {p : Program} (h : p.Ordered) : Program.parse (p.toJson.pretty ++ "\n").toUTF8 = .ok p := by
  have hread : Document.readJson (p.toJson.pretty ++ "\n").toUTF8 = .ok p.toJson := by
    rw [Document.readJson, read_pretty_line p.writable_toJson]
    rfl
  rw [Program.parse, hread]
  exact ofJson_toJson_iff.2 ⟨h, rfl⟩

/-- The compact text of a program, as bytes, reads as the program. -/
theorem parse_compact_toJson (p : Program) (h : p.Ordered) : Program.parse p.toJson.compact.toUTF8 = .ok p := by
  have hread : Document.readJson p.toJson.compact.toUTF8 = .ok p.toJson := by
    rw [Document.readJson, read_compact p.writable_toJson]
    rfl
  rw [Program.parse, hread]
  exact ofJson_toJson_iff.2 ⟨h, rfl⟩

theorem parse_compact_toJson_of_extremes :
    Program.Ordered ⟨"\"\\", .tuple (.int (-9223372036854775808) ⟨⟨0, 4294967295⟩, "\x00\n"⟩)
      (.str "é😀\x1f\x7f" .unknown) .unknown, .unknown⟩ ∧
    Program.parse (Program.toJson ⟨"\"\\", .tuple (.int (-9223372036854775808) ⟨⟨0, 4294967295⟩, "\x00\n"⟩)
      (.str "é😀\x1f\x7f" .unknown) .unknown, .unknown⟩).compact.toUTF8 =
      .ok ⟨"\"\\", .tuple (.int (-9223372036854775808) ⟨⟨0, 4294967295⟩, "\x00\n"⟩)
        (.str "é😀\x1f\x7f" .unknown) .unknown, .unknown⟩ :=
  ⟨by decide, parse_compact_toJson _ (by decide)⟩

end Program

end Treewalk
